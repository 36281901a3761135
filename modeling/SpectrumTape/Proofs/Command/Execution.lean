import SpectrumTape.Command.Execution
import SpectrumTape.Proofs.Command.Store

/-!
# How an execution goes

An execution is a list of steps, each of which takes a word and the arguments of the command that the
word calls (`Steps`), and it ends in one of six ways (`Ends`). What a word calls is known from the table of
the executor or from a step before (`Known`), and no step makes a name known that is known already. The
commands are bound in copies of the table alone, so the executor can do the same again
(`executes_steps`).
-/

namespace SpectrumTape.Command

variable {α : Type}

/-! ### Steps -/

/-- What a command does with the values of its arguments. -/
def Cmd.calls (c : Cmd α) (values : List ArgValue) : List (Call α) :=
  (c.action.map fun action => (action.label, values)).toList

/-- A command that was executed: the word that calls it, and its arguments with their values. -/
structure Step (α : Type) where
  word : Bytes
  command : Cmd α
  arguments : List Bytes
  values : List ArgValue

def Step.calls (s : Step α) : List (Call α) := s.command.calls s.values

/-- The commands that are known behind some steps: those of a table, and those that the commands of the
steps make known. -/
def Known (t : Table α) (front : List (Step α)) (name : Bytes) (c : Cmd α) : Prop :=
  t.find? name = some c ∨ ∃ s ∈ front, Table.find? s.command.subs name = some c

/-- A step is taken: its word calls its command, which gets the values of its arguments and returns. -/
structure Step.Taken (course : Course α) (t : Table α) (before : List (Call α))
    (front : List (Step α)) (s : Step α) : Prop where
  known : Known t front s.word.trimBlank s.command
  values : readArguments s.command.types s.arguments = .ok s.values
  returns : ∀ action ∈ s.command.action, course.ends before action s.values = .returns

/-- A step makes only names known that are not known yet. -/
def Step.Fresh (t : Table α) (front : List (Step α)) (s : Step α) : Prop :=
  ∀ name c, Table.find? s.command.subs name = some c → ∀ d, ¬Known t front name d

/-- Steps one after the other, from words up to those that are left. A command takes as many words as it
has arguments, as far as there are any. -/
inductive Steps (course : Course α) (t : Table α) :
    List (Call α) → List (Step α) → List Bytes → List (Step α) → List Bytes → Prop where
  | nil {before : List (Call α)} {front : List (Step α)} {words : List Bytes} :
      Steps course t before front words [] words
  | cons {before : List (Call α)} {front done : List (Step α)} {words left : List Bytes} {s : Step α}
      (htaken : s.Taken course t before front) (hfresh : s.Fresh t front)
      (harguments : s.arguments = words.take s.command.types.length)
      (hrest : Steps course t (before ++ s.calls) (front ++ [s])
        (words.drop s.command.types.length) done left) :
      Steps course t before front (s.word :: words) (s :: done) left

/-- How an execution ends behind some steps, what is done at last, and the outcome. -/
inductive Ends (course : Course α) (t : Table α) (before : List (Call α)) (front : List (Step α)) :
    List Bytes → List (Call α) → Outcome → Prop where
  | done : Ends course t before front [] [] .done
  | unknown {word : Bytes} {words : List Bytes} (hunknown : ∀ c, ¬Known t front word.trimBlank c) :
      Ends course t before front (word :: words) [] (.stopped (.unknown word.trimBlank))
  | argument {word : Bytes} {words : List Bytes} {c : Cmd α} {e : ArgError}
      (hknown : Known t front word.trimBlank c) (herror : readArguments c.types words = .error e) :
      Ends course t before front (word :: words) [] (.stopped (.argument e))
  | failed {word message : Bytes} {words : List Bytes} {c : Cmd α} {action : Action α}
      {values : List ArgValue} (hknown : Known t front word.trimBlank c)
      (haction : c.action = some action) (hvalues : readArguments action.types words = .ok values)
      (hends : course.ends before action values = .fails message) :
      Ends course t before front (word :: words) [(action.label, values)] (.stopped (.failed message))
  | exited {word : Bytes} {words : List Bytes} {c : Cmd α} {action : Action α}
      {values : List ArgValue} (hknown : Known t front word.trimBlank c)
      (haction : c.action = some action) (hvalues : readArguments action.types words = .ok values)
      (hends : course.ends before action values = .exits) :
      Ends course t before front (word :: words) [(action.label, values)] .exited
  | clash {s : Step α} {name : Bytes} {words : List Bytes} {c d : Cmd α}
      (htaken : s.Taken course t before front)
      (harguments : s.arguments = words.take s.command.types.length)
      (hsub : Table.find? s.command.subs name = some c) (hknown : Known t front name d) :
      Ends course t before front (s.word :: words) s.calls
        (.stopped (.clash s.word.trimBlank name))

/-! ### One command -/

theorem readArguments_take (types : List ArgType) (words : List Bytes) :
    readArguments types (words.take types.length) = readArguments types words := by
  induction types generalizing words with
  | nil => rfl
  | cons type types ih =>
    cases words with
    | nil => rfl
    | cons word words =>
      rw [List.length_cons, List.take_succ_cons, readArguments, readArguments, ih]

/-- All that a command can do with the words behind it. -/
inductive Performed (course : Course α) (before : List (Call α)) (c : Cmd α) (words : List Bytes) :
    List (Call α) × Outcome → Prop where
  | returned {values : List ArgValue} (hvalues : readArguments c.types words = .ok values)
      (hreturns : ∀ action ∈ c.action, course.ends before action values = .returns) :
      Performed course before c words (c.calls values, .done)
  | argument {e : ArgError} (herror : readArguments c.types words = .error e) :
      Performed course before c words ([], .stopped (.argument e))
  | failed {action : Action α} {values : List ArgValue} {message : Bytes}
      (haction : c.action = some action) (hvalues : readArguments action.types words = .ok values)
      (hends : course.ends before action values = .fails message) :
      Performed course before c words ([(action.label, values)], .stopped (.failed message))
  | exited {action : Action α} {values : List ArgValue}
      (haction : c.action = some action) (hvalues : readArguments action.types words = .ok values)
      (hends : course.ends before action values = .exits) :
      Performed course before c words ([(action.label, values)], .exited)

theorem performed_perform (course : Course α) (before : List (Call α)) (c : Cmd α)
    (words : List Bytes) : Performed course before c words (perform course before c words) := by
  unfold perform
  cases haction : c.action with
  | none =>
    have hvalues : readArguments c.types words = .ok [] := by rw [Cmd.types, haction]; rfl
    have hcalls : c.calls [] = [] := by rw [Cmd.calls, haction]; rfl
    have hreturned : Performed course before c words (c.calls [], .done) :=
      .returned hvalues (by rw [haction]; exact nofun)
    rwa [hcalls] at hreturned
  | some action =>
    have htypes : c.types = action.types := by rw [Cmd.types, haction]; rfl
    dsimp only
    cases hvalues : readArguments action.types words with
    | error e => exact .argument (by rw [htypes, hvalues])
    | ok values =>
      dsimp only
      cases hends : course.ends before action values with
      | returns =>
        have hcalls : c.calls values = [(action.label, values)] := by rw [Cmd.calls, haction]; rfl
        rw [← hcalls]
        refine .returned (by rw [htypes, hvalues]) fun action' haction' => ?_
        rw [haction] at haction'
        cases haction'
        exact hends
      | fails message => exact .failed haction hvalues hends
      | exits => exact .exited haction hvalues hends

theorem eq_calls_of_perform {course : Course α} {before calls : List (Call α)} {c : Cmd α}
    {words : List Bytes} (h : perform course before c words = (calls, .done)) :
    ∃ values, calls = c.calls values ∧ readArguments c.types words = .ok values ∧
      ∀ action ∈ c.action, course.ends before action values = .returns := by
  have hperformed := performed_perform course before c words
  rw [h] at hperformed
  cases hperformed with
  | returned hvalues hreturns => exact ⟨_, rfl, hvalues, hreturns⟩

/-! ### Names -/

section names

variable {t : Table α} {front : List (Step α)} {s : Step α}

theorem known_concat {name : Bytes} {c : Cmd α} :
    Known t (front ++ [s]) name c ↔
      Known t front name c ∨ Table.find? s.command.subs name = some c := by
  simp [Known, or_assoc, or_and_right, exists_or]

theorem Known.mono {front' : List (Step α)} {name : Bytes} {c : Cmd α} (hfront : front <+: front')
    (h : Known t front name c) : Known t front' name c :=
  h.imp_right fun ⟨s, hs, hsub⟩ => ⟨s, hfront.subset hs, hsub⟩

/-- As long as each step makes only new names known, a name is known for one command. -/
theorem Steps.known_unique {course : Course α} {before : List (Call α)} {words left : List Bytes}
    {done : List (Step α)} (h : Steps course t before front words done left)
    (hunique : ∀ name c d, Known t front name c → Known t front name d → c = d) :
    ∀ name c d, Known t (front ++ done) name c → Known t (front ++ done) name d → c = d := by
  induction h with
  | nil =>
    rw [List.append_nil]
    exact hunique
  | cons htaken hfresh harguments hrest ih =>
    rw [List.append_cons]
    refine ih fun name c d hc hd => ?_
    rw [known_concat] at hc hd
    rcases hc with hc | hc
    · rcases hd with hd | hd
      · exact hunique name c d hc hd
      · exact absurd hc (hfresh name d hd c)
    · rcases hd with hd | hd
      · exact absurd hd (hfresh name c hc d)
      · rw [hc] at hd
        exact Option.some.inj hd

end names

/-! ### Executions -/

section runs

variable {t : Table α} {front : List (Step α)}

theorem exists_taken {course : Course α} {before calls : List (Call α)} {word : Bytes}
    {words : List Bytes} {c : Cmd α} (hknown : Known t front word.trimBlank c)
    (hperform : perform course before c words = (calls, .done)) :
    ∃ s : Step α, s.word = word ∧ s.command = c ∧ s.Taken course t before front ∧
      s.arguments = words.take c.types.length ∧ s.calls = calls := by
  obtain ⟨values, hcalls, hvalues, hreturns⟩ := eq_calls_of_perform hperform
  refine ⟨⟨word, c, words.take c.types.length, values⟩, rfl, rfl, ⟨hknown, ?_, hreturns⟩, rfl,
    hcalls.symm⟩
  rw [readArguments_take]
  exact hvalues

/-- What an execution of the words behind some steps comes to. -/
def Goes (course : Course α) (t : Table α) (before : List (Call α)) (front : List (Step α))
    (words : List Bytes) (e : Execution α) : Prop :=
  ∃ done left last, Steps course t before front words done left ∧
    Ends course t (before ++ done.flatMap Step.calls) (front ++ done) left last e.outcome ∧
    e.calls = done.flatMap Step.calls ++ last

theorem Ends.goes {course : Course α} {before : List (Call α)} {words : List Bytes} {e : Execution α}
    (h : Ends course t before front words e.calls e.outcome) : Goes course t before front words e :=
  ⟨[], words, e.calls, .nil, by simpa using h, rfl⟩

theorem Goes.cons {course : Course α} {before : List (Call α)} {words : List Bytes} {e : Execution α}
    {s : Step α} (htaken : s.Taken course t before front) (hfresh : s.Fresh t front)
    (harguments : s.arguments = words.take s.command.types.length)
    (h : Goes course t (before ++ s.calls) (front ++ [s]) (words.drop s.command.types.length) e) :
    Goes course t before front (s.word :: words) (e.after s.calls) := by
  obtain ⟨done, left, last, hsteps, hends, hcalls⟩ := h
  refine ⟨s :: done, left, last, .cons htaken hfresh harguments hsteps, ?_, ?_⟩
  · rwa [List.flatMap_cons, ← List.append_assoc, List.append_cons]
  · show s.calls ++ e.calls = _
    rw [hcalls, List.flatMap_cons, List.append_assoc]

theorem goes_executeFrom (course : Course α) (before : List (Call α)) (store : Store α) (known : Nat)
    (words : List Bytes) : ∀ {front : List (Step α)}, known < store.size →
      (∀ name c, (store.read known).find? name = some c ↔ Known t front name c) →
        Goes course t before front words (executeFrom course before store known words).1 := by
  fun_induction executeFrom course before store known words with
  | case1 => exact fun _ _ => Ends.goes .done
  | case2 before store known word words hfind =>
    intro front hlt hknown
    refine Ends.goes (.unknown fun c hc => ?_)
    rw [← hknown, hfind] at hc
    cases hc
  | case3 before store known word words c hfind calls hperform hsubs e after hrest ih =>
    intro front hlt hknown
    obtain ⟨s, rfl, rfl, htaken, harguments, rfl⟩ := exists_taken ((hknown _ _).mp hfind) hperform
    have hnone (name : Bytes) : Table.find? s.command.subs name = none := by
      rw [List.isEmpty_iff.mp hsubs]
      rfl
    have hfresh : s.Fresh t front := by
      intro name d hd
      rw [hnone] at hd
      cases hd
    rw [hrest] at ih
    refine Goes.cons htaken hfresh harguments (ih hlt fun name d => ?_)
    rw [hknown, known_concat, hnone]
    simp
  | case4 before store known word words c hfind calls hperform hsubs fresh copied hcopy extended
      sub hextend =>
    intro front hlt hknown
    obtain ⟨s, rfl, rfl, htaken, harguments, rfl⟩ := exists_taken ((hknown _ _).mp hfind) hperform
    have hsome : ((store.copy known).2.extend (store.copy known).1 (course.order s.command.subs)).2 =
        some sub := by rw [hcopy, hextend]
    obtain ⟨c, hc, d, hd⟩ := Store.extend_eq_some (store.lt_size_copy known)
      (course.nodup_order s.command.subs) hsome
    rw [Store.read_copy_self, hknown] at hd
    exact Ends.goes (.clash htaken harguments (course.mem_order.mp hc) hd)
  | case5 before store known word words c hfind calls hperform hsubs fresh copied hcopy
      extended hextend e after hrest ih =>
    intro front hlt hknown
    obtain ⟨s, rfl, rfl, htaken, harguments, rfl⟩ := exists_taken ((hknown _ _).mp hfind) hperform
    have hnone : ((store.copy known).2.extend (store.copy known).1 (course.order s.command.subs)).2 =
        none := by rw [hcopy, hextend]
    obtain ⟨hfree, hbound⟩ := Store.extend_eq_none (store.lt_size_copy known)
      (course.nodup_order s.command.subs) hnone
    have hlt' := store.lt_size_extend_copy known (course.order s.command.subs)
    rw [Store.read_copy_self] at hfree hbound
    rw [hcopy, hextend] at hbound hlt'
    have hfresh : s.Fresh t front := by
      intro name d hd d' hd'
      rw [← hknown, hfree (name, d) (course.mem_order.mpr hd)] at hd'
      cases hd'
    rw [hrest] at ih
    refine Goes.cons htaken hfresh harguments (ih hlt' fun name d => ?_)
    rw [hbound, known_concat, hknown, course.mem_order]
  | case6 before store known word words c hfind calls outcome hstops hperform =>
    intro front hlt hknown
    have hc := (hknown _ _).mp hfind
    have hperformed := performed_perform course before c words
    rw [hperform] at hperformed
    cases hperformed with
    | returned hvalues hreturns => exact absurd rfl hstops
    | argument herror => exact Ends.goes (.argument hc herror)
    | failed haction hvalues hends => exact Ends.goes (.failed hc haction hvalues hends)
    | exited haction hvalues hends => exact Ends.goes (.exited hc haction hvalues hends)

theorem executeFrom_congr (course : Course α) (before : List (Call α)) (store : Store α)
    (known : Nat) (words : List Bytes) : ∀ {store' : Store α} {known' : Nat},
      store.read known = store'.read known' →
        (executeFrom course before store known words).1 =
          (executeFrom course before store' known' words).1 := by
  fun_induction executeFrom course before store known words with
  | case1 =>
    intro store' known' hread
    rw [executeFrom]
  | case2 before store known word words hfind =>
    intro store' known' hread
    rw [executeFrom, ← hread, hfind]
  | case3 before store known word words c hfind calls hperform hsubs e after hrest ih =>
    intro store' known' hread
    rw [hrest] at ih
    simp only [executeFrom, ← hread, hfind, hperform, if_pos hsubs, ← ih hread]
  | case4 before store known word words c hfind calls hperform hsubs fresh copied hcopy extended
      sub hextend =>
    intro store' known' hread
    have hclash := (Store.extend_copy_congr hread (course.order c.subs)).1
    rw [hcopy, hextend] at hclash
    simp only [executeFrom, ← hread, hfind, hperform, if_neg hsubs]
    cases hextend' : (store'.copy known').2.extend (store'.copy known').1 (course.order c.subs) with
    | mk extended' clash =>
      rw [hextend'] at hclash
      subst hclash
      rfl
  | case5 before store known word words c hfind calls hperform hsubs fresh copied hcopy
      extended hextend e after hrest ih =>
    intro store' known' hread
    obtain ⟨hclash, hextended⟩ := Store.extend_copy_congr hread (course.order c.subs)
    rw [hcopy, hextend] at hclash hextended
    rw [hrest] at ih
    simp only [executeFrom, ← hread, hfind, hperform, if_neg hsubs]
    cases hextend' : (store'.copy known').2.extend (store'.copy known').1 (course.order c.subs) with
    | mk extended' clash =>
      rw [hextend'] at hclash hextended
      subst hclash
      exact congrArg (Execution.after calls) (ih hextended)
  | case6 before store known word words c hfind calls outcome hstops hperform =>
    intro store' known' hread
    simp only [executeFrom, ← hread, hfind, hperform]

theorem read_executeFrom (course : Course α) (before : List (Call α)) (store : Store α)
    (known : Nat) (words : List Bytes) : ∀ {address : Nat}, address < store.size →
      (executeFrom course before store known words).2.read address = store.read address := by
  fun_induction executeFrom course before store known words with
  | case1 | case2 | case6 => exact fun _ => rfl
  | case3 before store known word words c hfind calls hperform hsubs e after hrest ih =>
    rw [hrest] at ih
    exact ih
  | case4 before store known word words c hfind calls hperform hsubs fresh copied hcopy extended
      sub hextend =>
    intro address hlt
    have hread := Store.read_extend_copy hlt known (course.order c.subs)
    rwa [hcopy, hextend] at hread
  | case5 before store known word words c hfind calls hperform hsubs fresh copied hcopy
      extended hextend e after hrest ih =>
    intro address hlt
    have hread := Store.read_extend_copy hlt known (course.order c.subs)
    have hsize := store.size_extend_copy known (course.order c.subs)
    rw [hcopy, hextend] at hread hsize
    rw [hrest] at ih
    exact (ih (Nat.lt_of_lt_of_eq (Nat.lt_succ_of_lt hlt) hsize.symm)).trans hread

theorem Steps.words_eq {course : Course α} {before : List (Call α)} {words left : List Bytes}
    {done : List (Step α)} (h : Steps course t before front words done left) :
    words = done.flatMap (fun s => s.word :: s.arguments) ++ left := by
  induction h with
  | nil => rfl
  | cons htaken hfresh harguments hrest ih =>
    rw [List.flatMap_cons, List.append_assoc, ← ih, harguments, List.cons_append,
      List.take_append_drop]

end runs

/-- An execution comes to its end by steps, each of which takes words. A word calls a command that the
table of the executor knows or that a command called before has made known, and the name of a known
command is never given to another one. What is done is what the commands of the steps do and, if the
last command fails by itself or makes a known name known, what it does. The executor does the same
afterwards as before. -/
theorem Executor.execute_steps (course : Course α) (before : List (Call α)) (e : Executor α)
    (words : List Bytes) :
    (∃ done left last,
      Steps course e.table before [] words done left ∧
      words = done.flatMap (fun s => s.word :: s.arguments) ++ left ∧
      Ends course e.table (before ++ done.flatMap Step.calls) done left last
        (e.execute course before words).1.outcome ∧
      (e.execute course before words).1.calls = done.flatMap Step.calls ++ last ∧
      ∀ front, front <+: done → ∀ name c d, Known e.table front name c →
        (Known e.table done name d ↔ d = c)) ∧
    (e.execute course before words).2.table = e.table ∧
    ∀ course' before' words', ((e.execute course before words).2.execute course' before' words').1 =
      (e.execute course' before' words').1 := by
  have htable : (e.execute course before words).2.table = e.table :=
    read_executeFrom course before e.store e.own words e.own_lt
  refine ⟨?_, htable, fun course' before' words' => executeFrom_congr course' before' _ _ words' htable⟩
  have hknown (name : Bytes) (c : Cmd α) :
      (e.store.read e.own).find? name = some c ↔ Known e.table [] name c := by
    simp [Known, Executor.table]
  obtain ⟨done, left, last, hsteps, hends, hcalls⟩ :=
    goes_executeFrom course before e.store e.own words e.own_lt hknown
  have hunique := hsteps.known_unique fun name c d hc hd => by
    rw [← hknown] at hc hd
    exact Option.some.inj (hc.symm.trans hd)
  refine ⟨done, left, last, hsteps, hsteps.words_eq, hends, hcalls, fun front hfront name c d hc =>
    ⟨fun hd => hunique name d c hd (hc.mono hfront), ?_⟩⟩
  rintro rfl
  exact hc.mono hfront

/-- What one execution made known, the next one does not know. -/
example :
    let e := Executor.ofTable [(utf8 "a", .mk none [(utf8 "b", .mk (some { label := 1 }) [] {})] {})]
    let run := e.execute .standard [] [utf8 "a", utf8 " b"]
    run.1 = ⟨[(1, [])], .done⟩ ∧
      (run.2.execute .standard [] [utf8 "b"]).1 = ⟨[], .stopped (.unknown (utf8 "b"))⟩ := by
  decide +kernel

end SpectrumTape.Command
