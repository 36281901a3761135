import SpectrumTape.Proofs.Basic.Lookahead
import SpectrumTape.Proofs.Basic.References
import SpectrumTape.Proofs.Basic.SecondPass
import SpectrumTape.Proofs.Basic.Reports

/-!
# References are numbers

A reference to a label stands for the number of its line. If one of them is replaced by that number,
set off by blanks, the rest of the source is read as before (`lex_inlined`), and both passes come to
the same end (`parse_inlined`).
-/

namespace SpectrumTape.Basic

namespace Lexer

/-! ### One step after the other -/

section steps

variable {v : Vocabulary} {mode mode' : Mode} {line column more : Nat} {here : Bytes}
  {later : List Bytes}

theorem lexFrom_advance (hnext : (step v mode here).next = .advance more mode') (hhere : here ≠ []) :
    lexFrom v mode line column here later =
      Step.items (step v mode here) line column ++
        lexFrom v mode' line (column + (more + 1)) (here.drop (more + 1)) later := by
  rw [lexFrom.eq_def]
  simp only [hnext, hhere, dite_false]

theorem lexFrom_read {size : Nat} {tokens : List Token}
    (hstep : step v mode here = .read size tokens mode') (hsize : 0 < size) (hhere : here ≠ []) :
    lexFrom v mode line column here later =
      tokens.map (⟨line, column + size, ·⟩) ++
        lexFrom v mode' line (column + size) (here.drop size) later := by
  have hnext : (step v mode here).next = .advance (size - 1) mode' := by rw [hstep]; rfl
  rw [lexFrom_advance hnext hhere, hstep, Nat.sub_add_cancel hsize]
  simp [Step.items, Step.read]

theorem lexFrom_blank {first : Bool} {c : UInt8} (hc : Ascii.isSpace c = true) (rest : Bytes) :
    lexFrom v (.statement first) line column (c :: rest) later =
      lexFrom v (.statement first) line (column + 1) rest later := by
  have hblanks {b : UInt8} (hb : Ascii.isSpace b = true) (column : Nat) (more : Bytes) :
      lexFrom v (.statement first) line column (b :: more) later =
        lexFrom v (.statement first) line (column + 1 + Literal.runLength Ascii.isSpace more)
          (more.drop (Literal.runLength Ascii.isSpace more)) later := by
    have hlength : Literal.runLength Ascii.isSpace (b :: more) =
        Literal.runLength Ascii.isSpace more + 1 := by simp [Literal.runLength, hb]
    have hstep : step v (.statement first) (b :: more) =
        .read (Literal.runLength Ascii.isSpace more + 1) [] (.statement first) := by
      simp only [step, statementStep, hb, if_true, hlength]
    rw [lexFrom_read hstep (Nat.succ_pos _) (List.cons_ne_nil b more), List.drop_succ_cons,
      Nat.add_comm _ 1, ← Nat.add_assoc]
    rfl
  rw [hblanks hc]
  cases rest with
  | nil => rfl
  | cons d rest =>
    by_cases hd : Ascii.isSpace d = true
    · rw [hblanks hd]
      simp only [Literal.runLength, List.takeWhile_cons, hd, if_true, List.length_cons,
        List.drop_succ_cons]
      congr 1
      omega
    · simp [Literal.runLength, hd]

theorem map_token_lexFrom (line' column' : Nat) :
    (lexFrom v mode line' column' here later).map Item.token =
      (lexFrom v mode line column here later).map Item.token := by
  fun_induction lexFrom v mode line column here later generalizing line' column' with
  | case1 mode line column here later s hadvance hjoin hnew =>
    rw [lexFrom.eq_def, List.map_append, List.map_append, map_token_items, map_token_items]
    congr 1
    rw [show step v mode here = s from rfl]
    cases hnext : s.next with
    | stop => rfl
    | advance more mode' =>
      by_cases hhere : here = []
      · simp only [hhere, dite_true]
      · simp only [hhere, dite_false]
        exact hadvance more mode' hhere _ _
    | join mode' =>
      cases later with
      | nil => rfl
      | cons next later => exact hjoin mode' _ _
    | newLine =>
      cases later with
      | nil => rfl
      | cons next later => exact hnew _ _

end steps

end Lexer

/-! ### Another reading -/

/-- The tokens are the same, or the one is a reference and the other a number in its place. -/
def Inlines (name : Bytes) (n : Number) (t t' : Token) : Prop :=
  t' = t ∨ t = .reference name ∧ t' = .number n

/-- Token by token, the items are the same but for numbers in place of references. -/
def InlinesAll (name : Bytes) (n : Number) (items items' : List Item) : Prop :=
  List.Forall₂ (fun i i' => Inlines name n i.token i'.token) items items'

namespace InlinesAll

variable {name : Bytes} {n : Number} {items items' rest rest' : List Item}

theorem of_map_token (h : items'.map Item.token = items.map Item.token) :
    InlinesAll name n items items' := by
  have heq : List.Forall₂ (· = ·) (items'.map Item.token) (items.map Item.token) := by
    rw [List.forall₂_eq_eq_eq, h]
  rw [List.forall₂_map_left_iff, List.forall₂_map_right_iff] at heq
  exact List.Forall₂.flip (heq.imp fun _ _ => Or.inl)

theorem append (h : InlinesAll name n items items') (hrest : InlinesAll name n rest rest') :
    InlinesAll name n (items ++ rest) (items' ++ rest') :=
  List.rel_append h hrest

end InlinesAll

namespace Lexer

variable {dialect : Dialect} {mode : Mode} {name value : Bytes} {n : Number} {line column : Nat}
  {later : List Bytes}

theorem step_digits (hdigits : ∀ c ∈ value, Ascii.isDigit c = true) (hvalue : value ≠ [])
    (hn : Literal.numberOfText value = .ok n) (rest : Bytes) :
    step (.ofDialect dialect) (.statement false) (value ++ 0x20 :: rest) =
      .read value.length [.number n] (.statement false) := by
  have hlength : Literal.decimalLength value = value.length := by
    have hrun : Literal.runLength Ascii.isDigit value = value.length := by
      rw [Literal.runLength, List.takeWhile_eq_self_iff.mpr hdigits]
    simp [Literal.decimalLength, hrun, Literal.fractionLength, Literal.exponentLength]
  obtain ⟨d, more, rfl⟩ := List.exists_cons_of_ne_nil hvalue
  have hd := hdigits d List.mem_cons_self
  -- What follows the first digit is another one or nothing, so it marks no base.
  have hmark (b : UInt8) (hb : b = 0x78 ∨ b = 0x62) :
      (Ascii.toLower ((more.head?).getD 0) == b) = false := by
    cases more with
    | nil => rcases hb with rfl | rfl <;> rfl
    | cons e more =>
      have he := hdigits e (by simp)
      rw [List.head?_cons, Option.getD_some, Ascii.toLower_of_isDigit he, beq_eq_false_iff_ne]
      rcases hb with rfl | rfl <;> exact Ascii.ne_of_isDigit he (by decide)
  have hread : Literal.readNumber false (d :: more) = ⟨(d :: more).length, .ok n⟩ := by
    simp only [Literal.readNumber, List.drop_succ_cons, List.drop_zero, hmark _ (Or.inl rfl),
      hmark _ (Or.inr rfl), Bool.and_false, Bool.false_eq_true, if_false, Literal.readDecimal, hlength,
      List.take_length, hn]
  have hspace : Ascii.isSpace d = false := Ascii.isSpace_of_isWord (Ascii.isWord_of_isDigit hd)
  have hne : (d == 0x23) = false ∧ (d == Ascii.backslash) = false ∧ (d == 0x40) = false := by
    simp only [beq_eq_false_iff_ne]
    exact ⟨Ascii.ne_of_isDigit hd (by decide), Ascii.ne_of_isDigit hd (by decide),
      Ascii.ne_of_isDigit hd (by decide)⟩
  have hstop : Bytes.Stops (0x20 :: rest) := Or.inr rfl
  have hnumber := Literal.readNumber_append hstop false hvalue
  rw [List.cons_append] at hnumber ⊢
  simp only [step, statementStep, hspace, hne, hd, Bool.false_eq_true, if_false, if_true, hnumber,
    hread, Step.ofRead, Nat.zero_add]

/-- On the line of a reference: the part before it is read as before, and so is what follows. -/
theorem inlines_line (hdigits : ∀ c ∈ value, Ascii.isDigit c = true) (hvalue : value ≠ [])
    (hn : Literal.numberOfText value = .ok n) (line' column' : Nat) {u after : Bytes}
    (h : ⟨line, column + u.length + (1 + name.length), .reference name⟩ ∈
      lexFrom (.ofDialect dialect) mode line column (u ++ 0x40 :: (name ++ after)) later) :
    InlinesAll name n
      (lexFrom (.ofDialect dialect) mode line column (u ++ 0x40 :: (name ++ after)) later)
      (lexFrom (.ofDialect dialect) mode line' column' (u ++ 0x20 :: (value ++ 0x20 :: after))
        later) := by
  induction hlength : u.length using Nat.strong_induction_on generalizing u mode column column' with
  | _ length ih =>
  subst hlength
  obtain hline | ⟨-, -, first, rfl⟩ := place_of_reference h rfl
  · exact absurd hline (Nat.lt_irrefl _)
  have hread := mem_of_reference h rfl rfl
  cases u with
  | nil =>
    rcases hread with hitem | ⟨more, mode', -, -, hlater⟩
    · obtain ⟨-, offset, -, htoken⟩ := line_of_mem_items hitem
      obtain ⟨rest, hmode, hhere, hname, -, hstep⟩ := step_reference htoken
      cases hmode
      cases hhere
      have hpos := List.length_pos_iff.mpr hvalue
      have hblank : Ascii.isSpace 0x20 = true := rfl
      have hstep' : step (.ofDialect dialect) (.statement false) (value ++ 0x20 :: after) =
          .read value.length [.number n] (.statement false) := step_digits hdigits hvalue hn after
      have hdrop : (0x40 :: (name ++ after)).drop (1 + name.length) = after := by
        rw [Nat.add_comm, List.drop_succ_cons, List.drop_left]
      rw [List.nil_append] at hstep ⊢
      rw [lexFrom_read hstep (by omega) (by simp), hdrop, List.nil_append, lexFrom_blank hblank,
        lexFrom_read hstep' hpos (by simp [hvalue]), List.drop_left, lexFrom_blank hblank]
      exact InlinesAll.append (List.Forall₂.cons (Or.inr ⟨rfl, rfl⟩) .nil)
        (.of_map_token (map_token_lexFrom _ _))
    · -- Behind the next step it would end further to the right.
      have hplace := place_of_reference hlater rfl
      simp at hplace
  | cons c u =>
    by_cases hc : Ascii.isSpace c = true
    · rw [List.cons_append, lexFrom_blank hc] at h ⊢
      rw [List.cons_append, lexFrom_blank hc]
      refine ih u.length (by simp) _ ?_ rfl
      rw [List.length_cons] at h
      rwa [show column + 1 + u.length = column + (u.length + 1) by omega]
    · rcases hread with hitem | ⟨more, mode', hnext, hhere, hlater⟩
      · -- A reference that is read here begins here.
        obtain ⟨-, offset, hcolumn, htoken⟩ := line_of_mem_items hitem
        obtain ⟨rest, -, -, -, -, hstep⟩ := step_reference htoken
        rw [hstep] at htoken
        have := (mem_read htoken).1
        simp only [List.length_cons] at hcolumn
        omega
      · obtain hline | ⟨-, hcolumn, first', rfl⟩ := place_of_reference hlater rfl
        · exact absurd hline (Nat.lt_irrefl _)
        have hmore : more + 1 ≤ (c :: u).length := by
          dsimp only at hcolumn
          omega
        obtain ⟨d, digits, hd⟩ := List.exists_cons_of_ne_nil hvalue
        have hparts : Bytes.Parts (0x20 :: (value ++ 0x20 :: after)) := by
          rw [hd]
          exact Or.inr ⟨d, _, rfl, hdigits d (by rw [hd]; exact List.mem_cons_self)⟩
        have hstep : step (.ofDialect dialect) (.statement first)
            (c :: u ++ 0x20 :: (value ++ 0x20 :: after)) =
            step (.ofDialect dialect) (.statement first) (c :: u ++ 0x40 :: (name ++ after)) :=
          statementStep_append hparts (Bool.not_eq_true _ ▸ hc) ⟨more, first', hnext, hmore⟩
        have hnext' := hnext
        rw [← hstep] at hnext'
        rw [lexFrom_advance hnext hhere, lexFrom_advance hnext' (by simp), hstep]
        refine InlinesAll.append (.of_map_token ?_) ?_
        · rw [map_token_items, map_token_items]
        · rw [List.drop_append_of_le_length hmore] at hlater ⊢
          rw [List.drop_append_of_le_length hmore]
          refine ih _ ?_ _ ?_ rfl
          · rw [List.length_drop]
            omega
          · rw [List.length_drop]
            rwa [show column + (more + 1) + ((c :: u).length - (more + 1)) =
              column + (c :: u).length by omega]

/-- On an earlier line: all that is read up to the line of the reference is the same. -/
theorem inlines_later (hdigits : ∀ c ∈ value, Ascii.isDigit c = true) (hvalue : value ≠ [])
    (hn : Literal.numberOfText value = .ok n) (line' column' : Nat) {here u after : Bytes}
    {earlier behind : List Bytes} (hlater : later = earlier ++ (u ++ 0x40 :: (name ++ after)) :: behind)
    (h : ⟨line + 1 + earlier.length, 1 + u.length + (1 + name.length), .reference name⟩ ∈
      lexFrom (.ofDialect dialect) mode line column here later) :
    InlinesAll name n (lexFrom (.ofDialect dialect) mode line column here later)
      (lexFrom (.ofDialect dialect) mode line' column' here
        (earlier ++ (u ++ 0x20 :: (value ++ 0x20 :: after)) :: behind)) := by
  fun_induction lexFrom (.ofDialect dialect) mode line column here later
    generalizing line' column' earlier with
  | case1 mode line column here later s hadvance hjoin hnew =>
    rw [lexFrom.eq_def]
    refine InlinesAll.append (.of_map_token ?_) ?_
    · rw [map_token_items, map_token_items]
    replace h := (List.mem_append.mp h).resolve_left fun hitem => by
      have := (line_of_mem_items hitem).1
      dsimp only at this
      omega
    have hline {first : Bytes} {rest : List Bytes} :
        line + 1 + (first :: rest).length = line + 1 + 1 + rest.length := by
      rw [List.length_cons]
      omega
    rw [show step (.ofDialect dialect) mode here = s from rfl]
    cases hnext : s.next with
    | stop => simp [hnext] at h
    | advance more mode' =>
      simp only [hnext] at h
      by_cases hhere : here = []
      · simp [hhere] at h
      · simp only [hhere, dite_false] at h ⊢
        exact hadvance more mode' hhere _ _ hlater h
    | join mode' =>
      simp only [hnext] at h
      subst hlater
      cases earlier with
      | nil => exact inlines_line hdigits hvalue hn _ _ h
      | cons next earlier =>
        rw [hline] at h
        exact hjoin mode' _ _ rfl h
    | newLine =>
      simp only [hnext] at h
      subst hlater
      cases earlier with
      | nil => exact inlines_line hdigits hvalue hn _ _ h
      | cons next earlier =>
        rw [hline] at h
        exact hnew _ _ rfl h

end Lexer

/-- A source with a number, set off by blanks, in place of a reference has the tokens of that source
but for that one. -/
theorem lex_inlined {dialect : Dialect} {i : Item} {before name value after source : Bytes} {n : Number}
    (hdigits : ∀ c ∈ value, Ascii.isDigit c = true) (hvalue : value ≠ [])
    (hn : Literal.numberOfText value = .ok n) (h : i ∈ lex (.ofDialect dialect) source)
    (hi : i.token = .reference name) (hoccurs : Occurs i name before after source) :
    InlinesAll name n (lex (.ofDialect dialect) source)
      (lex (.ofDialect dialect) (before ++ 0x20 :: (value ++ 0x20 :: after))) := by
  obtain ⟨rfl, hline, hcolumn⟩ := hoccurs
  obtain ⟨earlier, row, rest, behind, hplace, hlines⟩ := Bytes.lines_insert 1 before after
  have hword : ∀ c ∈ name, Ascii.isWord c = true := by
    unfold lex at h
    split at h
    · cases h
    · exact (Lexer.row_of_reference h hi).1
  have hold := hlines (0x40 :: name) (by simp) fun c hc => by
    rcases List.mem_cons.mp hc with rfl | hc
    · rfl
    · exact Ascii.isBreak_of_isWord (hword c hc)
  have hnew := hlines (0x20 :: (value ++ [0x20])) (by simp) fun c hc => by
    simp only [List.mem_cons, List.mem_append, List.not_mem_nil, or_false] at hc
    rcases hc with rfl | hc | rfl
    · rfl
    · exact Ascii.isBreak_of_isWord (Ascii.isWord_of_isDigit (hdigits c hc))
    · rfl
  simp only [List.cons_append, List.append_assoc, List.nil_append] at hold hnew
  obtain rfl : i = ⟨1 + earlier.length, 1 + row.length + (1 + name.length), .reference name⟩ := by
    rw [Bytes.placeBehind, hplace] at hline hcolumn
    dsimp only at hline hcolumn
    rw [← hline, ← hcolumn, ← hi]
  unfold lex at h ⊢
  rw [hold] at h
  rw [hold, hnew]
  cases earlier with
  | nil => exact Lexer.inlines_line hdigits hvalue hn 1 1 h
  | cons first earlier =>
    rw [List.length_cons, Nat.add_comm earlier.length, ← Nat.add_assoc] at h
    exact Lexer.inlines_later hdigits hvalue hn 1 1 rfl h

/-! ### Both passes -/

/-- If each step of one run can be followed by a step of another one that keeps a relation between
them, so can the run. -/
theorem runSteps_simulates {σ σ' α α' ε ε' : Type} {step : σ → α → Except ε σ}
    {step' : σ' → α' → Except ε' σ'} {R : σ → σ' → Prop} {T : α → α' → Prop}
    (hstep : ∀ s s' a a' t, R s s' → T a a' → step s a = .ok t → ∃ t', step' s' a' = .ok t' ∧ R t t')
    {s t : σ} {s' : σ'} {items : List α} {items' : List α'} (hs : R s s')
    (hitems : List.Forall₂ T items items') (hrun : runSteps step s items = (t, none)) :
    ∃ t', runSteps step' s' items' = (t', none) ∧ R t t' := by
  induction hitems generalizing s s' with
  | nil =>
    cases hrun
    exact ⟨s', rfl, hs⟩
  | cons ha _ ih =>
    obtain ⟨s₁, hs₁, hrun⟩ := runSteps_cons_eq_none_iff.mp hrun
    obtain ⟨s₁', hs₁', hR⟩ := hstep _ _ _ _ _ hs ha hs₁
    obtain ⟨t', ht', hR'⟩ := ih hR hrun
    exact ⟨t', runSteps_cons_eq_none_iff.mpr ⟨s₁', hs₁', ht'⟩, hR'⟩

theorem Symbols.Ascending.ext {s s' : Symbols} (hs : s.Ascending) (hs' : s'.Ascending)
    (h : ∀ name, s'.get? name = s.get? name) : s' = s := by
  have hmem : ∀ v, v ∈ s'.toList ↔ v ∈ s.toList := by
    intro v
    rw [← hs.get?_eq_some_iff, ← hs'.get?_eq_some_iff, h]
  have hperm : s'.toList.Perm s.toList :=
    (List.perm_ext_iff_of_nodup (.of_map _ hs'.nodup) (.of_map _ hs.nodup)).mpr hmem
  have heq : s'.toList = s.toList := by
    refine hperm.eq_of_pairwise (fun a b _ _ hab hba => ?_) (List.pairwise_map.mp hs')
      (List.pairwise_map.mp hs)
    exact absurd (Bytes.lt_trans hab hba) (Bytes.lt_irrefl _)
  cases s
  cases s'
  exact congrArg _ heq

namespace Survey

variable {o : Options} {constants : Symbols} {path : Bytes} {s s' t : Survey} {i i' : Item}
  {name : Bytes} {n : Number}

theorem step_of_behind {numbering : Numbering} (hnumbering : s.numbering.step o i.token = .ok numbering)
    (h : Behind o constants path s i numbering t) : step o constants path s i = .ok t := by
  unfold step
  rw [hnumbering]
  cases h with
  | label hi hconstant hfresh =>
    rw [hi]
    simp [bindLabel, hconstant, hfresh]
    rfl
  | reference hi =>
    rw [hi]
    rfl
  | ignored hi =>
    rw [hi]
    rfl
  | other hreference hignored hfault hlabel =>
    cases hi : i.token <;> simp_all <;> rfl

/-- Surveys that agree in all but one thing: whether a name without a value was referred to. -/
structure Alike (name : Bytes) (s s' : Survey) : Prop where
  numbering : s'.numbering = s.numbering
  others : ∀ other, other ≠ name → s'.symbols.get? other = s.symbols.get? other
  value : s'.symbols.value? name = s.symbols.value? name

theorem Alike.value? (h : Alike name s s') (other : Bytes) :
    s'.symbols.value? other = s.symbols.value? other := by
  by_cases hother : other = name
  · rw [hother, h.value]
  · rw [Symbols.value?, h.others other hother, Symbols.value?]

theorem get?_noteReference_of_ne {symbols : Symbols} {other : Bytes} (hne : other ≠ name) :
    (noteReference constants symbols name).get? other = symbols.get? other := by
  unfold noteReference
  split_ifs
  · rfl
  · rw [Symbols.get?_set, if_neg (Ne.symm hne)]

theorem get?_noteReference_congr {symbols symbols' : Symbols} {other : Bytes}
    (h : symbols'.get? other = symbols.get? other) :
    (noteReference constants symbols' name).get? other =
      (noteReference constants symbols name).get? other := by
  by_cases hne : other = name
  · subst hne
    unfold noteReference Symbols.contains
    rw [h]
    split_ifs
    · exact h
    · rw [Symbols.get?_set, Symbols.get?_set]
      simp
  · rw [get?_noteReference_of_ne hne, get?_noteReference_of_ne hne, h]

theorem step_alike (hs : Alike name s s') (ht : Inlines name n i.token i'.token)
    (hstep : step o constants path s i = .ok t) :
    ∃ t', step o constants path s' i' = .ok t' ∧ Alike name t t' := by
  obtain ⟨numbering, hnumbering, hbehind⟩ := step_cases hstep
  have hnumbering' : s'.numbering.step o i'.token = .ok numbering := by
    rw [hs.numbering, ← hnumbering]
    rcases ht with ht | ⟨hi, hi'⟩
    · rw [ht]
    · rw [hi, hi']
      rfl
  rcases ht with ht | ⟨hi, hi'⟩
  · cases hbehind with
    | @label other hi hconstant hfresh =>
      refine ⟨_, step_of_behind hnumbering' (.label (ht.trans hi) hconstant ?_), rfl, ?_, ?_⟩
      · rw [hs.value?, hfresh]
      · intro some hsome
        rw [Symbols.get?_set, Symbols.get?_set, hs.numbering, hs.others some hsome]
      · rw [Symbols.value?_set, Symbols.value?_set, hs.numbering, hs.value]
    | @reference other hi =>
      refine ⟨_, step_of_behind hnumbering' (.reference (ht.trans hi)), rfl, ?_, ?_⟩
      · intro some hsome
        exact get?_noteReference_congr (hs.others some hsome)
      · rw [value?_noteReference, value?_noteReference, hs.value]
    | ignored hi =>
      exact ⟨_, step_of_behind hnumbering' (.ignored (ht.trans hi)), rfl, hs.others, hs.value⟩
    | other hreference hignored hfault hlabel =>
      rw [← ht] at hreference hignored hfault hlabel
      exact ⟨_, step_of_behind hnumbering' (.other hreference hignored hfault hlabel), rfl, hs.others,
        hs.value⟩
  · have hnumber : step o constants path s' i' = .ok { s' with numbering } :=
      step_of_behind hnumbering' (.other (by simp [hi']) (by simp [hi']) (by simp [hi']) (by simp [hi']))
    refine ⟨_, hnumber, ?_⟩
    cases hbehind with
    | @reference other hother =>
      obtain rfl : other = name := by
        rw [hi] at hother
        exact (Token.reference.inj hother).symm
      refine ⟨rfl, fun some hsome => ?_, ?_⟩
      · rw [get?_noteReference_of_ne hsome]
        exact hs.others some hsome
      · rw [value?_noteReference]
        exact hs.value
    | label hlabel => simp [hi] at hlabel
    | ignored hignored => simp [hi] at hignored
    | other hreference => exact absurd hi (hreference name)

theorem run_inlined {items items' : List Item} {value : Bytes} (hitems : InlinesAll name n items items')
    (hrun : run o constants path items = (t, none)) (hvalue : t.symbols.value? name = some value) :
    ∃ t', run o constants path items' = (t', none) ∧ t'.symbols = t.symbols := by
  have hstart : Alike name {} {} := ⟨rfl, fun _ _ => rfl, rfl⟩
  have hstep : ∀ (s s' : Survey) (i i' : Item) (t : Survey), Alike name s s' →
      Inlines name n i.token i'.token → step o constants path s i = .ok t →
      ∃ t', step o constants path s' i' = .ok t' ∧ Alike name t t' :=
    fun _ _ _ _ _ hs ht hstep => step_alike hs ht hstep
  obtain ⟨t', hrun', halike⟩ := runSteps_simulates hstep hstart hitems hrun
  refine ⟨t', hrun', ?_⟩
  have hfound {symbols : Symbols} (h : symbols.value? name = some value) :
      symbols.get? name = some (.constant name value) := by
    obtain ⟨v, hv, hvalue⟩ := Option.bind_eq_some_iff.mp h
    have hname : v.name = name := by simpa using List.find?_some hv
    rw [hv, ← hname]
    exact congrArg some (by cases v; cases hvalue; rfl)
  refine (run_knows hrun).ascending.ext (run_knows hrun').ascending fun other => ?_
  by_cases hother : other = name
  · rw [hother, hfound hvalue, hfound (halike.value.trans hvalue)]
  · exact halike.others other hother

end Survey

namespace Emission

variable {o : Options} {constants symbols : Symbols} {path : Bytes} {e e' : Emission}
  {name : Bytes} {n : Number}

theorem run_inlined {items items' : List Item} (hitems : InlinesAll name n items items')
    (hbytes : tokenBytes o constants symbols (.reference name) = .ok n.bytes)
    (hrun : run o constants symbols path items = (e, none)) :
    run o constants symbols path items' = (e, none) := by
  have hstep : ∀ (s s' : Emission) (i i' : Item) (t : Emission), s' = s →
      Inlines name n i.token i'.token → step o constants symbols path s i = .ok t →
      ∃ t', step o constants symbols path s' i' = .ok t' ∧ t' = t := by
    rintro s _ i i' t rfl ht hstep
    refine ⟨t, ?_, rfl⟩
    obtain ⟨numbering, bytes, hnumbering, hb, rfl⟩ := step_eq_ok_iff.mp hstep
    rcases ht with ht | ⟨hi, hi'⟩
    · exact step_eq_ok_iff.mpr ⟨numbering, bytes, by rw [ht, hnumbering], by rw [ht, hb], by rw [ht]⟩
    · rw [hi] at hnumbering hb ⊢
      obtain rfl : n.bytes = bytes := Except.ok.inj (hbytes.symm.trans hb)
      exact step_eq_ok_iff.mpr ⟨numbering, n.bytes, by rw [hi']; exact hnumbering, by rw [hi']; rfl,
        by rw [hi']; rfl⟩
  obtain ⟨e', hrun', rfl⟩ := runSteps_simulates hstep rfl hitems hrun
  exact hrun'

end Emission

/-! ### The program -/

theorem emit_of_run {o : Options} {constants symbols : Symbols} {path : Bytes} {items : List Item}
    {warnings : List Diagnostic} {e : Emission} (hp : e.program ≠ [])
    (hrun : Emission.run o constants symbols path items = (e, none)) :
    emit o constants path items warnings symbols = ⟨warnings, symbols, .ok e.program⟩ := by
  have hbytes := Program.bytes_ne_nil hp
  simp [emit, hrun, hp, hbytes]

theorem resolved_of_ok {o : Options} {dialect : Dialect} {constants : Symbols} {path source : Bytes}
    {p : Program} (h : (compile o dialect constants path source).result = .ok p) :
    ∀ v ∈ constants.toList, v.isResolved := by
  unfold compile at h
  split at h
  · cases h
  · rename_i hfind
    simpa using hfind

theorem Literal.numberOfText_decimal {number : Nat} (h : number ≤ 65535) :
    numberOfText (Bytes.decimal number) = .ok ⟨Bytes.decimal number, .ofWord number⟩ := by
  have hdigits := Bytes.isDigit_of_mem_decimal number
  have hempty : (Bytes.decimal number).isEmpty = false := by simp [Bytes.decimal_ne_nil]
  have hpoint : (Bytes.decimal number == utf8 ".") = false := by
    rw [beq_eq_false_iff_ne]
    intro heq
    exact absurd (hdigits 0x2E (by rw [heq]; decide)) (by decide)
  rw [numberOfText, hempty, hpoint, Reading.readBinary_decimal (h.trans_lt (by decide))]
  simp only [numberOf, FiveByte.encode?_natCast false h]
  rfl

/-- **A reference to a label is the number of its line**: a source that compiles also compiles with
the value of the label, a blank before and behind it, in place of any one of the references to it,
and the program and the symbols are the same. -/
theorem parse_inlined (c : Compiler) (dialect : Dialect) (path source : Bytes) {p : Program}
    (h : (c.parse dialect path source).2.result = .ok p) {i : Item} {name value : Bytes}
    (hi : i ∈ lex (.ofDialect dialect) source) (hname : i.token = .reference name)
    (hvalue : (c.parse dialect path source).1.symbols.value? name = some value) :
    (∃ number, value = Bytes.decimal number) ∧
      (∃ before after, Occurs i name before after source) ∧
      ∀ before after, Occurs i name before after source →
        let inlined := c.parse dialect path (before ++ 0x20 :: (value ++ 0x20 :: after))
        inlined.2.result = .ok p ∧ inlined.1.program = (c.parse dialect path source).1.program ∧
          inlined.1.symbols = (c.parse dialect path source).1.symbols := by
  have hcompile : (compile c.options dialect c.constants path source).result = .ok p := h
  obtain ⟨s, hsurvey, hunresolved, hsymbols, e, hemission, hprogram⟩ :=
    (compile_ends _ _ _ _ _).survey_of_ok hcompile
  replace hvalue : s.symbols.value? name = some value := hsymbols ▸ hvalue
  obtain ⟨number, hnumber, rfl⟩ :=
    (Survey.run_sound (Survey.sound_start c.options) hsurvey).values name value hvalue
  refine ⟨⟨number, rfl⟩, exists_occurs hi hname, fun before after hoccurs => ?_⟩
  have hword : number ≤ 65535 := by omega
  have hitems := lex_inlined (Bytes.isDigit_of_mem_decimal number) (Bytes.decimal_ne_nil number)
    (Literal.numberOfText_decimal hword) hi hname hoccurs
  obtain ⟨s', hsurvey', hsame⟩ := Survey.run_inlined hitems hsurvey hvalue
  -- The name is a label, so no constant has it and the emission takes its value from the symbols.
  have hknows := Survey.run_knows hsurvey
  have hconstant : c.constants.contains name = false :=
    hknows.fresh name ((hknows.resolved name).mp (by rw [hvalue]; rfl))
  have hbytes : Emission.tokenBytes c.options c.constants s.symbols (.reference name) =
      .ok (Number.bytes ⟨Bytes.decimal number, .ofWord number⟩) := by
    simp only [Emission.tokenBytes, Emission.valueOf?_symbol (Bool.eq_false_iff.mp hconstant), hvalue,
      Emission.numberOfValue_decimal name hword]
    rfl
  have hemission' := Emission.run_inlined hitems hbytes hemission
  have hunresolved' : s'.unresolved = [] := by
    rw [Survey.unresolved, hsame]
    exact hunresolved
  have hcompiled : compile c.options dialect c.constants path
      (before ++ 0x20 :: (Bytes.decimal number ++ 0x20 :: after)) =
        ⟨s'.warnings.reverse, s.symbols, .ok p⟩ := by
    subst hprogram
    rw [compile_eq_emit (resolved_of_ok hcompile) hsurvey' hunresolved', hsame,
      emit_of_run (compile_eq_ok hcompile).1 hemission']
  intro inlined
  have hresult : inlined.2.result = .ok p := congrArg Compiled.result hcompiled
  refine ⟨hresult, ?_, ?_⟩
  · rw [Compiler.program_parse hresult, Compiler.program_parse h]
  · exact (congrArg Compiled.symbols hcompiled).trans hsymbols.symm

/-- A source up to a reference that is set close to its keyword, its label being still to come. -/
def referringLine : Bytes := "@again: PRINT \"@end\": GO TO"

def linesBehindReference : Bytes := "+@again*0 # \n\nREM @end\n@end: @last: STOP"

def referringProgram : Program :=
  [⟨100, [245, 34, 64, 101, 110, 100, 34, 58, 236, 49, 49, 48, 14, 0, 0, 110, 0, 0, 43, 49, 48, 48, 14,
      0, 0, 100, 0, 0, 42, 48, 14, 0, 0, 0, 0, 0, 13]⟩,
    ⟨105, [234, 64, 101, 110, 100, 13]⟩, ⟨110, [226, 13]⟩]

theorem parse_inlined_referringLine :
    let inlined := countingCompiler.parse .k48 []
      (referringLine ++ 0x20 :: (utf8 "110" ++ 0x20 :: linesBehindReference))
    inlined.2.result = .ok referringProgram ∧
      inlined.1.symbols =
        ⟨[.constant "again" "100", .constant "end" "110", .constant "last" "110"]⟩ := by
  obtain ⟨hread, hgiven⟩ : ⟨1, 32, .reference "end"⟩ ∈
        lex (.ofDialect .k48) (referringLine ++ 0x40 :: (utf8 "end" ++ linesBehindReference)) ∧
      (countingCompiler.parse .k48 []
        (referringLine ++ 0x40 :: (utf8 "end" ++ linesBehindReference))).2.result =
          .ok referringProgram ∧
      (countingCompiler.parse .k48 []
        (referringLine ++ 0x40 :: (utf8 "end" ++ linesBehindReference))).1.symbols =
          ⟨[.constant "again" "100", .constant "end" "110", .constant "last" "110"]⟩ := by
    unfold Compiler.parse compile
    rw [Vocabulary.ofDialect_eq]
    decide +kernel
  have hvalue : (countingCompiler.parse .k48 []
      (referringLine ++ 0x40 :: (utf8 "end" ++ linesBehindReference))).1.symbols.value? "end" =
        some "110" := by
    rw [hgiven.2]
    decide +kernel
  obtain ⟨-, -, hinlined⟩ :=
    parse_inlined countingCompiler .k48 [] _ hgiven.1 hread rfl hvalue
  obtain ⟨hresult, -, hsymbols⟩ := hinlined referringLine linesBehindReference
    ⟨rfl, by decide +kernel, by decide +kernel⟩
  exact ⟨hresult, hsymbols.trans hgiven.2⟩

end SpectrumTape.Basic
