import SpectrumTape.Proofs.Basic.Emission

/-!
# Walks through a source

Both passes walk through the items of a source. `passed` are the items that a run gets past, each
with the state behind it. Two runs over the same items that agree on a part of their states as long
as both go on walk alike: if the one gets through, the walk of the other is a first part of its
walk (`passed_isPrefix`), and where the other stops, the one goes on (`runSteps_stopped`).

The numbers that the emission has written can be seen in its walk (`Emission.run_numbers`). For that
no line may be opened while another one is open, which holds for the tokens of every source
(`orderly_lex`).
-/

namespace SpectrumTape.Basic

/-! ### Runs side by side -/

/-- The items that a run gets past, each with the state behind it. -/
def passed {σ α ε : Type} (step : σ → α → Except ε σ) : σ → List α → List (α × σ)
  | _, [] => []
  | s, a :: rest =>
    match step s a with
    | .ok s' => (a, s') :: passed step s' rest
    | .error _ => []

section runs

variable {σ τ α ε ε' γ : Type} {stepA : σ → α → Except ε σ} {stepB : τ → α → Except ε' τ}
  {f : σ → γ} {g : τ → γ} {s s' : σ} {t t' : τ} {items : List α}

theorem map_fst_passed (hrun : runSteps stepA s items = (s', none)) :
    (passed stepA s items).map Prod.fst = items := by
  induction items generalizing s with
  | nil => rfl
  | cons a items ih =>
    obtain ⟨s₁, hstep, hrun⟩ := runSteps_cons_eq_none_iff.mp hrun
    rw [passed, hstep]
    exact congrArg (a :: ·) (ih hrun)

theorem passed_isPrefix
    (hstep : ∀ s t a s' t', f s = g t → stepA s a = .ok s' → stepB t a = .ok t' → f s' = g t')
    (hst : f s = g t) (hrun : runSteps stepA s items = (s', none)) :
    (passed stepB t items).map (fun p => (p.1, g p.2)) <+:
      (passed stepA s items).map (fun p => (p.1, f p.2)) := by
  induction items generalizing s t with
  | nil => exact List.prefix_rfl
  | cons a items ih =>
    obtain ⟨s₁, hA, hrun⟩ := runSteps_cons_eq_none_iff.mp hrun
    rw [passed, passed, hA]
    cases hB : stepB t a with
    | error e => exact List.nil_prefix
    | ok t₁ =>
      have hst₁ := hstep s t a s₁ t₁ hst hA hB
      simp only [List.map_cons, hst₁]
      exact List.cons_prefix_cons.mpr ⟨rfl, ih hst₁ hrun⟩

theorem passed_eq
    (hstep : ∀ s t a s' t', f s = g t → stepA s a = .ok s' → stepB t a = .ok t' → f s' = g t')
    (hst : f s = g t) (hA : runSteps stepA s items = (s', none))
    (hB : runSteps stepB t items = (t', none)) :
    (passed stepB t items).map (fun p => (p.1, g p.2)) =
      (passed stepA s items).map (fun p => (p.1, f p.2)) := by
  refine (passed_isPrefix hstep hst hA).eq_of_length ?_
  have hlengthA := congrArg List.length (map_fst_passed hA)
  have hlengthB := congrArg List.length (map_fst_passed hB)
  rw [List.length_map] at hlengthA hlengthB ⊢
  rw [List.length_map, hlengthA, hlengthB]

/-- Where a run stops and the other one does not. -/
theorem runSteps_stopped
    (hstep : ∀ s t a s' t', f s = g t → stepA s a = .ok s' → stepB t a = .ok t' → f s' = g t')
    (hst : f s = g t) (hA : runSteps stepA s items = (s', none)) {e : ε'}
    (hB : runSteps stepB t items = (t', some e)) :
    ∃ a rest s₁ s₂, items = (passed stepB t items).map Prod.fst ++ a :: rest ∧ f s₁ = g t' ∧
      stepA s₁ a = .ok s₂ ∧ stepB t' a = .error e := by
  induction items generalizing s t with
  | nil => cases hB
  | cons a items ih =>
    obtain ⟨s₁, hstepA, hA⟩ := runSteps_cons_eq_none_iff.mp hA
    rw [runSteps] at hB
    rw [passed]
    cases hstepB : stepB t a with
    | error e' =>
      rw [hstepB] at hB
      cases hB
      exact ⟨a, items, s, s₁, rfl, hst, hstepA, hstepB⟩
    | ok t₁ =>
      rw [hstepB] at hB
      obtain ⟨b, rest, s₂, s₃, hitems, hrest⟩ := ih (hstep s t a s₁ t₁ hst hstepA hstepB) hA hB
      exact ⟨b, rest, s₂, s₃, congrArg (a :: ·) hitems, hrest⟩

end runs

/-! ### Open lines -/

def Token.leavesOpen (opened : Bool) : Token → Bool
  | .lineNumber _ => true
  | .statement => true
  | .lineEnd => false
  | _ => opened

/-- No line is opened while another one is open. -/
def Orderly : Bool → List Token → Prop
  | _, [] => True
  | opened, t :: rest =>
    (t.opening?.isSome = true → opened = false) ∧ Orderly (t.leavesOpen opened) rest

/-- Whether a token neither opens nor ends a line. -/
def Token.Inert (t : Token) : Prop := t.opening? = none ∧ t ≠ .lineEnd

theorem Token.inert_of_isFront {t : Token} (ht : t.isFront) : t.Inert := by
  refine ⟨?_, ne_lineEnd_of_isFront ht⟩
  cases t with
  | lineNumber n => simp [isFront] at ht
  | statement => simp [isFront] at ht
  | _ => rfl

theorem Token.inert_of_isBody {t : Token} (ht : t.isBody) : t.Inert := by
  refine ⟨?_, ne_lineEnd_of_isBody ht⟩
  cases t with
  | lineNumber n => simp [isBody] at ht
  | statement => simp [isBody] at ht
  | _ => rfl

theorem Token.Inert.leavesOpen {t : Token} (ht : t.Inert) (opened : Bool) :
    t.leavesOpen opened = opened := by
  obtain ⟨hop, hend⟩ := ht
  cases t with
  | lineNumber n => simp [opening?] at hop
  | statement => simp [opening?] at hop
  | lineEnd => exact absurd rfl hend
  | _ => rfl

theorem Orderly.inert {opened : Bool} {tokens rest : List Token} (h : Orderly opened rest)
    (htokens : ∀ t ∈ tokens, t.Inert) : Orderly opened (tokens ++ rest) := by
  induction tokens with
  | nil => exact h
  | cons t tokens ih =>
    obtain ⟨ht, htokens⟩ := List.forall_mem_cons.mp htokens
    refine ⟨by simp [ht.1], ?_⟩
    rw [ht.leavesOpen]
    exact ih htokens

theorem Orderly.opening {t : Token} {op : Opening} {rest : List Token} (h : Orderly true rest)
    (hop : t.opening? = some op) : Orderly false (t :: rest) := by
  refine ⟨fun _ => rfl, ?_⟩
  cases t with
  | lineNumber n => exact h
  | statement => exact h
  | _ => simp [Token.opening?] at hop

theorem Orderly.lineEnd {opened : Bool} {rest : List Token} (h : Orderly false rest) :
    Orderly opened (.lineEnd :: rest) :=
  ⟨by simp [Token.opening?], h⟩

theorem orderly_fault (opened : Bool) (cause : Cause) : Orderly opened [.fault cause] :=
  ⟨by simp [Token.opening?], trivial⟩

/-- How the reading goes on behind a step, and how its tokens fit to what follows them. Only the step
that ends a logical line has the token for that. -/
theorem Lexer.step_orderly (v : Vocabulary) (mode : Mode) (here : Bytes) :
    (step v mode here).Fails ∨ step v mode here = endLine ∨
      ∃ mode', ((∃ more, (step v mode here).next = .advance more mode') ∨
          (step v mode here).next = .join mode') ∧
        (∀ p ∈ (step v mode here).tokens, p.2 ≠ .lineEnd) ∧
        ∀ rest, Orderly (!mode'.isFirst) rest →
          Orderly (!mode.isFirst) ((step v mode here).tokens.map Prod.snd ++ rest) := by
  cases hmode : mode.isFirst with
  | true =>
    have hstep := step_first v hmode here
    generalize step v mode here = s at hstep ⊢
    cases hstep with
    | fails h => exact Or.inl h
    | ends hopening => exact Or.inr (Or.inl rfl)
    | passes hfront hopening =>
      refine Or.inr (Or.inr ⟨_, Or.inl ⟨_, rfl⟩, ?_, fun rest hrest => hrest.inert ?_⟩)
      · exact fun p hp => Token.ne_lineEnd_of_isFront (hfront p hp)
      · exact forall_mem_map_snd fun p hp => Token.inert_of_isFront (hfront p hp)
    | joins hfront hescape hlast hopening =>
      refine Or.inr (Or.inr ⟨_, Or.inr rfl, ?_, fun rest hrest => hrest.inert ?_⟩)
      · exact fun p hp => Token.ne_lineEnd_of_isFront (hfront p hp)
      · exact forall_mem_map_snd fun p hp => Token.inert_of_isFront (hfront p hp)
    | opens hop hbody hmode' hopening =>
      refine Or.inr (Or.inr ⟨_, Or.inl ⟨_, rfl⟩, ?_, fun rest hrest => ?_⟩)
      · exact List.forall_mem_cons.mpr ⟨Token.ne_lineEnd_of_opening hop,
          fun p hp => Token.ne_lineEnd_of_isBody (hbody p hp)⟩
      · rw [hmode'] at hrest
        refine Orderly.opening (hrest.inert ?_) hop
        exact forall_mem_map_snd fun p hp => Token.inert_of_isBody (hbody p hp)
  | false =>
    rcases step_opened v hmode here with h | h | ⟨hbody, hnext⟩
    · exact Or.inl h
    · exact Or.inr (Or.inl h)
    · have hinert : ∀ t ∈ (step v mode here).tokens.map Prod.snd, t.Inert :=
        forall_mem_map_snd fun p hp => Token.inert_of_isBody (hbody p hp)
      have hend : ∀ p ∈ (step v mode here).tokens, p.2 ≠ .lineEnd :=
        fun p hp => Token.ne_lineEnd_of_isBody (hbody p hp)
      rcases hnext with ⟨more, mode', hnext, hmode'⟩ | ⟨mode', hnext, hmode', -⟩
      · refine Or.inr (Or.inr ⟨mode', Or.inl ⟨more, hnext⟩, hend, fun rest hrest => ?_⟩)
        rw [hmode'] at hrest
        exact hrest.inert hinert
      · refine Or.inr (Or.inr ⟨mode', Or.inr hnext, hend, fun rest hrest => ?_⟩)
        rw [hmode'] at hrest
        exact hrest.inert hinert

theorem orderly_lexFrom (v : Vocabulary) (mode : Mode) (line column : Nat) (here : Bytes)
    (later : List Bytes) :
    Orderly (!mode.isFirst) ((Lexer.lexFrom v mode line column here later).map Item.token) := by
  fun_induction Lexer.lexFrom v mode line column here later with
  | case1 mode line column here later s hadvance hjoin hnew =>
    rw [List.map_append, Lexer.map_token_items]
    rcases Lexer.step_orderly v mode here with h | h | ⟨mode', hnext, -, hrest⟩
    · obtain ⟨offset, cause, h⟩ := h
      rw [show s = _ from h]
      exact orderly_fault _ cause
    · rw [show s = _ from h]
      cases later with
      | nil => exact Orderly.lineEnd trivial
      | cons next later => exact Orderly.lineEnd hnew
    · refine hrest _ ?_
      rcases hnext with ⟨more, hnext⟩ | hnext
      · rw [show s.next = _ from hnext]
        by_cases hhere : here = []
        · simp only [hhere, dite_true]
          trivial
        · simp only [hhere, dite_false]
          exact hadvance more mode' hhere
      · rw [show s.next = _ from hnext]
        cases later with
        | nil => exact Orderly.lineEnd trivial
        | cons next later => exact hjoin mode'

/-- **No line of a source is opened while another one is open.** -/
theorem orderly_lex (v : Vocabulary) (source : Bytes) :
    Orderly false ((lex v source).map Item.token) := by
  unfold lex
  cases source.lines with
  | nil => trivial
  | cons first later => exact orderly_lexFrom v (.statement true) 1 1 first later

namespace Emission

/-- The numbers of the lines written so far, the open one included. -/
def numbers (e : Emission) : List Nat :=
  e.lines.reverse.map Line.number ++ (e.current.map OpenLine.number).toList

end Emission

/-- The numbers that lines are opened with on a walk. -/
def openedNumbers (walk : List (Item × Numbering)) : List Nat :=
  (walk.filter (·.1.token.opening?.isSome)).map (·.2.last)

namespace Emission

variable {o : Options} {constants symbols : Symbols} {path : Bytes} {e e' : Emission} {i : Item}

theorem step_numbers (hopen : i.token.opening?.isSome = true → e.current.isSome = false)
    (hstep : step o constants symbols path e i = .ok e') :
    e'.current.isSome = i.token.leavesOpen e.current.isSome ∧
      e'.numbers = e.numbers ++ openedNumbers [(i, e'.numbering)] := by
  obtain ⟨numbering, bytes, -, -, rfl⟩ := step_eq_ok_iff.mp hstep
  obtain ⟨line, column, t⟩ := i
  cases t with
  | lineNumber n =>
    have hcurrent : e.current = none := by simpa using hopen rfl
    simp [behind, numbers, openedNumbers, Token.opening?, Token.leavesOpen, hcurrent]
  | statement =>
    have hcurrent : e.current = none := by simpa using hopen rfl
    simp [behind, numbers, openedNumbers, Token.opening?, Token.leavesOpen, hcurrent]
  | lineEnd =>
    cases hcurrent : e.current with
    | none =>
      simp [behind, closeLine, numbers, openedNumbers, Token.opening?, Token.leavesOpen, hcurrent]
    | some l =>
      simp [behind, closeLine, numbers, openedNumbers, Token.opening?, Token.leavesOpen, hcurrent]
  | _ =>
    simp [behind, write, numbers, openedNumbers, Token.opening?, Token.leavesOpen, Function.comp_def]

theorem run_numbers {items : List Item}
    (horderly : Orderly e.current.isSome (items.map Item.token)) :
    (runSteps (step o constants symbols path) e items).1.numbers =
      e.numbers ++ openedNumbers
        ((passed (step o constants symbols path) e items).map fun p => (p.1, p.2.numbering)) := by
  induction items generalizing e with
  | nil => simp [runSteps, passed, openedNumbers]
  | cons i items ih =>
    obtain ⟨hopen, horderly⟩ := horderly
    rw [runSteps, passed]
    cases hstep : step o constants symbols path e i with
    | error fault => simp [openedNumbers]
    | ok e₁ =>
      obtain ⟨hcurrent, hnumbers⟩ := step_numbers hopen hstep
      rw [← hcurrent] at horderly
      rw [ih horderly, hnumbers, List.append_assoc, openedNumbers, openedNumbers, ← List.map_append,
        ← List.filter_append]
      rfl

end Emission

end SpectrumTape.Basic
