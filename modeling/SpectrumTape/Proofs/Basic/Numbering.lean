import SpectrumTape.Basic.Numbering
import SpectrumTape.Proofs.Outcome
import SpectrumTape.Proofs.Basic.LogicalLine

/-!
# The numbers of program lines

A label takes the number that the next line would get anyway, so holding it back changes nothing
(`Numbering.Regular`): the number of a line is its own one, or a step above the line before it, or
the first number of all (`Opening.numberBehind`). A line that begins has a number of the allowed
range above that of the line before it (`Numbering.step_opening`).

Also here is how runs are put together, since both passes are runs that keep a numbering.
-/

namespace SpectrumTape.Basic

/-! ### Runs -/

section runs

variable {σ α ε : Type} {step : σ → α → Except ε σ}

theorem runSteps_cons_eq_none_iff {s s' : σ} {a : α} {rest : List α} :
    runSteps step s (a :: rest) = (s', none) ↔
      ∃ s₁, step s a = .ok s₁ ∧ runSteps step s₁ rest = (s', none) := by
  rw [runSteps]
  cases step s a with
  | ok s₁ => simp
  | error e => simp

theorem runSteps_append_eq_none_iff {s s' : σ} {first rest : List α} :
    runSteps step s (first ++ rest) = (s', none) ↔
      ∃ s₁, runSteps step s first = (s₁, none) ∧ runSteps step s₁ rest = (s', none) := by
  induction first generalizing s with
  | nil => simp [runSteps]
  | cons a first ih =>
    simp only [List.cons_append, runSteps_cons_eq_none_iff, ih]
    constructor
    · rintro ⟨s₁, hstep, s₂, hfirst, hrest⟩
      exact ⟨s₂, ⟨s₁, hstep, hfirst⟩, hrest⟩
    · rintro ⟨s₂, ⟨s₁, hstep, hfirst⟩, hrest⟩
      exact ⟨s₁, hstep, s₂, hfirst, hrest⟩

theorem runSteps_keeps {P : σ → Prop} (hkeep : ∀ s a s', P s → step s a = .ok s' → P s') {s s' : σ}
    {items : List α} (hs : P s) (hrun : runSteps step s items = (s', none)) : P s' := by
  induction items generalizing s with
  | nil =>
    cases hrun
    exact hs
  | cons a items ih =>
    obtain ⟨s₁, hstep, hrun⟩ := runSteps_cons_eq_none_iff.mp hrun
    exact ih (hkeep s a s₁ hs hstep) hrun

theorem runSteps_fst_keeps {P : σ → Prop} (hkeep : ∀ s a s', P s → step s a = .ok s' → P s') {s : σ}
    (items : List α) (hs : P s) : P (runSteps step s items).1 := by
  induction items generalizing s with
  | nil => exact hs
  | cons a items ih =>
    rw [runSteps]
    cases hstep : step s a with
    | ok s₁ => exact ih (hkeep s a s₁ hs hstep)
    | error e => exact hs

theorem runSteps_collects {P : List α → σ → Prop}
    (hkeep : ∀ done s a s', P done s → step s a = .ok s' → P (done ++ [a]) s') (done : List α)
    {s s' : σ} {items : List α} (hs : P done s) (hrun : runSteps step s items = (s', none)) :
    P (done ++ items) s' := by
  induction items generalizing done s with
  | nil =>
    cases hrun
    rwa [List.append_nil]
  | cons a items ih =>
    obtain ⟨s₁, hstep, hrun⟩ := runSteps_cons_eq_none_iff.mp hrun
    have hrest := ih (done ++ [a]) (hkeep done s a s₁ hs hstep) hrun
    rwa [List.append_assoc, List.singleton_append] at hrest

end runs

/-! ### Numbers -/

/-- The number of a line with a given opening behind the line with the number `previous`, if there
is one. -/
def Opening.numberBehind (o : Options) (previous : Option Nat) : Opening → Nat
  | .number n => n
  | .statement =>
    match previous with
    | none => o.start
    | some p => p + o.step

namespace Numbering

/-- The number of the last line, if there is one. -/
def previous (n : Numbering) : Option Nat := if n.last = 0 then none else some n.last

/-- A number is held back only if the next line would get it anyway. -/
def Regular (o : Options) (n : Numbering) : Prop :=
  ∀ number, n.pending = some number → number = Opening.statement.numberBehind o n.previous

theorem regular_start (o : Options) (last : Nat) : Regular o { last } := by
  intro number h
  cases h

theorem next_eq {o : Options} {n : Numbering} (hn : n.Regular o) :
    n.next o = Opening.statement.numberBehind o n.previous := by
  unfold next
  cases hpending : n.pending with
  | some number => exact hn number hpending
  | none =>
    unfold previous
    split_ifs <;> rfl

theorem openLine_eq_ok_iff {n n' : Numbering} {number : Nat} :
    n.openLine number = .ok n' ↔
      (1 ≤ number ∧ number ≤ 9999 ∧ n.last < number) ∧ n' = { last := number } := by
  unfold openLine minLineNumber maxLineNumber
  simp only [Bool.or_eq_true, decide_eq_true_eq]
  split_ifs with hrange hequal hless
  · simp; omega
  · simp; omega
  · simp; omega
  · simp only [Except.ok.injEq, eq_comm (a := n'), iff_and_self]
    omega

theorem step_opening {o : Options} {n n' : Numbering} {t : Token} {op : Opening}
    (hn : n.Regular o) (hop : t.opening? = some op) (hstep : n.step o t = .ok n') :
    let number := op.numberBehind o n.previous
    (1 ≤ number ∧ number ≤ 9999 ∧ n.last < number) ∧ n' = { last := number } := by
  cases t with
  | lineNumber number =>
    cases hop
    unfold step at hstep
    dsimp only at hstep
    split at hstep
    · simp at hstep
    · exact openLine_eq_ok_iff.mp hstep
  | statement =>
    cases hop
    -- Whether or not a label holds the number back, it is the same one.
    unfold step at hstep
    dsimp only at hstep
    rw [next_eq hn] at hstep
    exact openLine_eq_ok_iff.mp hstep
  | _ => simp [Token.opening?] at hop

theorem step_body {o : Options} {n n' : Numbering} {t : Token} (ht : t.isBody)
    (hstep : n.step o t = .ok n') : n' = n := by
  cases t with
  | lineNumber _ => simp [Token.isBody] at ht
  | statement => simp [Token.isBody] at ht
  | label _ => simp [Token.isBody] at ht
  | _ =>
    cases hstep
    rfl

theorem step_front {o : Options} {n n' : Numbering} {t : Token} (hn : n.Regular o) (ht : t.isFront)
    (hstep : n.step o t = .ok n') : n'.last = n.last ∧ n'.Regular o := by
  cases t with
  | label name =>
    cases hstep
    refine ⟨rfl, fun number h => ?_⟩
    cases h
    exact next_eq hn
  | ignored =>
    cases hstep
    exact ⟨rfl, hn⟩
  | _ => simp [Token.isFront] at ht

theorem step_regular {o : Options} {n n' : Numbering} {t : Token} (hn : n.Regular o)
    (hlast : n.last ≤ 9999) (hstep : n.step o t = .ok n') : n'.Regular o ∧ n'.last ≤ 9999 := by
  cases hop : t.opening? with
  | some op =>
    obtain ⟨⟨-, hle, -⟩, rfl⟩ := step_opening hn hop hstep
    exact ⟨regular_start o _, hle⟩
  | none =>
    cases t with
    | lineNumber _ => simp [Token.opening?] at hop
    | statement => simp [Token.opening?] at hop
    | label name =>
      obtain ⟨hsame, hregular⟩ := step_front hn rfl hstep
      exact ⟨hregular, hsame ▸ hlast⟩
    | _ =>
      cases hstep
      exact ⟨hn, hlast⟩

theorem next_le {o : Options} {n : Numbering} (hn : n.Regular o) (hlast : n.last ≤ 9999) :
    n.next o ≤ 19998 := by
  have hstart : o.start ≤ 9999 := o.start_le
  have hstep : o.step ≤ 9999 := o.step_le
  rw [next_eq hn]
  unfold Opening.numberBehind previous
  split_ifs
  · exact Nat.le_trans hstart (by decide)
  · exact Nat.add_le_add hlast hstep

end Numbering

end SpectrumTape.Basic
