import SpectrumTape.Proofs.Text.Lines

/-!
# Positions of a text

A line and a column are a position of a text if a part of the text leads there (`IsPosition`). The line
counts the breaks of that part (`placeFrom_fst`), and the column counts what is behind the last one of
them, which is nothing where a line opens (`placeBehind_opened`).
-/

namespace SpectrumTape.Bytes

/-- How many breaks a text has. A break is counted at its last byte: that is a line feed, or a carriage
return with no line feed behind it. -/
def breakCount : Bytes → Nat
  | [] => 0
  | c :: rest =>
    (if c == Ascii.lf || (c == Ascii.cr && rest.head? != some Ascii.lf) then 1 else 0) +
      breakCount rest

/-- Whether a line and a column are those of a position of a text. -/
def IsPosition (text : Bytes) (line column : Int) : Prop :=
  ∃ before after, text = before ++ after ∧ line = (placeBehind before).1 ∧
    column = (placeBehind before).2

/-- A line opens at a position: the text begins there, or a break ends there. -/
def OpensLine (text : Bytes) (pos : Nat) : Prop :=
  pos = 0 ∨ ∃ front brk rest, text = front ++ (brk ++ rest) ∧ brk ∈ breaks ∧ EndsBreak brk rest ∧
    pos = front.length + brk.length

/-! ### Counting breaks -/

theorem breakCount_plain {row : Bytes} (hrow : ∀ c ∈ row, isBreak c = false) (rest : Bytes) :
    breakCount (row ++ rest) = breakCount rest := by
  induction row with
  | nil => rfl
  | cons c row ih =>
    obtain ⟨hc, hrow⟩ := List.forall_mem_cons.mp hrow
    obtain ⟨hlf, hcr⟩ := isBreak_eq_false_iff.mp hc
    rw [List.cons_append, breakCount, ih hrow]
    simp [hlf, hcr]

theorem breakCount_row {row : Bytes} (hrow : ∀ c ∈ row, isBreak c = false) : breakCount row = 0 := by
  have h := breakCount_plain hrow []
  rwa [List.append_nil] at h

theorem breakCount_break {brk rest : Bytes} (hbrk : brk ∈ breaks) (hends : EndsBreak brk rest) :
    breakCount (brk ++ rest) = 1 + breakCount rest := by
  simp only [breaks, List.mem_cons, List.not_mem_nil, or_false] at hbrk
  rcases hbrk with rfl | rfl | rfl
  · simp [breakCount, Ascii.cr, Ascii.lf]
  · simp [breakCount, hends rfl]
  · simp [breakCount]

theorem breakCount_append {a b : Bytes}
    (h : a.getLast? = some Ascii.cr → b.head? ≠ some Ascii.lf) :
    breakCount (a ++ b) = breakCount a + breakCount b := by
  induction a with
  | nil => simp [breakCount]
  | cons c a ih =>
    cases a with
    | nil =>
      have hc : c = Ascii.cr → b.head? ≠ some Ascii.lf := fun hc => h (by simp [hc])
      by_cases hcr : c = Ascii.cr
      · simp [breakCount, hcr, hc hcr]
      · simp [breakCount, hcr]
    | cons d a =>
      have hrest := ih (by simpa using h)
      -- Whether the first byte is counted depends on the second one, which is part of `a`.
      show _ + breakCount (d :: a ++ b) = _ + breakCount (d :: a) + breakCount b
      rw [hrest, Nat.add_assoc]
      rfl

/-! ### Lines and columns -/

theorem placeFrom_fst (line column : Nat) (text : Bytes) :
    (placeFrom line column text).1 = line + breakCount text := by
  induction text using lineInduction generalizing line column with
  | plain row hrow => rw [placeFrom_row hrow, breakCount_row hrow, Nat.add_zero]
  | cons row brk rest hrow hbrk hends ih =>
    rw [placeFrom_plain hrow, placeFrom_break hbrk hends, ih, breakCount_plain hrow,
      breakCount_break hbrk hends, Nat.add_assoc]

theorem placeFrom_snd (line column : Nat) {text : Bytes} (hne : text ≠ [])
    (hlast : ∀ c ∈ text.getLast?, isBreak c = true) : (placeFrom line column text).2 = 1 := by
  induction text using lineInduction generalizing line column with
  | plain row hrow =>
    have hbreak := hlast _ (List.getLast?_eq_some_getLast hne)
    rw [hrow _ (List.getLast_mem hne)] at hbreak
    cases hbreak
  | cons row brk rest hrow hbrk hends ih =>
    rw [placeFrom_plain hrow, placeFrom_break hbrk hends]
    by_cases hrest : rest = []
    · subst hrest
      rfl
    · refine ih _ _ hrest ?_
      rwa [List.getLast?_append, List.getLast?_append, List.getLast?_eq_some_getLast hrest,
        Option.some_or, Option.some_or, ← List.getLast?_eq_some_getLast hrest] at hlast

/-- A text is read on from the place behind its first part, unless a break lies across both parts. -/
theorem placeFrom_append (line column : Nat) {a b : Bytes}
    (h : a.getLast? = some Ascii.cr → b.head? ≠ some Ascii.lf) :
    placeFrom line column (a ++ b) =
      placeFrom (placeFrom line column a).1 (placeFrom line column a).2 b := by
  induction a using lineInduction generalizing line column with
  | plain row hrow => rw [placeFrom_plain hrow, placeFrom_row hrow]
  | cons row brk rest hrow hbrk hends ih =>
    have hends' : EndsBreak brk (rest ++ b) := by
      cases rest with
      | cons c rest => exact hends
      | nil =>
        rintro rfl
        exact h (by simp)
    have hrest : rest.getLast? = some Ascii.cr → b.head? ≠ some Ascii.lf := by
      intro hcr
      exact h (by rw [List.getLast?_append, List.getLast?_append, hcr]; rfl)
    rw [List.append_assoc, List.append_assoc, placeFrom_plain hrow, placeFrom_break hbrk hends',
      placeFrom_plain hrow, placeFrom_break hbrk hends, ih _ _ hrest]

/-! ### Where lines open -/

variable {text : Bytes} {pos : Nat}

theorem OpensLine.apart (h : OpensLine text pos) :
    (text.take pos).getLast? = some Ascii.cr → (text.drop pos).head? ≠ some Ascii.lf := by
  rcases h with rfl | ⟨front, brk, rest, rfl, hbrk, hends, rfl⟩
  · simp
  · rw [← List.append_assoc, ← List.length_append, List.take_left, List.drop_left, List.getLast?_append]
    simp only [breaks, List.mem_cons, List.not_mem_nil, or_false] at hbrk
    rcases hbrk with rfl | rfl | rfl
    · simp [Ascii.cr, Ascii.lf]
    · exact fun _ => hends rfl
    · simp [Ascii.cr, Ascii.lf]

theorem placeBehind_opened (h : OpensLine text pos) :
    placeBehind (text.take pos) = (breakCount (text.take pos) + 1, 1) := by
  have hfst := placeFrom_fst 1 1 (text.take pos)
  rw [Nat.add_comm] at hfst
  refine Prod.ext hfst ?_
  rcases h with rfl | ⟨front, brk, rest, rfl, hbrk, -, rfl⟩
  · rfl
  · have hbreak : ∀ b ∈ breaks, b ≠ [] ∧ ∀ c ∈ b.getLast?, isBreak c = true := by
      simp [breaks, isBreak]
    obtain ⟨hne, hlast⟩ := hbreak brk hbrk
    rw [← List.append_assoc, ← List.length_append, List.take_left]
    refine placeFrom_snd 1 1 (by simp [hne]) ?_
    rwa [List.getLast?_append, List.getLast?_eq_some_getLast hne, Option.some_or,
      ← List.getLast?_eq_some_getLast hne]

theorem placeBehind_line (h : OpensLine text pos) {row rest : Bytes}
    (hrow : ∀ c ∈ row, isBreak c = false) (htext : text.drop pos = row ++ rest) :
    placeBehind (text.take pos ++ row) = (breakCount (text.take pos) + 1, row.length + 1) := by
  have hapart : (text.take pos).getLast? = some Ascii.cr → row.head? ≠ some Ascii.lf := by
    intro hcr hlf
    refine h.apart hcr ?_
    rw [htext, List.head?_append, hlf]
    rfl
  have hopened := placeBehind_opened h
  rw [placeBehind] at hopened ⊢
  rw [placeFrom_append 1 1 hapart, hopened, placeFrom_row hrow, Nat.add_comm 1]

theorem exists_opensLine_last (text : Bytes) :
    ∃ pos, OpensLine text pos ∧ breakCount (text.take pos) = breakCount text := by
  induction text using lineInduction with
  | plain row hrow => exact ⟨0, .inl rfl, (breakCount_row hrow).symm⟩
  | cons row brk rest hrow hbrk hends ih =>
    obtain ⟨pos, hopens, hcount⟩ := ih
    have htake : (row ++ (brk ++ rest)).take (row.length + brk.length + pos) =
        row ++ (brk ++ rest.take pos) := by
      rw [← List.append_assoc, ← List.length_append, List.take_length_add_append, List.append_assoc]
    refine ⟨row.length + brk.length + pos, .inr ?_, ?_⟩
    · rcases hopens with rfl | ⟨front, brk', more, rfl, hbrk', hends', rfl⟩
      · exact ⟨row, brk, rest, rfl, hbrk, hends, rfl⟩
      · refine ⟨row ++ (brk ++ front), brk', more, by simp, hbrk', hends', ?_⟩
        simp only [List.length_append]
        omega
    · have hends' : EndsBreak brk (rest.take pos) := hends.of_prefix (List.take_prefix _ _)
      rw [htake, breakCount_plain hrow, breakCount_break hbrk hends', hcount, breakCount_plain hrow,
        breakCount_break hbrk hends]

theorem isPosition_lastLine (text : Bytes) : IsPosition text (breakCount text + 1) 1 := by
  obtain ⟨pos, hopens, hcount⟩ := exists_opensLine_last text
  refine ⟨text.take pos, text.drop pos, (List.take_append_drop _ _).symm, ?_, ?_⟩
  · rw [placeBehind_opened hopens, hcount]
    rfl
  · rw [placeBehind_opened hopens]
    rfl

theorem isPosition_of_lines {row x : Bytes} {earlier behind : List Bytes}
    (h : lines text = earlier ++ (row ++ x) :: behind) :
    IsPosition text (1 + earlier.length : Nat) (1 + row.length : Nat) := by
  obtain ⟨before, after, htext, hplace⟩ := exists_of_lines 1 h
  exact ⟨before, x ++ after, htext, by rw [placeBehind, hplace], by rw [placeBehind, hplace]⟩

end SpectrumTape.Bytes
