import SpectrumTape.Proofs.Cursor.Place
import Mathlib.Data.FinEnum

/-!
# Lines and places of a text

How the breaks of a text are written is of no account for its lines (`lines_withBreaks`).

A place in a text is known from what stands before it: `placeBehind` counts its line and its column.
What is written there stands on the line with that number, behind as many bytes as the column says
(`lines_insert`), and what stands on a line is written behind what leads there (`exists_of_lines`).
-/

namespace SpectrumTape

/-! ### Kinds of bytes and runs of them -/

namespace Ascii

theorem isWord_of_isDigit {c : UInt8} (hc : isDigit c = true) : isWord c = true := by
  simp [isWord, isAlnum, hc]

theorem isWord_of_isAlpha {c : UInt8} (hc : isAlpha c = true) : isWord c = true := by
  simp [isWord, isAlnum, hc]

theorem isSpace_of_isWord {c : UInt8} (hc : isWord c = true) : isSpace c = false := by
  have hall : ∀ c, isWord c = true → isSpace c = false := by decide +kernel
  exact hall c hc

theorem isBreak_of_isWord {c : UInt8} (hc : isWord c = true) : Bytes.isBreak c = false := by
  have hall : ∀ c, isWord c = true → Bytes.isBreak c = false := by decide +kernel
  exact hall c hc

end Ascii

namespace Bytes

theorem takeWhile_append_of_head {p : UInt8 → Bool} {x : Bytes} (hx : ∀ c ∈ x.head?, p c = false)
    (u : Bytes) : (u ++ x).takeWhile p = u.takeWhile p := by
  induction u with
  | nil =>
    cases x with
    | nil => rfl
    | cons c x => simp [hx c rfl]
  | cons c u ih => simp only [List.cons_append, List.takeWhile_cons, ih]

/-! ### Breaks -/

def breaks : List Bytes := [[Ascii.cr, Ascii.lf], [Ascii.cr], [Ascii.lf]]

/-- A break ends here: a carriage return alone is not followed by a line feed. -/
def EndsBreak (brk rest : Bytes) : Prop := brk = [Ascii.cr] → rest.head? ≠ some Ascii.lf

theorem isBreak_eq_false_iff {c : UInt8} : isBreak c = false ↔ c ≠ Ascii.lf ∧ c ≠ Ascii.cr := by
  simp [isBreak]

theorem linesFrom_plain {row : Bytes} (hrow : ∀ c ∈ row, isBreak c = false) (done rest : Bytes) :
    linesFrom done (row ++ rest) = linesFrom (row.reverse ++ done) rest := by
  induction row generalizing done with
  | nil => rfl
  | cons c row ih =>
    obtain ⟨hc, hrow⟩ := List.forall_mem_cons.mp hrow
    obtain ⟨hlf, hcr⟩ := isBreak_eq_false_iff.mp hc
    have hstep : linesFrom done (c :: (row ++ rest)) = linesFrom (c :: done) (row ++ rest) := by
      rw [linesFrom.eq_def]
      simp [hlf, hcr]
    rw [List.cons_append, hstep, ih hrow]
    simp

theorem linesFrom_break {brk rest : Bytes} (hbrk : brk ∈ breaks) (hends : EndsBreak brk rest)
    (done : Bytes) :
    linesFrom done (brk ++ rest) = done.reverse :: if rest = [] then [] else lines rest := by
  simp only [breaks, List.mem_cons, List.not_mem_nil, or_false] at hbrk
  rcases hbrk with rfl | rfl | rfl
  · rw [linesFrom.eq_def]
    cases rest with
    | nil => rfl
    | cons d rest => rfl
  · rw [linesFrom.eq_def]
    cases rest with
    | nil => rfl
    | cons d rest =>
      have hd : (d == Ascii.lf) = false := by simpa using hends rfl
      simp [hd, lines]
  · rw [linesFrom.eq_def]
    cases rest with
    | nil => rfl
    | cons d rest => rfl

theorem lines_break {row brk rest : Bytes} (hrow : ∀ c ∈ row, isBreak c = false)
    (hbrk : brk ∈ breaks) (hends : EndsBreak brk rest) :
    lines (row ++ (brk ++ rest)) = row :: if rest = [] then [] else lines rest := by
  rw [lines, linesFrom_plain hrow, linesFrom_break hbrk hends]
  simp

theorem lines_plain {row : Bytes} (hrow : ∀ c ∈ row, isBreak c = false) : lines row = [row] := by
  have h := linesFrom_plain hrow [] []
  rw [List.append_nil] at h
  rw [lines, h]
  simp [linesFrom]

/-! ### Other breaks -/

/-- The text with each line feed replaced. -/
def withBreaks (text brk : Bytes) : Bytes := text.flatMap fun c => if c == Ascii.lf then brk else [c]

theorem withBreaks_lf (brk rest : Bytes) :
    withBreaks (Ascii.lf :: rest) brk = brk ++ withBreaks rest brk := by
  simp [withBreaks]

theorem withBreaks_cons {c : UInt8} (hc : c ≠ Ascii.lf) (brk rest : Bytes) :
    withBreaks (c :: rest) brk = c :: withBreaks rest brk := by
  simp [withBreaks, hc]

theorem withBreaks_eq_nil_iff {brk : Bytes} (hbrk : brk ≠ []) (text : Bytes) :
    withBreaks text brk = [] ↔ text = [] := by
  cases text with
  | nil => simp [withBreaks]
  | cons c rest =>
    by_cases hc : c = Ascii.lf
    · subst hc
      simp [withBreaks_lf, hbrk]
    · simp [withBreaks_cons hc]

theorem endsBreak_withBreaks (brk rest : Bytes) : EndsBreak brk (withBreaks rest brk) := by
  rintro rfl
  cases rest with
  | nil => simp [withBreaks]
  | cons c rest =>
    by_cases hc : c = Ascii.lf
    · subst hc
      rw [withBreaks_lf]
      simp [Ascii.cr, Ascii.lf]
    · rw [withBreaks_cons hc]
      simpa using hc

theorem linesFrom_withBreaks {brk : Bytes} (hbrk : brk ∈ breaks) {text : Bytes}
    (htext : Ascii.cr ∉ text) (done : Bytes) :
    linesFrom done (withBreaks text brk) = linesFrom done text := by
  have hne : brk ≠ [] := by
    rintro rfl
    simp [breaks] at hbrk
  induction text generalizing done with
  | nil => rfl
  | cons c rest ih =>
    rw [List.mem_cons, not_or] at htext
    obtain ⟨hcr, hrest⟩ := htext
    by_cases hlf : c = Ascii.lf
    · subst hlf
      have hself : linesFrom done ([Ascii.lf] ++ rest) =
          done.reverse :: if rest = [] then [] else lines rest :=
        linesFrom_break (by simp [breaks]) (by simp [EndsBreak, Ascii.lf, Ascii.cr]) done
      rw [withBreaks_lf, linesFrom_break hbrk (endsBreak_withBreaks brk rest), lines, ih hrest]
      simp only [withBreaks_eq_nil_iff hne]
      exact hself.symm
    · have hplain : ∀ b ∈ [c], isBreak b = false := by
        simpa using isBreak_eq_false_iff.mpr ⟨hlf, Ne.symm hcr⟩
      have hleft := linesFrom_plain hplain done (withBreaks rest brk)
      have hright := linesFrom_plain hplain done rest
      rw [withBreaks_cons hlf]
      exact hleft.trans ((ih hrest _).trans hright.symm)

/-- **The breaks of a text are all alike.** -/
theorem lines_withBreaks {brk : Bytes} (hbrk : brk ∈ breaks) {text : Bytes}
    (htext : Ascii.cr ∉ text) : lines (withBreaks text brk) = lines text :=
  linesFrom_withBreaks hbrk htext []

/-! ### Places -/

/-- The line and the column behind a text that starts at the given ones. -/
def placeFrom (line column : Nat) : Bytes → Nat × Nat
  | [] => (line, column)
  | c :: rest =>
    if c == Ascii.cr then
      match rest with
      | [] => (line + 1, 1)
      | d :: rest' =>
        if d == Ascii.lf then placeFrom (line + 1) 1 rest' else placeFrom (line + 1) 1 (d :: rest')
    else if c == Ascii.lf then placeFrom (line + 1) 1 rest
    else placeFrom line (column + 1) rest

/-- The line and the column behind a text, both counted from one. -/
def placeBehind (text : Bytes) : Nat × Nat := placeFrom 1 1 text

theorem placeFrom_plain {row : Bytes} (hrow : ∀ c ∈ row, isBreak c = false) (line column : Nat)
    (rest : Bytes) :
    placeFrom line column (row ++ rest) = placeFrom line (column + row.length) rest := by
  induction row generalizing column with
  | nil => rfl
  | cons c row ih =>
    obtain ⟨hc, hrow⟩ := List.forall_mem_cons.mp hrow
    obtain ⟨hlf, hcr⟩ := isBreak_eq_false_iff.mp hc
    have hstep : placeFrom line column (c :: (row ++ rest)) =
        placeFrom line (column + 1) (row ++ rest) := by
      rw [placeFrom.eq_def]
      simp [hlf, hcr]
    rw [List.cons_append, hstep, ih hrow, List.length_cons, Nat.add_assoc, Nat.add_comm 1]

theorem placeFrom_row {row : Bytes} (hrow : ∀ c ∈ row, isBreak c = false) (line column : Nat) :
    placeFrom line column row = (line, column + row.length) := by
  have h := placeFrom_plain hrow line column []
  rwa [List.append_nil] at h

theorem placeFrom_break {brk rest : Bytes} (hbrk : brk ∈ breaks) (hends : EndsBreak brk rest)
    (line column : Nat) : placeFrom line column (brk ++ rest) = placeFrom (line + 1) 1 rest := by
  simp only [breaks, List.mem_cons, List.not_mem_nil, or_false] at hbrk
  rcases hbrk with rfl | rfl | rfl
  · rw [placeFrom.eq_def]
    rfl
  · rw [placeFrom.eq_def]
    cases rest with
    | nil => rfl
    | cons d rest =>
      have hd : (d == Ascii.lf) = false := by simpa using hends rfl
      simp [hd]
  · rw [placeFrom.eq_def]
    rfl

theorem EndsBreak.of_prefix {brk before rest : Bytes} (h : EndsBreak brk rest)
    (hbefore : before <+: rest) : EndsBreak brk before := by
  intro hcr hlf
  obtain ⟨more, rfl⟩ := hbefore
  refine h hcr ?_
  rw [List.head?_append, hlf]
  rfl

theorem exists_break (text : Bytes) :
    (∀ c ∈ text, isBreak c = false) ∨
      ∃ row brk rest, text = row ++ (brk ++ rest) ∧ (∀ c ∈ row, isBreak c = false) ∧ brk ∈ breaks ∧
        EndsBreak brk rest := by
  induction text with
  | nil => exact Or.inl (by simp)
  | cons c text ih =>
    by_cases hlf : c = Ascii.lf
    · subst hlf
      exact Or.inr ⟨[], [Ascii.lf], text, rfl, by simp, by simp [breaks],
        by simp [EndsBreak, Ascii.lf, Ascii.cr]⟩
    by_cases hcr : c = Ascii.cr
    · subst hcr
      by_cases hends : EndsBreak [Ascii.cr] text
      · exact Or.inr ⟨[], [Ascii.cr], text, rfl, by simp, by simp [breaks], hends⟩
      · have hhead : text.head? = some Ascii.lf := by simpa [EndsBreak] using hends
        obtain ⟨rest, rfl⟩ := List.head?_eq_some_iff.mp hhead
        exact Or.inr ⟨[], [Ascii.cr, Ascii.lf], rest, rfl, by simp, by simp [breaks],
          by simp [EndsBreak]⟩
    have hc : isBreak c = false := isBreak_eq_false_iff.mpr ⟨hlf, hcr⟩
    rcases ih with hplain | ⟨row, brk, rest, rfl, hrow, hbrk, hends⟩
    · exact Or.inl (List.forall_mem_cons.mpr ⟨hc, hplain⟩)
    · exact Or.inr ⟨c :: row, brk, rest, rfl, List.forall_mem_cons.mpr ⟨hc, hrow⟩, hbrk, hends⟩

theorem length_break_pos {brk : Bytes} (hbrk : brk ∈ breaks) : 0 < brk.length := by
  have hall : ∀ b ∈ breaks, 0 < b.length := by decide
  exact hall brk hbrk

@[elab_as_elim]
theorem lineInduction {motive : Bytes → Prop} (text : Bytes)
    (plain : ∀ row : Bytes, (∀ c ∈ row, isBreak c = false) → motive row)
    (cons : ∀ row brk rest : Bytes, (∀ c ∈ row, isBreak c = false) → brk ∈ breaks →
      EndsBreak brk rest → motive rest → motive (row ++ (brk ++ rest))) : motive text := by
  induction hlength : text.length using Nat.strong_induction_on generalizing text with
  | _ n ih =>
    rcases exists_break text with hplain | ⟨row, brk, rest, rfl, hrow, hbrk, hends⟩
    · exact plain text hplain
    · have hpos := length_break_pos hbrk
      simp only [List.length_append] at hlength
      exact cons row brk rest hrow hbrk hends (ih rest.length (by omega) rest rfl)

theorem mem_of_mem_lines {text row : Bytes} (h : row ∈ lines text) :
    ∀ c ∈ row, c ∈ text ∧ isBreak c = false := by
  induction text using lineInduction with
  | plain text hplain =>
    rw [lines_plain hplain, List.mem_singleton] at h
    subst h
    exact fun c hc => ⟨hc, hplain c hc⟩
  | cons first brk rest hfirst hbrk hends ih =>
    rw [lines_break hfirst hbrk hends] at h
    rcases List.mem_cons.mp h with rfl | h
    · exact fun c hc => ⟨List.mem_append_left _ hc, hfirst c hc⟩
    · split_ifs at h
      · cases h
      · intro c hc
        obtain ⟨hmem, hc⟩ := ih h c hc
        exact ⟨List.mem_append_right _ (List.mem_append_right _ hmem), hc⟩

/-- A text without breaks is put into the line that the text before it leads to. The lines earlier
than that one and the parts of it on both sides are the same for all of them. -/
theorem lines_insert (line : Nat) (before after : Bytes) :
    ∃ earlier row rest behind, placeFrom line 1 before = (line + earlier.length, 1 + row.length) ∧
      ∀ text : Bytes, text ≠ [] → (∀ c ∈ text, isBreak c = false) →
        lines (before ++ (text ++ after)) = earlier ++ (row ++ (text ++ rest)) :: behind := by
  induction before using lineInduction generalizing line with
  | plain before hplain =>
    refine ⟨[], before, after.takeWhile (!isBreak ·), linesBehind (after.dropWhile (!isBreak ·)),
      placeFrom_row hplain line 1, fun text _ htext => ?_⟩
    have hall : ∀ c ∈ before ++ text, (!isBreak c) = true := by
      simpa using List.forall_mem_append.mpr ⟨hplain, htext⟩
    rw [← List.append_assoc, lines_eq, List.takeWhile_append_of_pos hall,
      List.dropWhile_append_of_pos hall, List.append_assoc]
    rfl
  | cons row₀ brk more hrow₀ hbrk hends ih =>
    obtain ⟨earlier, row, rest, behind, hplace, hlines⟩ := ih (line + 1)
    refine ⟨row₀ :: earlier, row, rest, behind, ?_, fun text hne htext => ?_⟩
    · rw [placeFrom_plain hrow₀, placeFrom_break hbrk hends, hplace, List.length_cons, Nat.add_assoc,
        Nat.add_comm 1]
    · -- The break also ends there if it is the text that comes next.
      have hends' : EndsBreak brk (more ++ (text ++ after)) := by
        cases more with
        | cons c more => exact hends
        | nil =>
          obtain ⟨c, text, rfl⟩ := List.exists_cons_of_ne_nil hne
          have hc := (isBreak_eq_false_iff.mp (htext c List.mem_cons_self)).1
          intro _
          simpa using hc
      rw [List.append_assoc, List.append_assoc, lines_break hrow₀ hbrk hends', if_neg (by simp [hne]),
        hlines text hne htext]
      rfl

theorem exists_of_lines (line : Nat) {text row x : Bytes} {earlier behind : List Bytes}
    (h : lines text = earlier ++ (row ++ x) :: behind) :
    ∃ before after, text = before ++ (x ++ after) ∧
      placeFrom line 1 before = (line + earlier.length, 1 + row.length) := by
  induction earlier generalizing text line with
  | nil =>
    obtain ⟨after, rfl, hplain⟩ :
        ∃ after, text = row ++ (x ++ after) ∧ ∀ c ∈ row, isBreak c = false := by
      rcases exists_break text with hplain | ⟨row₀, brk, rest, rfl, hrow₀, hbrk, hends⟩
      · rw [lines_plain hplain] at h
        obtain rfl : text = row ++ x := (List.cons.inj h).1
        exact ⟨[], by simp, (List.forall_mem_append.mp hplain).1⟩
      · rw [lines_break hrow₀ hbrk hends] at h
        obtain rfl : row₀ = row ++ x := (List.cons.inj h).1
        exact ⟨brk ++ rest, by simp, (List.forall_mem_append.mp hrow₀).1⟩
    exact ⟨row, after, rfl, placeFrom_row hplain line 1⟩
  | cons first earlier ih =>
    rcases exists_break text with hplain | ⟨row₀, brk, rest, rfl, hrow₀, hbrk, hends⟩
    · rw [lines_plain hplain] at h
      simp at h
    · rw [lines_break hrow₀ hbrk hends] at h
      have hlater := (List.cons.inj h).2
      split_ifs at hlater with hrest
      · simp at hlater
      · obtain ⟨before, after, rfl, hplace⟩ := ih (line + 1) hlater
        have hends' := hends.of_prefix (List.prefix_append before _)
        refine ⟨row₀ ++ (brk ++ before), after, by simp, ?_⟩
        rw [placeFrom_plain hrow₀, placeFrom_break hbrk hends', hplace, List.length_cons, Nat.add_assoc,
          Nat.add_comm 1]

end Bytes

end SpectrumTape
