import SpectrumTape.Proofs.Basic.StepTokens
import SpectrumTape.Proofs.Text.Lines
import Mathlib.Data.List.TakeWhile

/-!
# References

A reference is read in a statement, from an `@` and the name behind it
(`Lexer.reference_mem_step_iff`), and its item is placed where the name ends
(`Lexer.row_of_reference`). So there is one place in the source that it was read from
(`exists_occurs`).
-/

namespace SpectrumTape.Basic

namespace Lexer

/-! ### The step that reads a reference -/

section references

variable {v : Vocabulary} {mode : Mode} {here name : Bytes} {offset : Nat}

theorem step_at (v : Vocabulary) (rest : Bytes) :
    step v (.statement false) (0x40 :: rest) =
      if (rest.takeWhile Ascii.isWord).isEmpty then .fail 1 .invalidReference
      else .read (1 + (rest.takeWhile Ascii.isWord).length)
        [.reference (rest.takeWhile Ascii.isWord)] (.statement false) := rfl

theorem step_reference (h : (offset, .reference name) ∈ (step v mode here).tokens) :
    ∃ rest, mode = .statement false ∧ here = 0x40 :: rest ∧ name = rest.takeWhile Ascii.isWord ∧
      name ≠ [] ∧ step v mode here = .read (1 + name.length) [.reference name] (.statement false) := by
  cases stems_step h with
  | @reference here rest name hhere hname =>
    subst hhere
    rw [step_at, ← hname] at h ⊢
    split_ifs at h ⊢ with hempty
    · cases mem_fail h
    · exact ⟨rest, rfl, rfl, hname, by simpa using hempty, rfl⟩

/-- **A reference is an `@` in a statement with a name behind it.** The name goes on as far as there
are bytes of words. -/
theorem reference_mem_step_iff :
    (offset, .reference name) ∈ (step v mode here).tokens ↔
      mode = .statement false ∧ offset = 1 + name.length ∧ name ≠ [] ∧
        (∀ c ∈ name, Ascii.isWord c = true) ∧
          ∃ after, here = 0x40 :: (name ++ after) ∧ ∀ c ∈ after.head?, Ascii.isWord c = false := by
  constructor
  · intro h
    obtain ⟨rest, hmode, hhere, hname, hne, hstep⟩ := step_reference h
    rw [hstep] at h
    obtain ⟨hoffset, -⟩ := mem_read h
    refine ⟨hmode, hoffset, hne, fun c hc => ?_, rest.dropWhile Ascii.isWord, ?_, fun c hc => ?_⟩
    · rw [hname] at hc
      exact List.mem_takeWhile_imp hc
    · rw [hhere, hname, List.takeWhile_append_dropWhile]
    · have hhead := List.head?_dropWhile_not Ascii.isWord rest
      rw [Option.mem_def.mp hc] at hhead
      simpa using hhead
  · rintro ⟨rfl, rfl, hne, hword, after, rfl, hafter⟩
    have hname : (name ++ after).takeWhile Ascii.isWord = name := by
      rw [Bytes.takeWhile_append_of_head hafter, List.takeWhile_eq_self_iff]
      exact hword
    rw [step_at, hname, if_neg (by simpa using hne)]
    exact List.mem_singleton.mpr rfl

end references

/-! ### The line that a reference stands on -/

section lines

variable {v : Vocabulary} {mode mode' : Mode} {line column more : Nat} {here name : Bytes}
  {later : List Bytes} {i : Item}

theorem statement_of_next {first : Bool}
    (h : (step v mode here).next = .advance more (.statement first)) :
    ∃ first', mode = .statement first' := by
  cases mode with
  | statement first' => exact ⟨first', rfl⟩
  | remark afterBlank =>
    simp only [step] at h
    unfold remarkStep at h
    cases here with
    | nil => cases h
    | cons c rest =>
      dsimp only at h
      split_ifs at h
      · split at h <;> cases h
      · cases h
      · cases h
      · cases h
      · cases h

theorem line_of_mem_items {s : Step} {i : Item} (h : i ∈ Step.items s line column) :
    i.line = line ∧ ∃ offset, i.column = column + offset ∧ (offset, i.token) ∈ s.tokens := by
  obtain ⟨⟨offset, t⟩, ht, rfl⟩ := List.mem_map.mp h
  exact ⟨rfl, offset, rfl, ht⟩

/-- A reference stands on the line at hand, which is then part of a statement, or on a later one, and
ends behind its name. -/
theorem row_of_reference (h : i ∈ lexFrom v mode line column here later)
    (hi : i.token = .reference name) :
    (∀ c ∈ name, Ascii.isWord c = true) ∧
      ((∃ u after first, here = u ++ 0x40 :: (name ++ after) ∧ mode = .statement first ∧
          i.line = line ∧ i.column = column + u.length + (1 + name.length)) ∨
        ∃ earlier u after behind, later = earlier ++ (u ++ 0x40 :: (name ++ after)) :: behind ∧
          i.line = line + 1 + earlier.length ∧ i.column = 1 + u.length + (1 + name.length)) := by
  fun_induction lexFrom v mode line column here later with
  | case1 mode line column here later s hadvance hjoin hnew =>
    -- Behind a break the line at hand is the first of the later ones.
    have hbehind {next : Bytes} {rest : List Bytes} {mode' : Mode}
        (h : (∃ u after first, next = u ++ 0x40 :: (name ++ after) ∧ mode' = .statement first ∧
            i.line = line + 1 ∧ i.column = 1 + u.length + (1 + name.length)) ∨
          ∃ earlier u after behind, rest = earlier ++ (u ++ 0x40 :: (name ++ after)) :: behind ∧
            i.line = line + 1 + 1 + earlier.length ∧ i.column = 1 + u.length + (1 + name.length)) :
        ∃ earlier u after behind, next :: rest = earlier ++ (u ++ 0x40 :: (name ++ after)) :: behind ∧
          i.line = line + 1 + earlier.length ∧ i.column = 1 + u.length + (1 + name.length) := by
      rcases h with ⟨u, after, -, rfl, -, hline, hcolumn⟩ |
        ⟨earlier, u, after, behind, rfl, hline, hcolumn⟩
      · exact ⟨[], u, after, rest, rfl, hline, hcolumn⟩
      · refine ⟨next :: earlier, u, after, behind, rfl, ?_, hcolumn⟩
        rw [hline, List.length_cons]
        omega
    rcases List.mem_append.mp h with h | h
    · obtain ⟨hline, offset, hcolumn, htoken⟩ := line_of_mem_items h
      rw [hi] at htoken
      obtain ⟨hmode, rfl, -, hword, after, hhere, -⟩ := reference_mem_step_iff.mp htoken
      exact ⟨hword, Or.inl ⟨[], after, false, hhere, hmode, hline, hcolumn⟩⟩
    · cases hnext : s.next with
      | stop => simp [hnext] at h
      | advance more mode' =>
        by_cases hhere : here = []
        · simp [hnext, hhere] at h
        simp only [hnext, hhere, dite_false] at h
        obtain ⟨hname, ⟨u, after, first, hrest, rfl, hline, hcolumn⟩ | hlater⟩ :=
          hadvance more mode' hhere h
        · obtain ⟨first', hmode⟩ := statement_of_next hnext
          have hlength : more + 1 ≤ here.length := by
            by_contra hshort
            rw [List.drop_eq_nil_iff.mpr (by omega)] at hrest
            simp at hrest
          refine ⟨hname, Or.inl ⟨here.take (more + 1) ++ u, after, first', ?_, hmode, hline, ?_⟩⟩
          · rw [List.append_assoc, ← hrest, List.take_append_drop]
          · rw [hcolumn, List.length_append, List.length_take, Nat.min_eq_left hlength]
            omega
        · exact ⟨hname, Or.inr hlater⟩
      | join mode' =>
        simp only [hnext] at h
        cases later with
        | nil =>
          rw [List.mem_singleton.mp h] at hi
          cases hi
        | cons next later =>
          obtain ⟨hname, hlater⟩ := hjoin mode' h
          exact ⟨hname, Or.inr (hbehind hlater)⟩
      | newLine =>
        simp only [hnext] at h
        cases later with
        | nil => simp at h
        | cons next later =>
          obtain ⟨hname, hlater⟩ := hnew h
          exact ⟨hname, Or.inr (hbehind hlater)⟩

theorem place_of_reference (h : i ∈ lexFrom v mode line column here later)
    (hi : i.token = .reference name) :
    line < i.line ∨ i.line = line ∧ column + (1 + name.length) ≤ i.column ∧
      ∃ first, mode = .statement first := by
  obtain ⟨-, ⟨u, -, first, -, hmode, hline, hcolumn⟩ | ⟨earlier, -, -, -, -, hline, -⟩⟩ :=
    row_of_reference h hi
  · exact Or.inr ⟨hline, by omega, first, hmode⟩
  · exact Or.inl (by omega)

theorem mem_of_reference (h : i ∈ lexFrom v mode line column here later)
    (hi : i.token = .reference name) (hline : i.line = line) :
    i ∈ Step.items (step v mode here) line column ∨
      ∃ more mode', (step v mode here).next = .advance more mode' ∧ here ≠ [] ∧
        i ∈ lexFrom v mode' line (column + (more + 1)) (here.drop (more + 1)) later := by
  have hlater {mode : Mode} {next : Bytes} {later : List Bytes} :
      i ∉ lexFrom v mode (line + 1) 1 next later := by
    intro h
    have := place_of_reference h hi
    omega
  rw [lexFrom.eq_def] at h
  rcases List.mem_append.mp h with h | h
  · exact Or.inl h
  · cases hnext : (step v mode here).next with
    | stop => simp [hnext] at h
    | advance more mode' =>
      simp only [hnext] at h
      by_cases hhere : here = []
      · simp [hhere] at h
      · rw [dif_neg hhere] at h
        exact Or.inr ⟨more, mode', rfl, hhere, h⟩
    | join mode' =>
      simp only [hnext] at h
      cases later with
      | nil =>
        rw [List.mem_singleton.mp h] at hi
        cases hi
      | cons next later => exact absurd h hlater
    | newLine =>
      simp only [hnext] at h
      cases later with
      | nil => simp at h
      | cons next later => exact absurd h hlater

end lines

end Lexer

/-! ### Occurrences -/

/-- A reference was read from the name between two parts of a source, with an `@` before it. -/
structure Occurs (i : Item) (name before after source : Bytes) : Prop where
  text : source = before ++ 0x40 :: (name ++ after)
  line : i.line = (Bytes.placeBehind before).1
  column : i.column = (Bytes.placeBehind before).2 + (1 + name.length)

theorem exists_occurs {v : Vocabulary} {source name : Bytes} {i : Item} (h : i ∈ lex v source)
    (hi : i.token = .reference name) : ∃ before after, Occurs i name before after source := by
  unfold lex at h
  split at h
  · cases h
  rename_i first later hlines
  -- Only the number of the line and the column on it have to be put together.
  have hoccurs (earlier : List Bytes) {behind : List Bytes} {u after : Bytes}
      (hrow : source.lines = earlier ++ (u ++ 0x40 :: (name ++ after)) :: behind)
      (hline : i.line = 1 + earlier.length) (hcolumn : i.column = 1 + u.length + (1 + name.length)) :
      ∃ before after, Occurs i name before after source := by
    obtain ⟨before, rest, htext, hplace⟩ := Bytes.exists_of_lines 1 hrow
    refine ⟨before, after ++ rest, by simpa using htext, ?_, ?_⟩
    · rw [hline, Bytes.placeBehind, hplace]
    · rw [hcolumn, Bytes.placeBehind, hplace]
  obtain ⟨-, ⟨u, after, -, rfl, -, hline, hcolumn⟩ |
      ⟨earlier, u, after, behind, rfl, hline, hcolumn⟩⟩ :=
    Lexer.row_of_reference h hi
  · exact hoccurs [] hlines hline hcolumn
  · refine hoccurs (first :: earlier) hlines ?_ hcolumn
    rw [hline, List.length_cons]
    omega

end SpectrumTape.Basic
