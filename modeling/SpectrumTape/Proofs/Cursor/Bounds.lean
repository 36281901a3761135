import SpectrumTape.Cursor.Session
import SpectrumTape.Proofs.Text.Positions
import Mathlib.Logic.Relation

/-!
# What every state of a cursor keeps

A cursor that stops at line ends is always in a line of its source (`State.Placed`): between the
opening of the line and its end, with no break in between, and its line number counts the breaks before
the line. As long as it does not move back, the capture starts in that line too and not behind the
cursor (`State.Captures`).

Most operations stay on the line (`State.Stays`), and then all that counts is where in the line they
lead. The others open a line, the first one (`placed_reset`) or the one behind the next break
(`Placed.nextLine_eq`). The location of a state is a position of the source (`State.Placed.isPosition`).
-/

namespace SpectrumTape

namespace Bytes

theorem breakLength_break {brk rest : Bytes} (hbrk : brk ∈ breaks) (hends : EndsBreak brk rest) :
    breakLength (brk ++ rest) = brk.length := by
  simp only [breaks, List.mem_cons, List.not_mem_nil, or_false] at hbrk
  rcases hbrk with rfl | rfl | rfl
  · rfl
  · simp [breakLength, hends rfl]
  · rfl

theorem exists_break_of_head {text : Bytes} (hne : text ≠ [])
    (hhead : ∀ c ∈ text.head?, isBreak c = true) :
    ∃ brk rest, text = brk ++ rest ∧ brk ∈ breaks ∧ EndsBreak brk rest := by
  rcases exists_break text with hplain | ⟨row, brk, rest, rfl, hrow, hbrk, hends⟩
  · obtain ⟨c, text, rfl⟩ := List.exists_cons_of_ne_nil hne
    have hc := hplain c List.mem_cons_self
    rw [hhead c rfl] at hc
    cases hc
  · cases row with
    | nil => exact ⟨brk, rest, rfl, hbrk, hends⟩
    | cons c row =>
      have hc := hrow c List.mem_cons_self
      rw [hhead c rfl] at hc
      cases hc

end Bytes

namespace Cursor

variable {source : Bytes} {c c' : Cursor} {s s' : State}

/-! ### States -/

/-- The line of a state is one of the source, and its position lies in it. -/
structure State.Placed (source : Bytes) (s : State) : Prop where
  known : s.lineEndKnown = true
  lineStart_le : s.lineStart ≤ s.pos
  pos_le : s.pos ≤ s.lineEnd
  lineEnd_le : s.lineEnd ≤ source.length
  unbroken : ∀ b ∈ source.extract s.lineStart s.lineEnd, Bytes.isBreak b = false
  ended : ∀ b ∈ (source.drop s.lineEnd).head?, Bytes.isBreak b = true
  opened : Bytes.OpensLine source s.lineStart ∨ s.lineStart = source.length
  lineNumber : s.lineNumber = Bytes.breakCount (source.take s.lineStart)

/-- The capture of a state starts in its line, not behind its position. -/
def State.Captures (s : State) : Prop := s.lineStart ≤ s.captureStart ∧ s.captureStart ≤ s.pos

/-- A state on the same line. -/
structure State.Stays (s s' : State) : Prop where
  lineStart : s'.lineStart = s.lineStart
  lineEnd : s'.lineEnd = s.lineEnd
  lineNumber : s'.lineNumber = s.lineNumber
  known : s'.lineEndKnown = s.lineEndKnown
  lineStart_le : s.lineStart ≤ s'.pos
  pos_le : s'.pos ≤ s.lineEnd
  capture : s'.captureStart = s.captureStart ∨ s'.captureStart = s'.pos

namespace State

theorem Placed.stays (h : s.Placed source) (hstays : s.Stays s') : s'.Placed source where
  known := hstays.known.trans h.known
  lineStart_le := hstays.lineStart ▸ hstays.lineStart_le
  pos_le := hstays.lineEnd ▸ hstays.pos_le
  lineEnd_le := hstays.lineEnd ▸ h.lineEnd_le
  unbroken := by rw [hstays.lineStart, hstays.lineEnd]; exact h.unbroken
  ended := by rw [hstays.lineEnd]; exact h.ended
  opened := by rw [hstays.lineStart]; exact h.opened
  lineNumber := by rw [hstays.lineStart, hstays.lineNumber]; exact h.lineNumber

theorem Captures.stays (h : s.Captures) (hstays : s.Stays s') (hforward : s.pos ≤ s'.pos) :
    s'.Captures := by
  unfold Captures at h ⊢
  have hstart := hstays.lineStart_le
  rw [hstays.lineStart]
  rcases hstays.capture with heq | heq <;> omega

theorem Placed.stays_self (h : s.Placed source) : s.Stays s :=
  ⟨rfl, rfl, rfl, rfl, h.lineStart_le, h.pos_le, .inl rfl⟩

theorem Placed.drop_lineStart (h : s.Placed source) :
    source.drop s.lineStart = source.extract s.lineStart s.lineEnd ++ source.drop s.lineEnd := by
  have hle := Nat.le_trans h.lineStart_le h.pos_le
  have hend : source.drop s.lineEnd = (source.drop s.lineStart).drop (s.lineEnd - s.lineStart) := by
    rw [List.drop_drop]
    congr 1
    omega
  rw [List.extract_eq_take_drop, hend, List.take_append_drop]

theorem Placed.apart (h : s.Placed source) :
    (source.take s.lineStart).getLast? = some Ascii.cr →
      (source.drop s.lineStart).head? ≠ some Ascii.lf := by
  rcases h.opened with hopened | hend
  · exact hopened.apart
  · intro _
    simp [hend]

theorem Placed.breakCount_append (h : s.Placed source) {text : Bytes}
    (htext : text <+: source.drop s.lineStart) :
    Bytes.breakCount (source.take s.lineStart ++ text) = s.lineNumber + Bytes.breakCount text := by
  rw [h.lineNumber]
  refine Bytes.breakCount_append fun hcr hlf => h.apart hcr ?_
  obtain ⟨rest, hrest⟩ := htext
  rw [← hrest, List.head?_append, hlf]
  rfl

theorem Placed.atBreak (h : s.Placed source) :
    (source.drop s.lineEnd = [] ∧ s.lineEnd = source.length) ∨
      ∃ brk rest, source.drop s.lineEnd = brk ++ rest ∧ brk ∈ Bytes.breaks ∧
        Bytes.EndsBreak brk rest ∧ Bytes.breakLength (source.drop s.lineEnd) = brk.length := by
  by_cases hend : source.drop s.lineEnd = []
  · have hle := List.drop_eq_nil_iff.mp hend
    exact .inl ⟨hend, Nat.le_antisymm h.lineEnd_le hle⟩
  · obtain ⟨brk, rest, htext, hbrk, hends⟩ := Bytes.exists_break_of_head hend h.ended
    exact .inr ⟨brk, rest, htext, hbrk, hends, htext ▸ Bytes.breakLength_break hbrk hends⟩

theorem Placed.isPosition (h : s.Placed source) :
    Bytes.IsPosition source ((s.lineNumber : Int) + 1) ((s.pos : Int) - s.lineStart + 1) := by
  have hle := h.lineStart_le
  rcases h.opened with hopened | hend
  · -- The bytes of the line before the position lead to it from the opening of the line.
    let row := (source.extract s.lineStart s.lineEnd).take (s.pos - s.lineStart)
    have hlength : row.length = s.pos - s.lineStart := by
      have hpos := h.pos_le
      have hlineEnd := h.lineEnd_le
      simp only [row, List.extract_eq_take_drop, List.length_take, List.length_drop]
      omega
    have hrow : ∀ b ∈ row, Bytes.isBreak b = false :=
      fun b hb => h.unbroken b (List.mem_of_mem_take hb)
    have hrest : source.drop s.lineStart =
        row ++ ((source.extract s.lineStart s.lineEnd).drop (s.pos - s.lineStart) ++
          source.drop s.lineEnd) := by
      rw [← List.append_assoc, List.take_append_drop]
      exact h.drop_lineStart
    have hplace := Bytes.placeBehind_line hopened hrow hrest
    refine ⟨source.take s.lineStart ++ row, (source.drop s.lineStart).drop row.length, ?_, ?_, ?_⟩
    · rw [List.append_assoc, hrest, List.drop_left, ← hrest, List.take_append_drop]
    · rw [hplace, h.lineNumber]
      rfl
    · rw [hplace, hlength]
      push_cast
      omega
  · have hlast := Bytes.isPosition_lastLine source
    have hnumber : s.lineNumber = Bytes.breakCount source := by
      rw [h.lineNumber, hend, List.take_length]
    have hpos : s.pos = s.lineStart := by
      have hpos := h.pos_le
      have hlineEnd := h.lineEnd_le
      omega
    rw [hnumber, hpos]
    simpa using hlast

end State

/-! ### Cursors -/

/-- A cursor over the source that stops at line ends and is in a line of it. -/
structure Placed (source : Bytes) (c : Cursor) : Prop where
  bytes : c.source = source.toArray
  stops : c.stopAtLineEnd = true
  state : c.state.Placed source

theorem Placed.findLineEnd_eq (h : c.Placed source) : c.findLineEnd = c := by
  simp [findLineEnd, h.state.known]

theorem Placed.settle_eq (h : c.Placed source) : c.settle = c := by
  simp [settle, h.findLineEnd_eq]

theorem Placed.limitStart_eq (h : c.Placed source) : c.limitStart = c.state.lineStart := by
  simp [limitStart, h.stops]

theorem Placed.limitEnd_eq (h : c.Placed source) : c.limitEnd = c.state.lineEnd := by
  simp [limitEnd, h.stops]

theorem exists_text? (hbytes : c.source = source.toArray) {start stop : Nat} (hle : start ≤ stop)
    (hstop : stop ≤ source.length) : ∃ text, c.text? ⟨start, stop⟩ = some text := by
  unfold text?
  rw [if_pos (by simp [hbytes, hle, hstop])]
  exact ⟨_, rfl⟩

/-- A cursor that has come to where a line opens is placed as soon as it knows the line. -/
theorem placed_settle {n : Nat} (hbytes : c.source = source.toArray) (hstops : c.stopAtLineEnd = true)
    (hknown : c.state.lineEndKnown = false) (hpos : c.state.pos = n) (hline : c.state.lineStart = n)
    (hn : n ≤ source.length) (hopened : Bytes.OpensLine source n ∨ n = source.length)
    (hnumber : c.state.lineNumber = Bytes.breakCount (source.take n)) : Placed source c.settle := by
  let row := (source.drop n).takeWhile (!Bytes.isBreak ·)
  let behind := (source.drop n).dropWhile (!Bytes.isBreak ·)
  have htext : source.drop n = row ++ behind := List.takeWhile_append_dropWhile.symm
  have hlength := congrArg List.length htext
  rw [List.length_drop, List.length_append] at hlength
  have hsettle : c.settle =
      { c with state := { c.state with lineEnd := n + row.length, lineEndKnown := true } } := by
    simp [settle, findLineEnd, hstops, hknown, hbytes, hline, Stands.lineEndFrom_eq hn, row]
  have hrow : source.extract n (n + row.length) = row := by
    rw [List.extract_eq_take_drop, Nat.add_sub_cancel_left, htext, List.take_left]
  have hbehind : source.drop (n + row.length) = behind := by
    rw [← List.drop_drop, htext, List.drop_left]
  rw [hsettle]
  refine ⟨hbytes, hstops, ?_⟩
  constructor
  case known => rfl
  case lineStart_le => exact Nat.le_of_eq (hline.trans hpos.symm)
  case pos_le =>
    show c.state.pos ≤ n + row.length
    omega
  case lineEnd_le =>
    show n + row.length ≤ source.length
    omega
  case unbroken =>
    intro b hb
    simp only [hline, hrow] at hb
    have hall := List.all_takeWhile (p := (!Bytes.isBreak ·)) (l := source.drop n)
    simpa using List.all_eq_true.mp hall b hb
  case ended =>
    simp only [hbehind]
    exact Bytes.head?_dropWhile_isBreak _
  case opened => simpa only [hline] using hopened
  case lineNumber => simpa only [hline] using hnumber

/-! ### Other lines -/

theorem placed_reset (hbytes : c.source = source.toArray) (hstops : c.stopAtLineEnd = true) :
    Placed source c.reset :=
  placed_settle (c := { c with state := { lineEndKnown := false } }) hbytes hstops rfl rfl rfl
    (Nat.zero_le _) (.inl (.inl rfl)) rfl

theorem State.Placed.opensNext (h : s.Placed source) :
    let size := Bytes.breakLength (source.drop s.lineEnd)
    s.lineEnd + size ≤ source.length ∧
      (Bytes.OpensLine source (s.lineEnd + size) ∨ s.lineEnd + size = source.length) ∧
      Bytes.breakCount (source.take (s.lineEnd + size)) =
        if size = 0 then s.lineNumber else s.lineNumber + 1 := by
  intro size
  have hlineEnd := h.lineEnd_le
  have hdrop := h.drop_lineStart
  have htake : source.take s.lineEnd =
      source.take s.lineStart ++ source.extract s.lineStart s.lineEnd := by
    have hle := Nat.le_trans h.lineStart_le h.pos_le
    rw [List.extract_eq_take_drop, ← List.take_add, Nat.add_sub_cancel' hle]
  rcases h.atBreak with ⟨hend, hlast⟩ | ⟨brk, rest, htext, hbrk, hends, hsize⟩
  · have hzero : size = 0 := by simp [size, hend, Bytes.breakLength]
    rw [hzero, Nat.add_zero, if_pos rfl, htake,
      h.breakCount_append (by rw [hdrop]; exact List.prefix_append _ _),
      Bytes.breakCount_row h.unbroken]
    exact ⟨hlineEnd, .inr hlast, rfl⟩
  · have hsize : size = brk.length := hsize
    have hpos := Bytes.length_break_pos hbrk
    have hlength := congrArg List.length htext
    rw [List.length_drop, List.length_append] at hlength
    have hsource : source = source.take s.lineEnd ++ (brk ++ rest) := by
      rw [← htext, List.take_append_drop]
    have htaken : source.take (s.lineEnd + brk.length) =
        source.take s.lineStart ++ (source.extract s.lineStart s.lineEnd ++ brk) := by
      rw [List.take_add, htext, List.take_left, htake, List.append_assoc]
    have hcount : Bytes.breakCount brk = 1 := by
      have hends' := hends.of_prefix (List.nil_prefix (l := rest))
      have hbreak := Bytes.breakCount_break hbrk hends'
      rwa [List.append_nil] at hbreak
    have hprefix : source.extract s.lineStart s.lineEnd ++ brk <+: source.drop s.lineStart := by
      rw [hdrop, htext, ← List.append_assoc]
      exact List.prefix_append _ _
    rw [hsize, htaken, h.breakCount_append hprefix, Bytes.breakCount_plain h.unbroken, hcount,
      if_neg (by omega)]
    refine ⟨by omega, .inl (.inr ⟨source.take s.lineEnd, brk, rest, hsource, hbrk, hends, ?_⟩), rfl⟩
    rw [List.length_take, Nat.min_eq_left hlineEnd]

theorem settle_state (c : Cursor) :
    c.settle.state.pos = c.state.pos ∧ c.settle.state.lineStart = c.state.lineStart ∧
      c.settle.state.captureStart = c.state.captureStart ∧
      c.settle.state.lineNumber = c.state.lineNumber := by
  unfold settle findLineEnd
  split_ifs <;> exact ⟨rfl, rfl, rfl, rfl⟩

/-- Where the next line opens, and whether there is any text left. -/
theorem Placed.nextLine_eq (h : c.Placed source) :
    let pos := c.state.lineEnd + Bytes.breakLength (source.drop c.state.lineEnd)
    c.nextLine.1 = decide (pos < source.length) ∧ c.nextLine.2.Placed source ∧
      c.nextLine.2.state.pos = pos ∧ c.nextLine.2.state.lineStart = pos ∧
      c.nextLine.2.state.captureStart = pos := by
  intro pos
  obtain ⟨hle, hopened, hnumber⟩ := h.state.opensNext
  let state : State :=
    { pos, lineStart := pos, lineEnd := pos, captureStart := pos, captureEnd := pos
      lineNumber := if Bytes.breakLength (source.drop c.state.lineEnd) = 0 then c.state.lineNumber
        else c.state.lineNumber + 1
      lineEndKnown := false }
  have hnext : c.nextLine = (decide (pos < source.length), settle { c with state }) := by
    simp only [nextLine, h.findLineEnd_eq, Nat.max_eq_left h.state.pos_le, h.bytes,
      Stands.breakSize_eq, List.size_toArray]
    rfl
  obtain ⟨hpos, hlineStart, hcapture, -⟩ := settle_state { c with state }
  rw [hnext]
  exact ⟨rfl, placed_settle (c := { c with state }) h.bytes h.stops rfl rfl rfl hle hopened hnumber.symm,
    hpos, hlineStart, hcapture⟩

end Cursor

end SpectrumTape
