import SpectrumTape.Cursor.Basic
import Mathlib.Tactic.Common

/-!
# Where a cursor stands

A cursor that stops at line ends stands in a line of its text. What matters of that is a `Place`: the
line and the column, what is left of the line, the lines behind it, and what was passed since the
capture started. `Stands` says that a cursor is at a place; then its positions lie in the text, every
operation finds the bytes that it asks for, and leads to a place that can be told in advance.
-/

namespace SpectrumTape

/-! ### Lines of a text -/

namespace Bytes

/-- How many bytes the line break at the start of a text has. -/
def breakLength : Bytes → Nat
  | [] => 0
  | c :: rest =>
    if c == Ascii.cr then if rest.head? == some Ascii.lf then 2 else 1
    else if c == Ascii.lf then 1
    else 0

/-- The lines behind the line break at the start of a text. -/
def linesBehind (s : Bytes) : List Bytes :=
  if s.drop (breakLength s) = [] then [] else lines (s.drop (breakLength s))

theorem linesFrom_eq (done text : Bytes) :
    linesFrom done text =
      (done.reverse ++ text.takeWhile (!isBreak ·)) :: linesBehind (text.dropWhile (!isBreak ·)) := by
  fun_induction linesFrom done text with
  | case1 => simp [linesBehind, breakLength]
  | case2 | case3 | case6 => simp_all [linesBehind, breakLength, isBreak]
  | case4 | case5 | case7 => simp_all [linesBehind, breakLength, isBreak, lines]
  | case8 => simp_all [isBreak]

theorem lines_eq (text : Bytes) :
    lines text = text.takeWhile (!isBreak ·) :: linesBehind (text.dropWhile (!isBreak ·)) :=
  linesFrom_eq [] text

theorem head?_dropWhile_isBreak (text : Bytes) :
    ∀ c ∈ (text.dropWhile (!isBreak ·)).head?, isBreak c = true := by
  intro c hc
  have := List.head?_dropWhile_not (fun c => !isBreak c) text
  simp_all

theorem length_linesFrom_le (done text : Bytes) :
    (linesFrom done text).flatten.length + (linesFrom done text).length ≤
      done.length + text.length + 1 := by
  fun_induction linesFrom done text with
  | case1 | case2 | case3 | case6 => simp
  | case4 | case5 | case7 | case8 => simp_all; try omega

theorem breakLength_le (s : Bytes) : breakLength s ≤ s.length := by
  unfold breakLength
  cases s with
  | nil => simp
  | cons c rest =>
    cases rest with
    | nil => simp; split_ifs <;> omega
    | cons d rest => simp; split_ifs <;> omega

theorem breakLength_pos {s : Bytes} (hs : s ≠ []) (hbreak : ∀ c ∈ s.head?, isBreak c = true) :
    0 < breakLength s := by
  cases s with
  | nil => exact absurd rfl hs
  | cons c rest =>
    have hc := hbreak c rfl
    simp only [isBreak, Bool.or_eq_true] at hc
    simp only [breakLength]
    split_ifs <;> simp_all

theorem length_linesBehind_le {behind : Bytes} (hbreak : ∀ c ∈ behind.head?, isBreak c = true) :
    (linesBehind behind).flatten.length + (linesBehind behind).length ≤ behind.length := by
  unfold linesBehind
  split_ifs with hempty
  · simp
  · have hlines := length_linesFrom_le [] (behind.drop (breakLength behind))
    have hpos := breakLength_pos (by rintro rfl; exact hempty rfl) hbreak
    have hle := breakLength_le behind
    rw [List.length_drop, List.length_nil] at hlines
    rw [lines]
    omega

end Bytes

/-! ### Places -/

/-- A place in a line: its line and column, counted from one, what is left of the line, the lines
behind it, and what was passed since the capture started. -/
structure Place where
  line : Nat
  column : Nat
  here : Bytes
  later : List Bytes
  captured : Bytes
  deriving DecidableEq, Repr, Inhabited

namespace Place

def forward (p : Place) (n : Nat) : Place :=
  { p with column := p.column + n, here := p.here.drop n, captured := p.captured ++ p.here.take n }

def mark (p : Place) : Place := { p with captured := [] }

/-- How much there is to pass up to the end of the text. -/
def left (p : Place) : Nat := p.here.length + p.later.flatten.length + p.later.length

/-- The start of a line of which the text is left. -/
def atLine (line : Nat) (text : Bytes) : Place where
  line
  column := 1
  here := text.takeWhile (!Bytes.isBreak ·)
  later := Bytes.linesBehind (text.dropWhile (!Bytes.isBreak ·))
  captured := []

theorem forward_zero (p : Place) : p.forward 0 = p := by
  simp [forward]

theorem forward_forward (p : Place) (m n : Nat) : (p.forward m).forward n = p.forward (m + n) := by
  simp [forward, Nat.add_assoc, List.take_add]

end Place

namespace Cursor

/-- A cursor stands at a place of a text. -/
structure Stands (source : Bytes) (c : Cursor) (p : Place) : Prop where
  bytes : c.source = source.toArray
  stops : c.stopAtLineEnd = true
  known : c.state.lineEndKnown = true
  pos_le : c.state.pos ≤ source.length
  lineStart_le : c.state.lineStart ≤ c.state.pos
  lineEnd : c.state.lineEnd = c.state.pos + p.here.length
  text : ∃ behind, source.drop c.state.pos = p.here ++ behind ∧ p.later = Bytes.linesBehind behind ∧
    ∀ b ∈ behind.head?, Bytes.isBreak b = true
  captureStart : c.state.captureStart + p.captured.length = c.state.pos
  passed : source.drop c.state.captureStart = p.captured ++ source.drop c.state.pos
  line : c.state.lineNumber + 1 = p.line
  column : c.state.pos + 1 = c.state.lineStart + p.column

section

variable {source : Bytes} {c : Cursor} {p : Place}

theorem bounds_of_text? {s : Span} {text : Bytes} (h : c.text? s = some text) :
    0 ≤ s.start ∧ s.start ≤ s.stop ∧ s.stop ≤ c.source.size := by
  unfold text? at h
  split_ifs at h with hbounds
  simpa [and_assoc] using hbounds

theorem text?_eq (hc : c.source = source.toArray) {start : Nat} {text rest : Bytes}
    (hstart : start ≤ source.length) (h : source.drop start = text ++ rest) :
    c.text? ⟨start, (start + text.length : Nat)⟩ = some text := by
  have hlength := congrArg List.length h
  rw [List.length_drop, List.length_append] at hlength
  have hstop : start + text.length ≤ source.length := by omega
  unfold text?
  rw [if_pos]
  · simp only [hc, Int.toNat_natCast, List.extract_toArray, List.extract_eq_take_drop, h]
    rw [Nat.add_sub_cancel_left, List.take_left]
  · simp [hc]
    omega

namespace Stands

theorem length_here_le (h : Stands source c p) : c.state.pos + p.here.length ≤ source.length := by
  obtain ⟨behind, htext, -, -⟩ := h.text
  have hlength := congrArg List.length htext
  rw [List.length_drop, List.length_append] at hlength
  have := h.pos_le
  omega

theorem left_le (h : Stands source c p) : p.left ≤ source.length := by
  obtain ⟨behind, htext, hlater, hbreak⟩ := h.text
  have hlength := congrArg List.length htext
  rw [List.length_drop, List.length_append] at hlength
  have hbehind := Bytes.length_linesBehind_le hbreak
  rw [Place.left, hlater]
  omega

theorem settle_eq (h : Stands source c p) : c.settle = c := by
  simp [settle, findLineEnd, h.known]

theorem limitStart_eq (h : Stands source c p) : c.limitStart = c.state.lineStart := by
  simp [limitStart, h.stops]

theorem limitEnd_eq (h : Stands source c p) : c.limitEnd = c.state.pos + p.here.length := by
  simp [limitEnd, h.stops, h.lineEnd]

theorem isEnd_eq (h : Stands source c p) : c.isEnd = p.here.isEmpty := by
  rw [isEnd, h.limitEnd_eq]
  cases p.here with
  | nil => simp
  | cons b rest => simp

theorem location_eq (h : Stands source c p) : c.location = ((p.line : Int), (p.column : Int)) := by
  have hline := h.line
  have hcolumn := h.column
  simp only [location, Prod.mk.injEq]
  omega

theorem getElem?_pos_add (h : Stands source c p) {n : Nat} (hn : n < p.here.length) :
    c.source[c.state.pos + n]? = p.here[n]? := by
  obtain ⟨behind, htext, -, -⟩ := h.text
  rw [h.bytes, List.getElem?_toArray, ← List.getElem?_drop, htext, List.getElem?_append_left hn]

theorem byteAt?_eq (h : Stands source c p) (n : Nat) : c.byteAt? n = some (p.here.getD n 0) := by
  have hstart := h.lineStart_le
  simp only [byteAt?, h.limitStart_eq, h.limitEnd_eq]
  by_cases hn : n < p.here.length
  · rw [if_neg (by simp; omega)]
    have hindex : ((c.state.pos : Int) + n).toNat = c.state.pos + n := by omega
    rw [hindex, h.getElem?_pos_add hn, List.getD_eq_getElem?_getD, List.getElem?_eq_getElem hn]
    rfl
  · rw [if_pos (by simp; omega), List.getD_eq_getElem?_getD, List.getElem?_eq_none (by omega)]
    rfl

theorem moveTo (h : Stands source c p) {n : Nat} (hn : n ≤ p.here.length) :
    Stands source (c.moveTo (c.state.pos + n)) (p.forward n) := by
  have hle := h.length_here_le
  have hstart := h.lineStart_le
  obtain ⟨behind, htext, hlater, hbreak⟩ := h.text
  have hdrop : source.drop (c.state.pos + n) = p.here.drop n ++ behind := by
    rw [← List.drop_drop, htext, List.drop_append_of_le_length hn]
  refine ⟨h.bytes, h.stops, h.known, ?_, ?_, ?_, ⟨behind, hdrop, hlater, hbreak⟩, ?_, ?_, h.line, ?_⟩
  · show c.state.pos + n ≤ source.length
    omega
  · show c.state.lineStart ≤ c.state.pos + n
    omega
  · have hend := h.lineEnd
    simp only [Cursor.moveTo, Place.forward, List.length_drop]
    omega
  · have hcapture := h.captureStart
    simp only [Cursor.moveTo, Place.forward, List.length_append, List.length_take]
    omega
  · show source.drop c.state.captureStart = _ ++ source.drop (c.state.pos + n)
    rw [h.passed, hdrop, htext, Place.forward, List.append_assoc, ← List.append_assoc (p.here.take n),
      List.take_append_drop]
  · have hcolumn := h.column
    simp only [Cursor.moveTo, Place.forward]
    omega

theorem move_eq (h : Stands source c p) {n : Nat} (hn : n ≤ p.here.length) :
    c.move n = (true, c.moveTo (c.state.pos + n)) := by
  have hstart := h.lineStart_le
  have htarget : ((c.state.pos : Int) + n).toNat = c.state.pos + n := by omega
  simp only [move, h.limitStart_eq, h.limitEnd_eq, htarget]
  rw [if_neg (by simp; omega)]

theorem take_cons {b : UInt8} {rest : Bytes} (h : Stands source c p) (hhere : p.here = b :: rest) :
    c.take = (some b, c.moveTo (c.state.pos + 1)) := by
  have hbyte := h.getElem?_pos_add (n := 0) (by simp [hhere])
  rw [Nat.add_zero, hhere] at hbyte
  simp [take, h.isEnd_eq, hhere, hbyte]

theorem take_nil (h : Stands source c p) (hhere : p.here = []) : c.take = (some 0, c) := by
  simp [take, h.isEnd_eq, hhere]

theorem rest?_eq (h : Stands source c p) : c.rest? = some p.here := by
  obtain ⟨behind, htext, -, -⟩ := h.text
  rw [rest?, h.limitEnd_eq]
  exact text?_eq h.bytes h.pos_le htext

theorem text?_behind {b : UInt8} {rest : Bytes} (h : Stands source c p) (hhere : p.here = b :: rest) :
    c.text? ⟨(c.state.pos + 1 : Nat), c.limitEnd⟩ = some rest := by
  have hmoved := h.moveTo (n := 1) (by simp [hhere])
  have hrest : (p.forward 1).here = rest := by simp [Place.forward, hhere]
  have hend : c.limitEnd = c.state.pos + 1 + rest.length := by
    rw [h.limitEnd_eq, hhere, List.length_cons]
    omega
  obtain ⟨behind, htext, -, -⟩ := hmoved.text
  rw [hrest] at htext
  rw [hend]
  exact text?_eq h.bytes hmoved.pos_le htext

theorem skipFrom_eq {p : UInt8 → Bool} {start pos : Nat} {here behind : Bytes}
    (hstart : start ≤ pos) (h : source.drop pos = here ++ behind) :
    skipFrom source.toArray p start (pos + here.length) pos =
      (some (decide ((here.takeWhile p).length < here.length)),
        pos + (here.takeWhile p).length) := by
  induction here generalizing pos with
  | nil => simp [skipFrom]
  | cons b here ih =>
    have hbyte : source[pos]? = some b := by
      rw [← Nat.add_zero pos, ← List.getElem?_drop, h]
      rfl
    have hrest : source.drop (pos + 1) = here ++ behind := by
      rw [← List.drop_drop, h]
      rfl
    have hstop : pos + (b :: here).length = pos + 1 + here.length := by
      rw [List.length_cons]
      omega
    rw [skipFrom, if_pos (by simp), if_neg (by omega), List.getElem?_toArray, hbyte, hstop]
    by_cases hb : p b = true
    · simp only [hb, if_true]
      rw [ih (Nat.le_succ_of_le hstart) hrest]
      simp [hb, Nat.add_assoc, Nat.add_comm 1]
    · simp [hb]

theorem skipWhile_eq (h : Stands source c p) (q : UInt8 → Bool) :
    c.skipWhile q = (some (decide ((p.here.takeWhile q).length < p.here.length)),
      c.moveTo (c.state.pos + (p.here.takeWhile q).length)) := by
  obtain ⟨behind, htext, -, -⟩ := h.text
  rw [skipWhile, h.limitStart_eq, h.limitEnd_eq, h.bytes, skipFrom_eq h.lineStart_le htext]

/-! ### Captures -/

theorem resetCapture (h : Stands source c p) : Stands source c.resetCapture p.mark :=
  ⟨h.bytes, h.stops, h.known, h.pos_le, h.lineStart_le, h.lineEnd, h.text, rfl, rfl, h.line, h.column⟩

theorem capture (h : Stands source c p) : Stands source c.capture p :=
  ⟨h.bytes, h.stops, h.known, h.pos_le, h.lineStart_le, h.lineEnd, h.text, h.captureStart, h.passed,
    h.line, h.column⟩

theorem captured_eq (h : Stands source c p) :
    c.capture.captured = ⟨c.state.captureStart, (c.state.captureStart + p.captured.length : Nat)⟩ := by
  rw [h.captureStart]
  rfl

theorem captureStart_le (h : Stands source c p) : c.state.captureStart ≤ source.length := by
  have hpos := h.pos_le
  have hcapture := h.captureStart
  omega

theorem text?_captured (h : Stands source c p) :
    c.capture.text? c.capture.captured = some p.captured := by
  rw [h.captured_eq]
  exact text?_eq h.bytes h.captureStart_le h.passed

theorem text?_captured_dropLast {b : UInt8} {text : Bytes} (h : Stands source c p)
    (hcaptured : p.captured = text ++ [b]) :
    c.capture.text? ⟨c.capture.captured.start, c.capture.captured.stop - 1⟩ = some text := by
  have hstop : c.capture.captured.stop - 1 = ((c.state.captureStart + text.length : Nat) : Int) := by
    simp only [h.captured_eq, hcaptured, List.length_append, List.length_singleton]
    omega
  have hpassed := h.passed
  rw [hcaptured, List.append_assoc] at hpassed
  rw [hstop, h.captured_eq]
  exact text?_eq h.bytes h.captureStart_le hpassed

/-! ### Lines -/

theorem lineEndFrom_eq {i : Nat} (hi : i ≤ source.length) :
    lineEndFrom source.toArray i = i + ((source.drop i).takeWhile (!Bytes.isBreak ·)).length := by
  fun_induction lineEndFrom source.toArray i with
  | case1 i hlt hbreak =>
    have hlt : i < source.length := hlt
    have hbyte : Bytes.isBreak source[i] = true := hbreak
    rw [List.drop_eq_getElem_cons hlt, List.takeWhile_cons_of_neg (by simp [hbyte])]
    rfl
  | case2 i hlt hbreak ih =>
    have hlt : i < source.length := hlt
    have hbyte : ¬Bytes.isBreak source[i] = true := hbreak
    rw [ih hlt, List.drop_eq_getElem_cons hlt, List.takeWhile_cons_of_pos (by simp [hbyte]),
      List.length_cons]
    omega
  | case3 i hge =>
    have hge : source.length ≤ i := Nat.not_lt.mp hge
    simp [List.drop_eq_nil_of_le hge]

theorem breakSize_eq (source : Bytes) (pos : Nat) :
    breakSize source.toArray pos = Bytes.breakLength (source.drop pos) := by
  have hsecond : source[pos + 1]? = (source.drop pos)[1]? := by rw [List.getElem?_drop]
  have hfirst : source[pos]? = (source.drop pos)[0]? := by rw [List.getElem?_drop, Nat.add_zero]
  simp only [breakSize, List.getElem?_toArray, hfirst, hsecond]
  rcases source.drop pos with _ | ⟨c, _ | ⟨d, rest⟩⟩ <;> rfl

theorem of_lineStart {state : State} (hc : c.source = source.toArray) (hstop : c.stopAtLineEnd = true)
    (hstate : c.state = state) (hknown : state.lineEndKnown = false)
    (hpos : state.pos ≤ source.length) (hline : state.lineStart = state.pos)
    (hcapture : state.captureStart = state.pos) :
    Stands source c.settle (.atLine (state.lineNumber + 1) (source.drop state.pos)) := by
  subst hstate
  have hsettle : c.settle =
      { c with
        state :=
          { c.state with
            lineEnd := lineEndFrom source.toArray c.state.pos, lineEndKnown := true } } := by
    simp [settle, findLineEnd, hstop, hknown, hc, hline]
  rw [hsettle]
  refine ⟨hc, hstop, rfl, hpos, Nat.le_of_eq hline, lineEndFrom_eq hpos, ⟨_, ?_, rfl, ?_⟩, ?_, ?_, rfl, ?_⟩
  · exact List.takeWhile_append_dropWhile.symm
  · exact Bytes.head?_dropWhile_isBreak _
  · exact hcapture
  · show source.drop c.state.captureStart = _
    rw [hcapture]
    rfl
  · show c.state.pos + 1 = c.state.lineStart + 1
    rw [hline]

theorem reset (hc : c.source = source.toArray) (hstop : c.stopAtLineEnd = true) :
    Stands source c.reset (.atLine 1 source) :=
  of_lineStart (c := { c with state := { lineEndKnown := false } }) hc hstop rfl rfl
    (Nat.zero_le _) rfl rfl

theorem nextLine_eq (h : Stands source c p) :
    ∃ text line, p.later = (if text = [] then [] else Bytes.lines text) ∧
      c.nextLine.1 = decide (text ≠ []) ∧ (text ≠ [] → line = p.line + 1) ∧
      Stands source c.nextLine.2 (.atLine line text) := by
  obtain ⟨behind, htext, hlater, hbreak⟩ := h.text
  have hle := Bytes.breakLength_le behind
  have hend : max c.state.lineEnd c.state.pos = c.state.pos + p.here.length := by
    rw [h.lineEnd]
    omega
  have hbehind : source.drop (c.state.pos + p.here.length) = behind := by
    rw [← List.drop_drop, htext, List.drop_left]
  have hlength : c.state.pos + p.here.length + behind.length = source.length := by
    have := congrArg List.length hbehind
    rw [List.length_drop] at this
    have := h.length_here_le
    omega
  have hfind : c.findLineEnd = c := by simp [findLineEnd, h.known]
  let pos := c.state.pos + p.here.length + Bytes.breakLength behind
  let state : State :=
    { pos, lineStart := pos, lineEnd := pos, captureStart := pos, captureEnd := pos
      lineNumber := if Bytes.breakLength behind = 0 then c.state.lineNumber
        else c.state.lineNumber + 1
      lineEndKnown := false }
  have hnext : c.nextLine = (decide (pos < source.length), settle { c with state }) := by
    simp only [nextLine, hfind, hend, h.bytes, breakSize_eq, hbehind, List.size_toArray]
    rfl
  have hpos : pos ≤ source.length := by omega
  have hstands : Stands source (settle { c with state })
      (.atLine (state.lineNumber + 1) (source.drop pos)) :=
    of_lineStart (c := { c with state }) h.bytes h.stops rfl rfl hpos rfl rfl
  have hrest : source.drop pos = behind.drop (Bytes.breakLength behind) := by
    rw [← List.drop_drop, hbehind]
  rw [hnext]
  refine ⟨source.drop pos, state.lineNumber + 1, ?_, ?_, fun hmore => ?_, hstands⟩
  · rw [hrest]
    exact hlater
  · simp
  · have hsize : 0 < Bytes.breakLength behind := by
      refine Bytes.breakLength_pos ?_ hbreak
      rintro rfl
      simp [hrest] at hmore
    simp [state, Nat.ne_of_gt hsize, h.line]

theorem nextLine_cons {next : Bytes} {more : List Bytes} (h : Stands source c p)
    (hlater : p.later = next :: more) :
    c.nextLine.1 = true ∧ Stands source c.nextLine.2 ⟨p.line + 1, 1, next, more, []⟩ := by
  obtain ⟨text, line, htext, hmore, hline, hstands⟩ := h.nextLine_eq
  rw [hlater] at htext
  split_ifs at htext with hempty
  rw [Bytes.lines_eq] at htext
  obtain ⟨rfl, rfl⟩ := List.cons_eq_cons.mp htext
  rw [hline hempty] at hstands
  exact ⟨by simpa [hempty] using hmore, hstands⟩

theorem nextLine_nil (h : Stands source c p) (hlater : p.later = []) :
    c.nextLine.1 = false ∧ ∃ line, Stands source c.nextLine.2 ⟨line, 1, [], [], []⟩ := by
  obtain ⟨text, line, htext, hmore, -, hstands⟩ := h.nextLine_eq
  rw [hlater] at htext
  split_ifs at htext with hempty
  · subst hempty
    exact ⟨by simpa using hmore, line, hstands⟩
  · rw [Bytes.lines_eq] at htext
    cases htext

end Stands

end

end Cursor

end SpectrumTape
