import SpectrumTape.Proofs.Cursor.Operations
import Mathlib.Data.List.TakeWhile

/-!
# Going from line to line

The rows of a text are its lines, each with the break behind it (`Bytes.Rows`). A session comes to a row
by going to the next line, and may then do anything that leaves it on the line (`Consumes`). Wherever on
the line that ends, the line is known by its row, and the next line is the one behind the break
(`Session.At.line_eq`, `Session.At.next`). So a loop that goes on as long as there is a next line comes
to every row, in their order and once to each (`visits_rows`).
-/

namespace SpectrumTape

/-! ### Rows of a text -/

namespace Bytes

/-- The lines of a text, each with the break behind it: a text without a break is one line, and a break
at the very end opens no further line. -/
inductive Rows : Bytes → List (Bytes × Bytes) → Prop where
  | last {row : Bytes} (hrow : ∀ c ∈ row, isBreak c = false) : Rows row [(row, [])]
  | final {row brk : Bytes} (hrow : ∀ c ∈ row, isBreak c = false) (hbrk : brk ∈ breaks) :
      Rows (row ++ brk) [(row, brk)]
  | cons {row brk rest : Bytes} {rows : List (Bytes × Bytes)}
      (hrow : ∀ c ∈ row, isBreak c = false) (hbrk : brk ∈ breaks) (hends : EndsBreak brk rest)
      (hrest : rest ≠ []) (hrows : Rows rest rows) : Rows (row ++ (brk ++ rest)) ((row, brk) :: rows)

/-- Where a row begins. -/
def rowStart (rows : List (Bytes × Bytes)) (k : Nat) : Nat :=
  ((rows.take k).flatMap fun r => r.1 ++ r.2).length

theorem exists_rows (text : Bytes) : ∃ rows, Rows text rows ∧ rows.map Prod.fst = lines text := by
  induction text using lineInduction with
  | plain row hrow => exact ⟨_, .last hrow, (lines_plain hrow).symm⟩
  | cons row brk rest hrow hbrk hends ih =>
    rw [lines_break hrow hbrk hends]
    by_cases hrest : rest = []
    · subst hrest
      rw [if_pos rfl, List.append_nil]
      exact ⟨_, .final hrow hbrk, rfl⟩
    · obtain ⟨rows, hrows, hlines⟩ := ih
      rw [if_neg hrest]
      exact ⟨_, .cons hrow hbrk hends hrest hrows, congrArg (row :: ·) hlines⟩

theorem Rows.uncons {text : Bytes} {rows : List (Bytes × Bytes)} (h : Rows text rows) :
    ∃ row brk rest more, rows = (row, brk) :: more ∧ text = row ++ (brk ++ rest) ∧
      (∀ c ∈ row, isBreak c = false) ∧ (∀ c ∈ (brk ++ rest).head?, isBreak c = true) ∧
      breakLength (brk ++ rest) = brk.length ∧
      (rest = [] ∧ more = [] ∨ rest ≠ [] ∧ Rows rest more) := by
  have hhead {brk : Bytes} (hbrk : brk ∈ breaks) (rest : Bytes) :
      ∀ c ∈ (brk ++ rest).head?, isBreak c = true := by
    simp only [breaks, List.mem_cons, List.not_mem_nil, or_false] at hbrk
    rcases hbrk with rfl | rfl | rfl <;> simp [isBreak]
  cases h with
  | last hrow =>
    exact ⟨text, [], [], [], rfl, by simp, hrow, by simp, rfl, .inl ⟨rfl, rfl⟩⟩
  | @final row brk hrow hbrk =>
    exact ⟨row, brk, [], [], rfl, by rw [List.append_nil], hrow, hhead hbrk [],
      breakLength_break hbrk (by simp [EndsBreak]), .inl ⟨rfl, rfl⟩⟩
  | @cons row brk rest rows hrow hbrk hends hrest hrows =>
    exact ⟨row, brk, rest, rows, rfl, rfl, hrow, hhead hbrk rest, breakLength_break hbrk hends,
      .inr ⟨hrest, hrows⟩⟩

end Bytes

namespace Cursor

theorem State.Placed.split {source : Bytes} {s : State} (h : s.Placed source) {row tail : Bytes}
    (hdrop : source.drop s.lineStart = row ++ tail) (hrow : ∀ c ∈ row, Bytes.isBreak c = false)
    (htail : ∀ c ∈ tail.head?, Bytes.isBreak c = true) :
    s.lineEnd = s.lineStart + row.length ∧ source.drop s.lineEnd = tail := by
  have hplain {a b : Bytes} (ha : ∀ c ∈ a, Bytes.isBreak c = false)
      (hb : ∀ c ∈ b.head?, Bytes.isBreak c = true) : (a ++ b).takeWhile (!Bytes.isBreak ·) = a := by
    rw [Bytes.takeWhile_append_of_head (by simpa using hb), List.takeWhile_eq_self_iff]
    simpa using ha
  have hboth := h.drop_lineStart
  have hsame : source.extract s.lineStart s.lineEnd = row := by
    rw [← hplain h.unbroken h.ended, ← hboth, hdrop, hplain hrow htail]
  have hlength := congrArg List.length hsame
  have hlineStart := h.lineStart_le
  have hpos := h.pos_le
  have hlineEnd := h.lineEnd_le
  rw [List.extract_eq_take_drop, List.length_take, List.length_drop] at hlength
  rw [hsame, hdrop] at hboth
  exact ⟨by omega, (List.append_cancel_left hboth).symm⟩

namespace Session

/-! ### Rounds of a loop -/

/-- A session goes on by one operation, and stays on the line. -/
def LineStep (source : Bytes) (s s' : Session) : Prop :=
  Step source s s' ∧ s'.cursor.state.lineStart = s.cursor.state.lineStart

/-- A session goes on by any operations, and stays on the line with each. -/
def Consumes (source : Bytes) : Session → Session → Prop := Relation.ReflTransGen (LineStep source)

/-- A session that has come to the line with number `k`: at the start to the first one, and then to
another one as long as there is a next line. -/
inductive Comes (source : Bytes) : Nat → Session → Prop where
  | start : Comes source 0 (start source)
  | next {k : Nat} {s d : Session} (hcomes : Comes source k s) (hconsumes : Consumes source s d)
      (hmore : (d.step .nextLine).1 = .bool true) : Comes source (k + 1) (d.after (.command .nextLine))

/-- What a loop finds on its way: for each round what is said of the line, and the number of it. -/
inductive Visits (source : Bytes) : Session → List (Answer × Nat) → Prop where
  | last {s d : Session} (hconsumes : Consumes source s d)
      (hend : (d.step .nextLine).1 = .bool false) :
      Visits source s [((d.step .line).1, d.cursor.state.lineNumber)]
  | next {s d : Session} {visited : List (Answer × Nat)} (hconsumes : Consumes source s d)
      (hmore : (d.step .nextLine).1 = .bool true)
      (hrest : Visits source (d.after (.command .nextLine)) visited) :
      Visits source s (((d.step .line).1, d.cursor.state.lineNumber) :: visited)

variable {source : Bytes} {rows : List (Bytes × Bytes)} {k : Nat} {s d : Session}

/-- A session is on the line of a row. -/
structure At (source : Bytes) (rows : List (Bytes × Bytes)) (k : Nat) (s : Session) : Prop where
  placed : s.Placed source
  lineStart : s.cursor.state.lineStart = Bytes.rowStart rows k
  rows : Bytes.Rows (source.drop s.cursor.state.lineStart) (rows.drop k)
  lineNumber : s.cursor.state.lineNumber = k

theorem at_start (hrows : Bytes.Rows source rows) : (start source).At source rows 0 := by
  obtain ⟨-, hline, -, hnumber⟩ := settle_state { Cursor.ofBytes source with stopAtLineEnd := true }
  have hstart : (start source).cursor.state.lineStart = 0 := hline
  exact ⟨placed_start source, hstart, by rw [hstart]; exact hrows, hnumber⟩

theorem At.consumes (h : s.At source rows k) (hconsumes : Consumes source s d) :
    d.At source rows k := by
  induction hconsumes with
  | refl => exact h
  | tail _ hstep ih =>
    obtain ⟨⟨o, ho, rfl⟩, hline⟩ := hstep
    have hplaced := ih.placed.after ho
    refine ⟨hplaced, hline.trans ih.lineStart, by rw [hline]; exact ih.rows, ?_⟩
    rw [hplaced.states.1.lineNumber, hline, ← ih.placed.states.1.lineNumber, ih.lineNumber]

/-- The line of a session is its row, and there is a next line exactly if there is a next row, which
is then the one that the next line is at. -/
theorem At.row (h : s.At source rows k) :
    ∃ row brk, rows[k]? = some (row, brk) ∧
      (s.step .line).1 = .pair (Bytes.rowStart rows k) (Bytes.rowStart rows k + row.length : Nat) ∧
      (s.step .nextLine).1 = .bool (decide (k + 1 < rows.length)) ∧
      (k + 1 < rows.length → (s.after (.command .nextLine)).At source rows (k + 1)) := by
  have hplaced := h.placed.cursor
  obtain ⟨row, brk, rest, more, hdrop, htext, hrow, hhead, hsize, hmore⟩ := h.rows.uncons
  obtain ⟨hlineEnd, hbehind⟩ := hplaced.state.split htext hrow hhead
  have hget : rows[k]? = some (row, brk) := by
    rw [← Nat.add_zero k, ← List.getElem?_drop, hdrop]
    rfl
  have hmoreDrop : more = rows.drop (k + 1) := by
    rw [← List.drop_drop, hdrop]
    rfl
  have hnext : Bytes.rowStart rows (k + 1) = Bytes.rowStart rows k + (row.length + brk.length) := by
    simp [Bytes.rowStart, List.take_add_one, hget]
  obtain ⟨hanswer, hplaced', -, hline', -⟩ := hplaced.nextLine_eq
  obtain ⟨-, -, hcount⟩ := hplaced.state.opensNext
  rw [hbehind, hsize] at hanswer hline' hcount
  have hlength := congrArg List.length htext
  simp only [List.length_drop, List.length_append] at hlength
  have hlast : k + 1 < rows.length ↔ rest ≠ [] := by
    rw [← not_le, ← List.drop_eq_nil_iff, ← hmoreDrop]
    rcases hmore with ⟨hrest, hnone⟩ | ⟨hrest, hrows⟩
    · simp [hrest, hnone]
    · obtain ⟨first, _, _, others, rfl, -⟩ := hrows.uncons
      simp [hrest]
  refine ⟨row, brk, hget, ?_, ?_, fun hk => ?_⟩
  · show Answer.pair (s.cursor.findLineEnd.state.lineStart) (s.cursor.findLineEnd.state.lineEnd) = _
    rw [hplaced.findLineEnd_eq, hlineEnd, h.lineStart]
  · show Answer.bool s.cursor.nextLine.1 = _
    rw [hanswer]
    refine congrArg Answer.bool (decide_eq_decide.mpr ?_)
    rw [hlast, hlineEnd, ← List.length_pos_iff]
    omega
  · have hrest := hlast.mp hk
    have hrows := hmore.resolve_left fun h => hrest h.1
    have hpos : brk.length ≠ 0 := by
      rw [← hsize]
      exact Nat.ne_of_gt (Bytes.breakLength_pos (by simp [hrest]) hhead)
    have hstart : (s.after (.command .nextLine)).cursor.state.lineStart =
        s.cursor.state.lineStart + (row.length + brk.length) := by
      rw [← Nat.add_assoc, ← hlineEnd]
      exact hline'
    refine ⟨h.placed.after trivial, ?_, ?_, ?_⟩
    · rw [hstart, hnext, h.lineStart]
    · rw [hstart, ← List.drop_drop, htext, ← List.append_assoc, ← List.length_append, List.drop_left,
        ← hmoreDrop]
      exact hrows.2
    · have hnumber : (s.after (.command .nextLine)).cursor.state.lineNumber = _ :=
        hplaced'.state.lineNumber
      rw [hnumber, hline', hcount, if_neg hpos, h.lineNumber]

theorem Comes.at (hrows : Bytes.Rows source rows) (h : Comes source k s) : s.At source rows k := by
  induction h with
  | start => exact at_start hrows
  | next _ hconsumes hmore ih =>
    obtain ⟨row, brk, -, -, hanswer, hnext⟩ := (ih.consumes hconsumes).row
    rw [hanswer] at hmore
    refine hnext ?_
    simpa using hmore

theorem At.visits {visited : List (Answer × Nat)} (h : s.At source rows k)
    (hvisits : Visits source s visited) :
    visited = ((rows.drop k).zipIdx k).map fun r =>
      (.pair (Bytes.rowStart rows r.2) (Bytes.rowStart rows r.2 + r.1.1.length : Nat), r.2) := by
  induction hvisits generalizing k with
  | last hconsumes hend =>
    have hat := h.consumes hconsumes
    obtain ⟨row, brk, hget, hline, hanswer, -⟩ := hat.row
    rw [hanswer] at hend
    have hlast : rows.drop k = [(row, brk)] := by
      obtain ⟨hk, hrow⟩ := List.getElem?_eq_some_iff.mp hget
      rw [List.drop_eq_getElem_cons hk, hrow, List.drop_eq_nil_of_le (by simpa using hend)]
    rw [hlast, hline, hat.lineNumber]
    rfl
  | next hconsumes hmore _ ih =>
    have hat := h.consumes hconsumes
    obtain ⟨row, brk, hget, hline, hanswer, hnext⟩ := hat.row
    rw [hanswer] at hmore
    obtain ⟨hk, hrow⟩ := List.getElem?_eq_some_iff.mp hget
    rw [ih (hnext (by simpa using hmore)), hline, hat.lineNumber, List.drop_eq_getElem_cons hk, hrow]
    rfl

theorem At.exists_visits (h : s.At source rows k) : ∃ visited, Visits source s visited := by
  induction hleft : rows.length - k generalizing k s with
  | zero =>
    obtain ⟨row, brk, hget, -, hanswer, -⟩ := h.row
    have hk := (List.getElem?_eq_some_iff.mp hget).1
    omega
  | succ left ih =>
    obtain ⟨row, brk, -, -, hanswer, hnext⟩ := h.row
    by_cases hk : k + 1 < rows.length
    · rw [decide_eq_true hk] at hanswer
      obtain ⟨visited, hvisits⟩ := ih (hnext hk) (by omega)
      exact ⟨_, .next .refl hanswer hvisits⟩
    · rw [decide_eq_false hk] at hanswer
      exact ⟨_, .last .refl hanswer⟩

end Session

/-- **A loop over lines comes to every line of the source, in their order and once to each.** However
the session went on in the lines before, and wherever in its line it stands, the line is that of its row
and has its number, and there is a next line exactly if there is a next row. So a loop that goes on as
long as there is a next line finds the rows of the source. -/
theorem visits_rows (source : Bytes) :
    ∃ rows, Bytes.Rows source rows ∧ rows.map Prod.fst = source.lines ∧
      (∀ k s d, Session.Comes source k s → Session.Consumes source s d →
        ∃ row brk, rows[k]? = some (row, brk) ∧
          (d.step .line).1 =
            .pair (Bytes.rowStart rows k) (Bytes.rowStart rows k + row.length : Nat) ∧
          d.cursor.state.lineNumber = k ∧
          (d.step .nextLine).1 = .bool (decide (k + 1 < rows.length))) ∧
      (∃ visited, Session.Visits source (Session.start source) visited) ∧
      ∀ visited, Session.Visits source (Session.start source) visited →
        visited = rows.zipIdx.map fun r =>
          (.pair (Bytes.rowStart rows r.2) (Bytes.rowStart rows r.2 + r.1.1.length : Nat), r.2) := by
  obtain ⟨rows, hrows, hlines⟩ := Bytes.exists_rows source
  have hstart := Session.at_start hrows
  refine ⟨rows, hrows, hlines, fun k s d hcomes hconsumes => ?_, hstart.exists_visits,
    fun visited hvisits => ?_⟩
  · have hat := (hcomes.at hrows).consumes hconsumes
    obtain ⟨row, brk, hget, hline, hanswer, -⟩ := hat.row
    exact ⟨row, brk, hget, hline, hat.lineNumber, hanswer⟩
  · exact hstart.visits hvisits

/-- A line with two bytes behind it for its break, an empty one, and one whose break ends the text. -/
def mixedBreaks : Bytes := "a\r\n\rbc\n"

/-- A session that goes to the last line from the middle of the first one, and about there. -/
def wanderingSession : Session :=
  [Command.take, .nextLine, .isEnd, .nextLine, .skipWhile .alpha, .move (-1)].foldl
    (fun s command => s.after (.command command)) (Session.start mixedBreaks)

theorem visits_rows_mixedBreaks :
    wanderingSession.cursor.state.pos = 5 ∧ wanderingSession.cursor.state.lineNumber = 2 ∧
      (wanderingSession.step .nextLine).1 = .bool false ∧
      ∃ start : Nat, (wanderingSession.step .line).1 = .pair start (start + 2 : Nat) := by
  have htake : Session.LineStep mixedBreaks (Session.start mixedBreaks) _ :=
    ⟨⟨.command .take, trivial, rfl⟩, by decide +kernel⟩
  have hfirst := Session.Comes.start.next (.single htake) (by decide +kernel)
  have hsecond := hfirst.next (.single ⟨⟨.command .isEnd, trivial, rfl⟩, by decide +kernel⟩)
    (by decide +kernel)
  have hconsumes : Session.Consumes mixedBreaks _ wanderingSession :=
    .tail (.single ⟨⟨.command (.skipWhile .alpha), trivial, rfl⟩, by decide +kernel⟩)
      ⟨⟨.command (.move (-1)), trivial, rfl⟩, by decide +kernel⟩
  obtain ⟨rows, -, hlines, hrounds, -⟩ := visits_rows mixedBreaks
  obtain ⟨row, brk, hget, hline, hnumber, hnext⟩ := hrounds 2 _ _ hsecond hconsumes
  have htexts : mixedBreaks.lines = (["a", "", "bc"] : List Bytes) := by decide +kernel
  rw [htexts] at hlines
  have hrow : row = "bc" := by
    have hthird := congrArg (·[2]?) hlines
    simpa [hget] using hthird
  have hlength : rows.length = 3 := by simpa using congrArg List.length hlines
  refine ⟨by decide +kernel, hnumber, by rw [hnext, hlength]; rfl,
    Bytes.rowStart rows 2, ?_⟩
  rw [hline, hrow]
  rfl

end Cursor

end SpectrumTape
