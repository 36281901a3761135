import SpectrumTape.Proofs.Basic.Reads
import SpectrumTape.Proofs.Vocabulary

/-!
# Literals along a cursor

Numbers and strings are read along a cursor as they are read from the rest of a line: the same bytes
are passed, and the token or the fault is the same (`reads_number`, `reads_string`).
-/

namespace SpectrumTape

/-! ### The items from a place on -/

namespace Place

open Basic

def items (v : Vocabulary) (mode : Mode) (p : Place) : List Item :=
  Lexer.lexFrom v mode p.line p.column p.here p.later

/-- The items of the logical lines behind the line of a place. -/
def behind (v : Vocabulary) (p : Place) : List Item :=
  match p.later with
  | [] => []
  | next :: later => items v (.statement true) ⟨p.line + 1, 1, next, later, []⟩

/-- The items from the next line on if it is joined to the line of a place. -/
def joined (v : Vocabulary) (mode : Mode) (p : Place) : List Item :=
  match p.later with
  | [] => [p.item .lineEnd]
  | next :: later => items v mode ⟨p.line + 1, 1, next, later, []⟩

/-- The items from a place on whose first step is given. -/
def follow (v : Vocabulary) (p : Place) (s : Step) : List Item :=
  Lexer.Step.items s p.line p.column ++
    match s.next with
    | .stop => []
    | .advance more mode => if p.here = [] then [] else (p.forward (more + 1)).items v mode
    | .join mode => p.joined v mode
    | .newLine => p.behind v

/-- The items from a place on where a literal has just been read. -/
def result {β : Type} (v : Vocabulary) (token : β → Token) (p : Place) :
    Except Cause β → List Item
  | .ok b => p.item (token b) :: p.items v (.statement false)
  | .error cause => [p.item (.fault cause)]

variable {v : Vocabulary} {mode : Mode} {p q : Place}

theorem items_eq (v : Vocabulary) (mode : Mode) (p : Place) :
    p.items v mode = p.follow v (Lexer.step v mode p.here) := by
  rw [items, Lexer.lexFrom.eq_def, follow]
  congr 1

theorem follow_fail (offset : Nat) (cause : Cause) :
    p.follow v (.fail offset cause) = [(p.forward offset).item (.fault cause)] := rfl

theorem follow_endLine : p.follow v Lexer.endLine = p.item .lineEnd :: p.behind v := rfl

theorem follow_read {size : Nat} {tokens : List Token} (hsize : 0 < size) (hhere : p.here ≠ []) :
    p.follow v (.read size tokens mode) =
      tokens.map (p.forward size).item ++ (p.forward size).items v mode := by
  obtain ⟨more, rfl⟩ : ∃ more, size = more + 1 := ⟨size - 1, by omega⟩
  simp only [follow, Step.read, Lexer.Step.items, Nat.add_sub_cancel, if_neg hhere, List.map_map]
  rfl

theorem follow_ofRead {β : Type} {before : Nat} {token : β → Token} {r : Read β} (hhere : p.here ≠ [])
    (hsize : ∀ b, r.result = .ok b → 0 < before + r.size) :
    p.follow v (.ofRead before token r) =
      (p.forward (before + r.size)).result v token r.result := by
  unfold Step.ofRead
  cases hresult : r.result with
  | ok b => exact follow_read (hsize b hresult) hhere
  | error cause => rfl

-- What was captured is of no account for the items: places that agree up to it have the same ones.
theorem items_congr (h : q.mark = p.mark) (v : Vocabulary) (mode : Mode) :
    q.items v mode = p.items v mode := by
  show q.mark.items v mode = p.mark.items v mode
  rw [h]

theorem result_congr {β : Type} (h : q.mark = p.mark) (v : Vocabulary) (token : β → Token)
    (r : Except Cause β) : q.result v token r = p.result v token r := by
  have hmark : ∀ p : Place, p.mark.result v token r = p.result v token r := by
    intro p
    cases r <;> rfl
  rw [← hmark q, h, hmark]

theorem forward_congr (h : q.mark = p.mark) (n : Nat) : (q.forward n).mark = (p.forward n).mark := by
  show (q.mark.forward n).mark = (p.mark.forward n).mark
  rw [h]

theorem left_congr (h : q.mark = p.mark) : q.left = p.left := by
  show q.mark.left = p.mark.left
  rw [h]

theorem left_forward_le (p : Place) (n : Nat) : (p.forward n).left ≤ p.left := by
  simp only [left, forward, List.length_drop]
  omega

theorem left_forward_lt {n : Nat} (hn : 0 < n) (hhere : p.here ≠ []) :
    (p.forward n).left < p.left := by
  have hlength := List.length_pos_iff.mpr hhere
  simp only [left, forward, List.length_drop]
  omega

end Place

namespace Basic

variable {σ β : Type} {pass : Pass σ} {source : Bytes} {v : Vocabulary} {p : Place} {items : List Item}

theorem lt_length_of_getD {s : Bytes} {n : Nat} (h : s.getD n 0 ≠ 0) : n < s.length := by
  by_contra hn
  rw [List.getD_eq_getElem?_getD, List.getElem?_eq_none (by omega)] at h
  exact h rfl

/-- The items that are left at the end of a line. -/
def AtLineEnd (v : Vocabulary) (p : Place) (items : List Item) : Prop :=
  p.here = [] ∧ ∃ line column, items = ⟨line, column, .lineEnd⟩ :: p.behind v

/-- The items to come in a mode. A line that was to be joined to the last one of the source is empty,
and its end has the place of the line escape. -/
def Pending (v : Vocabulary) (mode : Mode) (p : Place) (items : List Item) : Prop :=
  items = p.items v mode ∨ AtLineEnd v p items

theorem Pending.atLineEnd {mode : Mode} (h : Pending v mode p items) (hhere : p.here = []) :
    AtLineEnd v p items := by
  rcases h with rfl | h
  · refine ⟨hhere, p.line, p.column, ?_⟩
    rw [Place.items_eq, hhere]
    cases mode <;> rfl
  · exact h

theorem Pending.eq_follow {mode : Mode} (h : Pending v mode p items) (hhere : p.here ≠ []) :
    items = p.follow v (Lexer.step v mode p.here) := by
  rcases h with rfl | h
  · exact p.items_eq v mode
  · exact absurd h.1 hhere

/-- The walk has got on from `p`, and the items to come are those of a mode. -/
def Further (v : Vocabulary) (mode : Mode) (p q : Place) (rest : List Item) : Prop :=
  Pending v mode q rest ∧ q.left < p.left

/-- The walk is behind a literal that was read from the rest of the line at `p`. -/
def Past (v : Vocabulary) (p : Place) (r : Read β) (q : Place) (rest : List Item) : Prop :=
  q.mark = (p.forward r.size).mark ∧ rest = q.items v (.statement false) ∧ ∃ b, r.result = .ok b

theorem reads_handResult {token : β → Token} {q : Place} (r : Read β)
    (hq : q.mark = (p.forward r.size).mark) :
    Reads pass source (Reading.handResult pass token r.result) q
      ((p.forward r.size).result v token r.result) fun _ => Past v p r := by
  rw [← Place.result_congr hq]
  cases hresult : r.result with
  | error cause => exact reads_fail
  | ok b =>
    refine reads_hand.mono fun _ q' rest h => ?_
    obtain ⟨rfl, rfl⟩ := h
    exact ⟨hq, rfl, b, hresult⟩

/-! ### Numbers -/

namespace Literal

theorem take_runLength (q : UInt8 → Bool) (s : Bytes) : s.take (runLength q s) = s.takeWhile q :=
  (List.prefix_iff_eq_take.mp (List.takeWhile_prefix q)).symm

theorem runLength_pos {q : UInt8 → Bool} {s rest : Bytes} {b : UInt8} (hs : s = b :: rest)
    (hb : q b = true) : 0 < runLength q s := by
  simp [runLength, hs, hb]

theorem drop_runLength (q : UInt8 → Bool) (s : Bytes) : s.drop (runLength q s) = s.dropWhile q :=
  calc s.drop (runLength q s)
      = (s.takeWhile q ++ s.dropWhile q).drop (s.takeWhile q).length := by
        rw [List.takeWhile_append_dropWhile]
        rfl
    _ = s.dropWhile q := List.drop_left

end Literal

theorem toLower_beq {letter : UInt8} (h : letter ∈ [0x62, 0x65, 0x78]) (c : UInt8) :
    (Ascii.toLower c == letter) = (c == letter || c == letter - 0x20) := by
  have hall : ∀ letter ∈ [(0x62 : UInt8), 0x65, 0x78], ∀ n : Fin 256,
      (Ascii.toLower (.ofFin n) == letter) = (.ofFin n == letter || .ofFin n == letter - 0x20) := by
    decide +kernel
  exact hall letter h c.toFin

theorem reads_digits {base skipped : Nat} {isDigit : UInt8 → Bool} {empty large : Cause} :
    let r := Literal.readDigits base isDigit empty large skipped p.here
    Reads pass source (Reading.digits pass base isDigit empty large) (p.forward skipped)
      ((p.forward r.size).result v .number r.result) fun _ => Past v p r := by
  intro r
  have hcaptured : ((p.forward skipped).mark.forward
      (Literal.runLength isDigit (p.forward skipped).here)).captured =
      (p.here.drop skipped).takeWhile isDigit := Literal.take_runLength isDigit _
  refine gives_resetCapture.then ((gives_skipWhile isDigit).then (gives_captured.then ?_))
  show Reads pass source (Reading.handResult pass .number (Literal.numberOfDigits base
    ((p.forward skipped).mark.forward (Literal.runLength isDigit (p.forward skipped).here)).captured
    empty large)) _ _ _
  rw [hcaptured]
  refine reads_handResult r ?_
  show ((p.forward skipped).forward (Literal.runLength isDigit (p.forward skipped).here)).mark = _
  rw [Place.forward_forward]
  rfl

theorem gives_skipWhole :
    Gives source (Reading.skipWhole (p.here.getD 0 0) : Reading σ Unit) p ()
      (p.forward (Literal.runLength Ascii.isDigit p.here)) := by
  unfold Reading.skipWhole
  split_ifs with hpoint
  · have hzero : Literal.runLength Ascii.isDigit p.here = 0 := by
      cases hhere : p.here with
      | nil => rfl
      | cons b rest =>
        obtain rfl : b = 0x2E := by simpa [hhere] using hpoint
        rfl
    rw [hzero, Place.forward_zero]
    exact gives_pure ()
  · exact gives_skipWhile _

theorem gives_skipFraction :
    Gives source (Reading.skipFraction : Reading σ Unit) p ()
      (p.forward (Literal.fractionLength p.here)) := by
  refine (gives_byteAt 0).bind ?_
  split_ifs with hpoint
  · obtain ⟨rest, hhere⟩ : ∃ rest, p.here = 0x2E :: rest := by
      cases hhere : p.here with
      | nil => simp [hhere] at hpoint
      | cons b rest => exact ⟨rest, by simpa [hhere] using hpoint⟩
    have hrest : (p.forward 1).here = rest := by simp [Place.forward, hhere]
    have hlength : Literal.fractionLength p.here = 1 + Literal.runLength Ascii.isDigit rest := by
      rw [hhere]
      rfl
    refine (gives_move (n := 1) (by simp [hhere])).bind ?_
    rw [hlength, ← Place.forward_forward, ← hrest]
    exact gives_skipWhile _
  · have hlength : Literal.fractionLength p.here = 0 := by
      unfold Literal.fractionLength
      split
      · rename_i hhere
        simp [hhere] at hpoint
      · rfl
    rw [hlength, Place.forward_zero]
    exact gives_pure ()

theorem runLength_isDigit_eq_zero_iff (s : Bytes) :
    Literal.runLength Ascii.isDigit s = 0 ↔ ¬Ascii.isDigit (s.getD 0 0) = true := by
  cases s with
  | nil => decide
  | cons b s =>
    by_cases hb : Ascii.isDigit b = true <;> simp [Literal.runLength, hb]

theorem exponentLength_eq (s : Bytes) :
    Literal.exponentLength s =
      let e := s.getD 0 0
      let offset := if s.getD 1 0 == 0x2B || s.getD 1 0 == 0x2D then 2 else 1
      if e == 0x65 || e == 0x45 then
        if Ascii.isDigit (s.getD offset 0) then
          offset + Literal.runLength Ascii.isDigit (s.drop offset)
        else 0
      else 0 := by
  cases s with
  | nil => rfl
  | cons e rest =>
    have he : (Ascii.toLower e == 0x65) = (e == 0x65 || e == 0x45) := toLower_beq (by decide) e
    simp only [Literal.exponentLength, he, List.getD_cons_zero, List.getD_cons_succ]
    congr 1
    cases rest with
    | nil => rfl
    | cons c rest =>
      have hoffset : (if c == 0x2B || c == 0x2D then 2 else 1) =
          1 + (if c == 0x2B || c == 0x2D then 1 else 0) := by
        split_ifs <;> rfl
      rw [List.getD_cons_zero, hoffset]
      dsimp only
      generalize (if c == 0x2B || c == 0x2D then 1 else 0) = signed
      have hget : (e :: c :: rest).getD (1 + signed) 0 = ((c :: rest).drop signed).getD 0 0 := by
        simp [Nat.add_comm 1, List.getD_eq_getElem?_getD]
      have hdrop : (e :: c :: rest).drop (1 + signed) = (c :: rest).drop signed := by
        simp [Nat.add_comm 1]
      rw [hget, hdrop]
      generalize (c :: rest).drop signed = digits
      have hzero := runLength_isDigit_eq_zero_iff digits
      split
      · rename_i hnone
        rw [if_neg (hzero.mp hnone)]
      · rename_i n hsome
        rw [if_pos (by_contra fun hdigit => by have := hzero.mpr hdigit; omega), hsome]

theorem gives_skipExponent :
    Gives source (Reading.skipExponent : Reading σ Unit) p ()
      (p.forward (Literal.exponentLength p.here)) := by
  have hlength := exponentLength_eq p.here
  dsimp only at hlength
  refine (gives_byteAt 0).bind ?_
  split_ifs with hletter
  · rw [if_pos hletter] at hlength
    refine (gives_byteAt 1).bind ((gives_byteAt _).bind ?_)
    generalize (if p.here.getD 1 0 == 0x2B || p.here.getD 1 0 == 0x2D then 2 else 1) = offset
      at hlength ⊢
    split_ifs with hdigit
    · have hoffset : offset < p.here.length := by
        refine lt_length_of_getD fun hzero => ?_
        rw [hzero] at hdigit
        exact absurd hdigit (by decide)
      rw [if_pos hdigit] at hlength
      rw [hlength, ← Place.forward_forward]
      exact (gives_move (Nat.le_of_lt hoffset)).bind (gives_skipWhile _)
    · rw [if_neg hdigit] at hlength
      rw [hlength, Place.forward_zero]
      exact gives_pure ()
  · rw [if_neg hletter] at hlength
    rw [hlength, Place.forward_zero]
    exact gives_pure ()

theorem reads_decimal :
    let r := Literal.readDecimal p.here
    Reads pass source (Reading.decimal pass (p.here.getD 0 0)) p
      ((p.forward r.size).result v .number r.result) fun _ => Past v p r := by
  intro r
  refine gives_resetCapture.then ((gives_skipWhole (p := p.mark)).then (gives_skipFraction.then ?_))
  rw [Place.forward_forward]
  refine gives_skipExponent.then ?_
  rw [Place.forward_forward]
  exact gives_captured.then (reads_handResult r rfl)

theorem reads_number_past (binary : Bool) :
    let r := Literal.readNumber binary p.here
    Reads pass source (Reading.number pass binary) p
      ((p.forward r.size).result v .number r.result) fun _ => Past v p r := by
  intro r
  have hr : r = Literal.readNumber binary p.here := rfl
  have hzero : (p.here.head? == some 0x30) = (p.here.getD 0 0 == 0x30) := by
    cases p.here <;> rfl
  have hmark : (p.here.drop 1).head?.getD 0 = p.here.getD 1 0 := by
    rcases p.here with _ | ⟨a, _ | ⟨b, rest⟩⟩ <;> rfl
  have hx : (Ascii.toLower (p.here.getD 1 0) == 0x78) =
      (p.here.getD 1 0 == 0x78 || p.here.getD 1 0 == 0x58) := toLower_beq (by decide) _
  have hb : (Ascii.toLower (p.here.getD 1 0) == 0x62) =
      (p.here.getD 1 0 == 0x62 || p.here.getD 1 0 == 0x42) := toLower_beq (by decide) _
  -- The mark of a base is a byte of the line, so the cursor can move behind it.
  have hmove : p.here.getD 1 0 ≠ 0 → 2 ≤ p.here.length := lt_length_of_getD
  simp only [Literal.readNumber, hzero, hmark, hx, hb] at hr
  refine (gives_byteAt 0).then ?_
  by_cases hbase : (p.here.getD 0 0 == 0x30 || binary) = true
  · rw [hbase, Bool.true_and] at hr
    rw [if_pos hbase]
    refine (gives_byteAt 1).then ?_
    split_ifs with hhex hbinary hdefault
    · rw [if_pos hhex] at hr
      rw [hr]
      refine (gives_move (hmove ?_)).then reads_digits
      rintro hnone
      rw [hnone] at hhex
      exact absurd hhex (by decide)
    · rw [if_neg hhex, if_pos hbinary] at hr
      rw [hr]
      refine (gives_move (hmove ?_)).then reads_digits
      rintro hnone
      rw [hnone, Bool.and_eq_true] at hbinary
      exact absurd hbinary.2 (by decide)
    · rw [if_neg hhex, if_neg hbinary, if_pos hdefault] at hr
      rw [hr]
      exact p.forward_zero ▸ reads_digits
    · rw [if_neg hhex, if_neg hbinary, if_neg hdefault] at hr
      rw [hr]
      exact reads_decimal
  · have hdecimal : r = Literal.readDecimal p.here := by
      rw [Bool.not_eq_true, Bool.or_eq_false_iff] at hbase
      simpa only [hbase, Bool.or_self, Bool.false_and, Bool.false_eq_true, if_false] using hr
    rw [if_neg hbase, hdecimal]
    exact reads_decimal

theorem readDigits_pos {base skipped : Nat} {isDigit : UInt8 → Bool} {empty large : Cause} {s : Bytes}
    {n : Number} (h : (Literal.readDigits base isDigit empty large skipped s).result = .ok n) :
    0 < (Literal.readDigits base isDigit empty large skipped s).size ∧ s ≠ [] := by
  have hdigits : (s.drop skipped).takeWhile isDigit ≠ [] := by
    intro hnone
    simp [Literal.readDigits, Literal.numberOfDigits, hnone] at h
  have hlength := List.length_pos_iff.mpr hdigits
  refine ⟨Nat.add_pos_right _ hlength, ?_⟩
  rintro rfl
  simp at hdigits

theorem readDecimal_pos {s : Bytes} {n : Number} (h : (Literal.readDecimal s).result = .ok n) :
    0 < (Literal.readDecimal s).size ∧ s ≠ [] := by
  have htext : s.take (Literal.readDecimal s).size ≠ [] := by
    intro hnone
    simp only [Literal.readDecimal] at h hnone
    simp [Literal.numberOfText, hnone] at h
  constructor
  · refine Nat.pos_of_ne_zero fun hzero => ?_
    simp [hzero] at htext
  · rintro rfl
    simp at htext

theorem readNumber_pos {binary : Bool} {s : Bytes} {n : Number}
    (h : (Literal.readNumber binary s).result = .ok n) :
    0 < (Literal.readNumber binary s).size ∧ s ≠ [] := by
  unfold Literal.readNumber at h ⊢
  dsimp only at h ⊢
  split_ifs at h ⊢
  · exact readDigits_pos h
  · exact readDigits_pos h
  · exact readDigits_pos h
  · exact readDecimal_pos h

theorem reads_number (binary : Bool) :
    let r := Literal.readNumber binary p.here
    Reads pass source (Reading.number pass binary) p
      ((p.forward r.size).result v .number r.result) fun _ => Further v (.statement false) p := by
  intro r
  refine (reads_number_past binary).mono fun _ q rest h => ?_
  obtain ⟨hq, hrest, n, hresult⟩ := h
  obtain ⟨hsize, hhere⟩ := readNumber_pos hresult
  refine ⟨.inl hrest, ?_⟩
  rw [Place.left_congr hq]
  exact Place.left_forward_lt hsize hhere

/-! ### Strings -/

theorem stringFrom_skip (v : Vocabulary) (size skip : Nat) (done : Bytes) {s : Bytes}
    (h : skip ≤ s.length) :
    Literal.stringFrom v size skip done s =
      Literal.stringFrom v (size + skip) 0 done (s.drop skip) := by
  induction skip generalizing size s with
  | zero => rfl
  | succ skip ih =>
    cases s with
    | nil => cases h
    | cons b s =>
      rw [Literal.stringFrom, ih (size + 1) (Nat.le_of_succ_le_succ h), Nat.add_assoc,
        Nat.add_comm 1 skip, List.drop_succ_cons]

/-- The walk is in a string that began at `p`: the items are those of a string of which `done` and
what was captured have been read. -/
def InString (v : Vocabulary) (p : Place) (done : Bytes) (q : Place) (items : List Item) : Prop :=
  ∃ n, q.mark = (p.forward n).mark ∧
    let r := Literal.stringFrom v n 0 (done ++ q.captured).reverse q.here
    items = (p.forward r.size).result v .string r.result

/-- The walk has passed the quote that ends a string. -/
def BehindString (v : Vocabulary) (done : Bytes) (q : Place) (items : List Item) : Prop :=
  ∃ before, q.captured = before ++ [Ascii.quote] ∧
    items = q.result v .string (.ok (done ++ before))

theorem reads_stringRound {done : Bytes} {q : Place} {items : List Item}
    (h : InString v p done q items) :
    Reads pass source (Reading.stringRound v pass done) q items
      (Round (InString v p) (BehindString v) q) := by
  obtain ⟨n, hq, rfl⟩ := h
  have hforward : ∀ m, (q.forward m).mark = (p.forward (n + m)).mark := by
    intro m
    rw [Place.forward_congr hq, Place.forward_forward]
  refine gives_isEnd.then ?_
  cases hhere : q.here with
  | nil =>
    simp only [List.isEmpty_nil, if_true, Literal.stringFrom]
    rw [← Place.result_congr hq]
    exact reads_fail
  | cons b rest =>
    have hrest : (q.forward 1).here = rest := by simp [Place.forward, hhere]
    have hcaptured : (q.forward 1).captured = q.captured ++ [b] := by simp [Place.forward, hhere]
    have hleft : (q.forward 1).left < q.left := Place.left_forward_lt (by omega) (by simp [hhere])
    simp only [List.isEmpty_cons, Bool.false_eq_true, if_false]
    refine (gives_take_cons hhere).then ?_
    split_ifs with hquote hbackslash
    · obtain rfl : b = Ascii.quote := beq_iff_eq.mp hquote
      refine gives_isEnd.then ((gives_byteAt 0).then ?_)
      rw [hrest]
      by_cases hdouble : rest.head? = some Ascii.quote
      · obtain ⟨more, rfl⟩ : ∃ more, rest = Ascii.quote :: more := by
          cases rest with
          | nil => cases hdouble
          | cons d more => exact ⟨more, by cases hdouble; rfl⟩
        have hstring : Literal.stringFrom v n 0 (done ++ q.captured).reverse
            (Ascii.quote :: Ascii.quote :: more) = Literal.stringFrom v (n + 2) 0
              (Ascii.quote :: Ascii.quote :: (done ++ q.captured).reverse) more := rfl
        rw [if_pos (by simp), hstring]
        refine (gives_move (n := 1) (by simp [hrest])).then ?_
        rw [Place.forward_forward]
        refine reads_pure ⟨⟨n + 2, hforward 2, ?_⟩, ?_⟩
        · simp [Place.forward, hhere]
        · exact Place.left_forward_lt (by omega) (by simp [hhere])
      · have hstring : Literal.stringFrom v n 0 (done ++ q.captured).reverse (Ascii.quote :: rest) =
            ⟨n + 1, .ok (done ++ q.captured)⟩ := by
          simp [Literal.stringFrom, hdouble]
        rw [if_neg ?_, hstring]
        · exact reads_pure
            ⟨⟨q.captured, hcaptured, (Place.result_congr (hforward 1) ..).symm⟩, Nat.le_of_lt hleft⟩
        · cases rest with
          | nil => simp
          | cons d more => simpa using hdouble
    · obtain rfl : b = Ascii.backslash := beq_iff_eq.mp hbackslash
      refine gives_rest.then ?_
      rw [hrest]
      cases hfound : v.findEscape? rest with
      | none =>
        have hstring : Literal.stringFrom v n 0 (done ++ q.captured).reverse
            (Ascii.backslash :: rest) = ⟨n + 1, .error .stringEscape⟩ := by
          simp [Literal.stringFrom, hquote, hfound]
        rw [hstring, ← Place.result_congr (hforward 1)]
        exact reads_fail
      | some found =>
        have hsize := Vocabulary.findEscape?_bounds hfound
        have hstring : Literal.stringFrom v n 0 (done ++ q.captured).reverse
            (Ascii.backslash :: rest) = Literal.stringFrom v (n + (1 + found.size)) 0
              (found.code :: (done ++ q.captured).reverse) (rest.drop found.size) := by
          rw [← Nat.add_assoc, ← stringFrom_skip v _ _ _ hsize]
          simp [Literal.stringFrom, hquote, hfound]
        rw [hstring]
        refine (gives_capturedBefore hcaptured).then ((gives_move (hrest ▸ hsize)).then ?_)
        rw [Place.forward_forward]
        refine gives_resetCapture.then ?_
        refine reads_pure ⟨⟨n + (1 + found.size), hforward _, ?_⟩, ?_⟩
        · simp [Place.forward, Place.mark, hhere, Nat.add_comm 1]
        · exact Place.left_forward_lt (by omega) (by simp [hhere])
    · refine reads_pure ⟨⟨n + 1, hforward 1, ?_⟩, hleft⟩
      rw [hrest, hcaptured]
      simp [Literal.stringFrom, hquote, hbackslash]

theorem le_size_stringFrom (v : Vocabulary) (size skip : Nat) (done s : Bytes) :
    size ≤ (Literal.stringFrom v size skip done s).size := by
  fun_induction Literal.stringFrom v size skip done s with
  | case1 => exact Nat.le_refl _
  | case4 | case6 => exact Nat.le_succ _
  | case2 | case3 | case5 | case7 => omega

theorem readString_pos (v : Vocabulary) (s : Bytes) : 0 < (Literal.readString v s).size :=
  le_size_stringFrom v 1 0 [] (s.drop 1)

theorem reads_string (hp : p.here ≠ []) :
    let r := Literal.readString v p.here
    Reads pass source (Reading.string v pass) p
      ((p.forward r.size).result v .string r.result) fun _ => Further v (.statement false) p := by
  intro r
  have hfirst : InString v p [] (p.forward 1).mark ((p.forward r.size).result v .string r.result) :=
    ⟨1, rfl, rfl⟩
  refine (gives_move (List.length_pos_iff.mpr hp)).then (gives_resetCapture.then ?_)
  refine (Reads.loop (fun _ _ _ => reads_stringRound) hfirst).bind fun done q rest h => ?_
  obtain ⟨⟨before, hcaptured, rfl⟩, hleft⟩ := h
  refine (gives_capturedBefore hcaptured).then (reads_hand.mono fun _ q' rest h => ?_)
  obtain ⟨rfl, rfl⟩ := h
  exact ⟨.inl rfl, Nat.lt_of_le_of_lt hleft (Place.left_forward_lt (by omega) hp)⟩

end Basic

end SpectrumTape
