import SpectrumTape.Proofs.Basic.LiteralWalk
import SpectrumTape.Proofs.Number.Decimal
import SpectrumTape.Proofs.Text.Lines

/-!
# How far a step looks

A step of the reading may look at bytes behind the ones it reads: a number goes on as long as there
are digits, a keyword of letters has to end where the word ends, a quote may be doubled. An `@` ends
all of that, and so does a blank before a digit. What a step reads in front of one of them therefore
stays the same if the other one is put in its place (`Lexer.statementStep_append`).
-/

namespace SpectrumTape

/-! ### What may stand behind -/

namespace Bytes

/-- The text begins with `@` or a blank, neither of which any run of digits, letters or the like goes
on with. -/
def Stops (x : Bytes) : Prop := x.head? = some 0x40 ∨ x.head? = some 0x20

/-- The text begins with `@`, or with a blank and a digit. No keyword goes on that way either. -/
def Parts (x : Bytes) : Prop :=
  (∃ rest, x = 0x40 :: rest) ∨ ∃ d rest, x = 0x20 :: d :: rest ∧ Ascii.isDigit d = true

variable {x : Bytes}

theorem Parts.stops (hx : Parts x) : Stops x := by
  rcases hx with ⟨rest, rfl⟩ | ⟨d, rest, rfl, -⟩
  · exact Or.inl rfl
  · exact Or.inr rfl

theorem Stops.eq_cons (hx : Stops x) : ∃ b rest, x = b :: rest ∧ (b = 0x40 ∨ b = 0x20) := by
  unfold Stops at hx
  rw [List.head?_eq_some_iff, List.head?_eq_some_iff] at hx
  rcases hx with ⟨rest, rfl⟩ | ⟨rest, rfl⟩
  · exact ⟨0x40, rest, rfl, Or.inl rfl⟩
  · exact ⟨0x20, rest, rfl, Or.inr rfl⟩

theorem takeWhile_append_stop {p : UInt8 → Bool} (hp : p 0x40 = false ∧ p 0x20 = false)
    (hx : Stops x) (u : Bytes) : (u ++ x).takeWhile p = u.takeWhile p := by
  refine takeWhile_append_of_head (fun c hc => ?_) u
  rcases hx with hx | hx
  · rw [Option.some.inj (hc.symm.trans hx)]
    exact hp.1
  · rw [Option.some.inj (hc.symm.trans hx)]
    exact hp.2

end Bytes

open Bytes

namespace Basic

variable {x x' : Bytes}

/-! ### Numbers -/

namespace Literal

theorem runLength_append_stop {p : UInt8 → Bool} (hp : p 0x40 = false ∧ p 0x20 = false)
    (hx : Stops x) (u : Bytes) : runLength p (u ++ x) = runLength p u := by
  rw [runLength, takeWhile_append_stop hp hx, runLength]

theorem runLength_le (p : UInt8 → Bool) (s : Bytes) : runLength p s ≤ s.length :=
  (List.takeWhile_sublist p).length_le

theorem fractionLength_le (s : Bytes) : fractionLength s ≤ s.length := by
  unfold fractionLength
  split
  · rename_i rest
    have := runLength_le Ascii.isDigit rest
    rw [List.length_cons]
    omega
  · exact Nat.zero_le _

theorem fractionLength_append (hx : Stops x) (u : Bytes) :
    fractionLength (u ++ x) = fractionLength u := by
  cases u with
  | nil =>
    obtain ⟨b, rest, rfl, rfl | rfl⟩ := hx.eq_cons <;> rfl
  | cons c u =>
    by_cases hc : c = 0x2E
    · subst hc
      show 1 + runLength Ascii.isDigit (u ++ x) = 1 + runLength Ascii.isDigit u
      rw [runLength_append_stop (by decide) hx]
    · simp [fractionLength, hc]

theorem exponentLength_le (s : Bytes) : exponentLength s ≤ s.length := by
  cases s with
  | nil => exact Nat.le_refl 0
  | cons e rest =>
    cases rest with
    | nil => simp [exponentLength, runLength]
    | cons c rest =>
      simp only [exponentLength]
      generalize hsigned : (if c == 0x2B || c == 0x2D then 1 else 0) = signed
      have hdigits := runLength_le Ascii.isDigit ((c :: rest).drop signed)
      rw [List.length_drop] at hdigits
      split_ifs
      · split
        · exact Nat.zero_le _
        · rw [List.length_cons]
          omega
      · exact Nat.zero_le _

theorem exponentLength_append (hx : Stops x) (u : Bytes) :
    exponentLength (u ++ x) = exponentLength u := by
  obtain ⟨b, more, hb, hcases⟩ := hx.eq_cons
  cases u with
  | nil =>
    rw [List.nil_append, hb]
    rcases hcases with rfl | rfl <;> rfl
  | cons e rest =>
    cases rest with
    | nil =>
      have hdigits : runLength Ascii.isDigit x = 0 := runLength_append_stop (by decide) hx []
      have hnone : runLength Ascii.isDigit [] = 0 := rfl
      rw [hb] at hdigits ⊢
      rcases hcases with rfl | rfl <;> simp [exponentLength, hdigits, hnone]
    | cons c rest =>
      have hdigits (n : Nat) (hn : n ≤ 1) : runLength Ascii.isDigit ((c :: (rest ++ x)).drop n) =
          runLength Ascii.isDigit ((c :: rest).drop n) := by
        rw [← List.cons_append, List.drop_append_of_le_length (by rw [List.length_cons]; omega)]
        exact runLength_append_stop (by decide) hx _
      simp only [List.cons_append, exponentLength]
      rw [hdigits]
      split_ifs <;> omega

theorem decimalLength_le (s : Bytes) : decimalLength s ≤ s.length := by
  have hwhole := runLength_le Ascii.isDigit s
  have hfraction := fractionLength_le (s.drop (runLength Ascii.isDigit s))
  rw [List.length_drop] at hfraction
  have hexponent := exponentLength_le
    (s.drop (runLength Ascii.isDigit s + fractionLength (s.drop (runLength Ascii.isDigit s))))
  rw [List.length_drop] at hexponent
  unfold decimalLength
  dsimp only
  omega

theorem decimalLength_append (hx : Stops x) (u : Bytes) : decimalLength (u ++ x) = decimalLength u := by
  have hwhole := runLength_le Ascii.isDigit u
  have hfraction := fractionLength_le (u.drop (runLength Ascii.isDigit u))
  rw [List.length_drop] at hfraction
  unfold decimalLength
  dsimp only
  rw [runLength_append_stop (by decide) hx, List.drop_append_of_le_length hwhole,
    fractionLength_append hx, List.drop_append_of_le_length (by omega), exponentLength_append hx]

theorem readDecimal_append (hx : Stops x) (u : Bytes) : readDecimal (u ++ x) = readDecimal u := by
  unfold readDecimal
  dsimp only
  rw [decimalLength_append hx, List.take_append_of_le_length (decimalLength_le u)]

theorem readDigits_append {base skipped : Nat} {isDigit : UInt8 → Bool} {empty large : Cause}
    (hdigit : isDigit 0x40 = false ∧ isDigit 0x20 = false) (hx : Stops x) {u : Bytes}
    (hu : skipped ≤ u.length) :
    readDigits base isDigit empty large skipped (u ++ x) =
      readDigits base isDigit empty large skipped u := by
  unfold readDigits
  dsimp only
  rw [List.drop_append_of_le_length hu, takeWhile_append_stop hdigit hx]

theorem readNumber_append (hx : Stops x) (binary : Bool) {u : Bytes} (hu : u ≠ []) :
    readNumber binary (u ++ x) = readNumber binary u := by
  obtain ⟨b, more, hb, hcases⟩ := hx.eq_cons
  obtain ⟨c, rest, rfl⟩ := List.exists_cons_of_ne_nil hu
  cases rest with
  | nil =>
    -- No mark of a base follows the first byte, with the text behind it or without.
    have hmark : (Ascii.toLower b == 0x78) = false ∧ (Ascii.toLower b == 0x62) = false := by
      rcases hcases with rfl | rfl <;> decide
    have hdigits : readDigits 2 Ascii.isBinaryDigit .emptyBinary .largeBinary 0 ([c] ++ x) =
        readDigits 2 Ascii.isBinaryDigit .emptyBinary .largeBinary 0 [c] :=
      readDigits_append (by decide) hx (Nat.zero_le _)
    have hdecimal := readDecimal_append hx [c]
    have hnone : (Ascii.toLower 0 == 0x78) = false ∧ (Ascii.toLower 0 == 0x62) = false := by decide
    rw [hb] at hdigits hdecimal ⊢
    simp only [List.singleton_append] at hdigits hdecimal
    simp [readNumber, hmark, hnone, hdigits, hdecimal]
  | cons d rest =>
    have hlength : 2 ≤ (c :: d :: rest).length := by simp
    unfold readNumber
    dsimp only
    rw [readDigits_append (by decide) hx hlength, readDigits_append (by decide) hx hlength,
      readDigits_append (by decide) hx (Nat.zero_le _), readDecimal_append hx]
    rfl

end Literal

end Basic

/-! ### Keywords and escapes -/

namespace Spelling

def Found.before (f : Found) (x : Bytes) : Found := { f with rest := f.rest ++ x }

theorem firstFound_append {rest? : Spelling → Bytes → Option Bytes} {u x : Bytes}
    {spellings : List Spelling}
    (h : ∀ s ∈ spellings, rest? s (u ++ x) = (rest? s u).map (· ++ x)) :
    firstFound rest? (u ++ x) spellings = (firstFound rest? u spellings).map (·.before x) := by
  induction spellings with
  | nil => rfl
  | cons s spellings ih =>
    obtain ⟨hs, hmore⟩ := List.forall_mem_cons.mp h
    rw [firstFound, hs, firstFound]
    cases rest? s u with
    | some rest => rfl
    | none => exact ih hmore

/-- Neither `@` nor a digit is in the text, and no blank is at its end. -/
def Compact (text : Bytes) : Prop :=
  (∀ c ∈ text, Ascii.toLower c ≠ 0x40 ∧ Ascii.isDigit (Ascii.toLower c) = false) ∧
    ∀ c ∈ text.getLast?, Ascii.toLower c ≠ 0x20

instance (text : Bytes) : Decidable (Compact text) :=
  @instDecidableAnd _ _ (List.decidableBAll _ text) (Option.decidableForallMem _)

theorem Compact.tail {c : UInt8} {text : Bytes} (h : Compact (c :: text)) : Compact text := by
  obtain ⟨hall, hlast⟩ := h
  refine ⟨fun d hd => hall d (List.mem_cons_of_mem _ hd), fun d hd => hlast d ?_⟩
  rw [List.getLast?_cons, Option.mem_def.mp hd]
  rfl

theorem afterFolded?_parts {c : UInt8} {text x : Bytes} (htext : Compact (c :: text)) (hx : Parts x) :
    afterFolded? (c :: text) x = none := by
  have hc := htext.1 c List.mem_cons_self
  rcases hx with ⟨rest, rfl⟩ | ⟨d, rest, rfl, hd⟩
  · have hne : (Ascii.toLower c == Ascii.toLower 0x40) = false := by
      exact beq_eq_false_iff_ne.mpr hc.1
    rw [afterFolded?, hne]
    rfl
  · rw [afterFolded?]
    split_ifs with hblank
    · -- A blank of the spelling is not its last byte, and what is behind it is no digit.
      cases text with
      | nil => exact absurd (beq_iff_eq.mp hblank) (htext.2 c rfl)
      | cons e text =>
        have he := htext.1 e (by simp)
        rw [afterFolded?, Ascii.toLower_of_isDigit hd, if_neg]
        intro heq
        rw [beq_iff_eq.mp heq, hd] at he
        simp at he
    · rfl

theorem afterFolded?_append {text x : Bytes} (htext : Compact text) (hx : Parts x) (u : Bytes) :
    afterFolded? text (u ++ x) = (afterFolded? text u).map (· ++ x) := by
  induction u generalizing text with
  | nil =>
    cases text with
    | nil => rfl
    | cons c text => exact afterFolded?_parts htext hx
  | cons d u ih =>
    cases text with
    | nil => rfl
    | cons c text =>
      simp only [List.cons_append, afterFolded?]
      split_ifs
      · exact ih htext.tail
      · rfl

theorem keywordRest?_append {s : Spelling} {x : Bytes} (hs : Compact s.text) (hx : Parts x)
    (u : Bytes) : keywordRest? s (u ++ x) = (keywordRest? s u).map (· ++ x) := by
  unfold keywordRest?
  rw [afterFolded?_append hs hx]
  cases afterFolded? s.text u with
  | none => rfl
  | some rest =>
    cases rest with
    | nil =>
      have hword : Ascii.isWord 0x40 = false ∧ Ascii.isWord 0x20 = false := by decide
      obtain ⟨b, more, rfl, rfl | rfl⟩ := hx.stops.eq_cons <;> simp [hword]
    | cons c rest =>
      simp only [Option.map_some, List.cons_append]
      split_ifs <;> rfl

theorem escapeRest?_append {s : Spelling} {u : Bytes} (hs : s.text.length ≤ u.length) (x : Bytes) :
    escapeRest? s (u ++ x) = (escapeRest? s u).map (· ++ x) := by
  unfold escapeRest?
  generalize s.text = text at hs
  induction text generalizing u with
  | nil => rfl
  | cons c text ih =>
    cases u with
    | nil => simp at hs
    | cons d u =>
      simp only [List.cons_append, Bytes.dropPrefix?]
      split_ifs
      · exact ih (by simpa using hs)
      · rfl

end Spelling

namespace Vocabulary

theorem compact_of_mem_keywordsOf {dialect : Dialect} {k : Keyword} (hk : k ∈ keywordsOf dialect) :
    ∀ s ∈ k.spellings, Spelling.Compact s.text := by
  have hcommon : ∀ k ∈ commonKeywords, ∀ s ∈ k.spellings, Spelling.Compact s.text := by
    decide +kernel
  have hextra : ∀ k ∈ extraKeywords, ∀ s ∈ k.spellings, Spelling.Compact s.text := by
    decide +kernel
  rcases List.mem_append.mp hk with hk | hk
  · exact hcommon k hk
  · split_ifs at hk
    · exact hextra k hk
    · cases hk

theorem findKeyword?_append (dialect : Dialect) {x : Bytes} (hx : Parts x) (u : Bytes) :
    (ofDialect dialect).findKeyword? (u ++ x) =
      ((ofDialect dialect).findKeyword? u).map (·.before x) := by
  refine Spelling.firstFound_append fun s hs => Spelling.keywordRest?_append ?_ hx u
  obtain ⟨k, hk, hsk⟩ := List.mem_flatMap.mp (List.mem_mergeSort.mp hs)
  exact compact_of_mem_keywordsOf hk s hsk

theorem length_escape {dialect : Dialect} {s : Spelling}
    (hs : s ∈ (ofDialect dialect).escapeSpellings) : 0 < s.text.length ∧ s.text.length ≤ 2 := by
  have hsmall : ∀ e ∈ escapesOf .k48, 0 < e.sequence.length ∧ e.sequence.length ≤ 2 := by
    decide +kernel
  have hlarge : ∀ e ∈ escapesOf .k128, 0 < e.sequence.length ∧ e.sequence.length ≤ 2 := by
    decide +kernel
  obtain ⟨e, he, rfl⟩ := List.mem_map.mp (List.mem_mergeSort.mp hs)
  by_cases hdialect : dialect = .k128
  · subst hdialect
    exact hlarge e he
  · refine hsmall e ?_
    simpa [escapesOf, hdialect] using he

theorem findEscape?_append (dialect : Dialect) {u : Bytes} (hu : 2 ≤ u.length) (x : Bytes) :
    (ofDialect dialect).findEscape? (u ++ x) =
      ((ofDialect dialect).findEscape? u).map (·.before x) :=
  Spelling.firstFound_append fun _ hs =>
    Spelling.escapeRest?_append ((length_escape hs).2.trans hu) x

theorem findEscape?_pos {dialect : Dialect} {text : Bytes} {found : Spelling.Found}
    (h : (ofDialect dialect).findEscape? text = some found) : 0 < found.size := by
  obtain ⟨s, hs, -, hsize⟩ := Spelling.firstFound_eq_some h
  rw [hsize]
  exact (length_escape hs).1

end Vocabulary

namespace Basic.Literal

variable {dialect : Dialect} {x x' : Bytes}

/-! ### Strings -/

theorem lt_size_stringFrom {v : Vocabulary} {size skip : Nat} {done s content : Bytes}
    (h : (stringFrom v size skip done s).result = .ok content) :
    size + skip < (stringFrom v size skip done s).size := by
  fun_induction stringFrom v size skip done s with
  | case1 => cases h
  | case4 => simp
  | case6 => cases h
  | case2 size done c rest skip ih =>
    have := ih h
    omega
  | case3 size done c rest hc hd ih =>
    have := ih h
    omega
  | case5 size done c rest hc hd found hf ih =>
    have := ih h
    omega
  | case7 size done c rest hc hd ih =>
    have := ih h
    omega

theorem stringFrom_append (hx : Stops x) (hx' : Stops x') {size skip : Nat} {done u content : Bytes}
    (hok : (stringFrom (.ofDialect dialect) size skip done (u ++ x)).result = .ok content)
    (hsize : (stringFrom (.ofDialect dialect) size skip done (u ++ x)).size ≤ size + u.length) :
    stringFrom (.ofDialect dialect) size skip done (u ++ x') =
      stringFrom (.ofDialect dialect) size skip done (u ++ x) := by
  induction u generalizing size skip done with
  | nil =>
    have := lt_size_stringFrom hok
    rw [List.length_nil] at hsize
    omega
  | cons c u ih =>
    have hstep : ∀ {skip : Nat} {done : Bytes},
        (stringFrom (.ofDialect dialect) (size + 1) skip done (u ++ x)).result = .ok content →
        (stringFrom (.ofDialect dialect) (size + 1) skip done (u ++ x)).size ≤
          size + (c :: u).length →
        stringFrom (.ofDialect dialect) (size + 1) skip done (u ++ x') =
          stringFrom (.ofDialect dialect) (size + 1) skip done (u ++ x) := by
      intro skip done hok hsize
      rw [List.length_cons] at hsize
      exact ih hok (by omega)
    rw [List.cons_append] at hok hsize ⊢
    rw [List.cons_append]
    cases skip with
    | succ skip => exact hstep hok hsize
    | zero =>
      rw [stringFrom] at hok hsize ⊢
      rw [stringFrom]
      by_cases hquote : (c == Ascii.quote) = true
      · have hhead : ((u ++ x').head? == some Ascii.quote) = ((u ++ x).head? == some Ascii.quote) := by
          cases u with
          | nil =>
            obtain ⟨b, more, rfl, rfl | rfl⟩ := hx.eq_cons <;>
              obtain ⟨b', more', rfl, rfl | rfl⟩ := hx'.eq_cons <;> rfl
          | cons d u => rfl
        simp only [hquote, if_true, hhead] at hok hsize ⊢
        split_ifs at hok hsize ⊢ with hdoubled
        · exact hstep hok hsize
        · rfl
      · simp only [hquote, Bool.false_eq_true, if_false] at hok hsize ⊢
        split_ifs at hok hsize ⊢ with hescape
        · cases hfound : (Vocabulary.ofDialect dialect).findEscape? (u ++ x) with
          | none =>
            rw [hfound] at hok
            cases hok
          | some found =>
            rw [hfound] at hok hsize
            -- The string ends behind the escape, so that lies in `u` and at least one byte with it.
            have hbehind := lt_size_stringFrom hok
            have hpos := Vocabulary.findEscape?_pos hfound
            rw [List.length_cons] at hsize
            have hlength : 2 ≤ u.length := by
              dsimp only at hsize hbehind
              omega
            rw [Vocabulary.findEscape?_append dialect hlength] at hfound ⊢
            obtain ⟨inside, hinside, rfl⟩ := Option.map_eq_some_iff.mp hfound
            rw [hinside]
            exact hstep hok hsize
        · exact hstep hok hsize

theorem readString_append (hx : Stops x) (hx' : Stops x') {u content : Bytes} (hu : u ≠ [])
    (hok : (readString (.ofDialect dialect) (u ++ x)).result = .ok content)
    (hsize : (readString (.ofDialect dialect) (u ++ x)).size ≤ u.length) :
    readString (.ofDialect dialect) (u ++ x') = readString (.ofDialect dialect) (u ++ x) := by
  obtain ⟨c, u, rfl⟩ := List.exists_cons_of_ne_nil hu
  rw [List.length_cons, Nat.add_comm] at hsize
  exact stringFrom_append hx hx' hok hsize

end Basic.Literal

/-! ### Steps -/

namespace Basic

/-- The step reads at most `n` bytes and goes on in the same statement. -/
def Step.Within (n : Nat) (s : Step) : Prop :=
  ∃ more first, s.next = .advance more (.statement first) ∧ more + 1 ≤ n

namespace Step

theorem not_within_fail {n offset : Nat} {cause : Cause} : ¬(fail offset cause).Within n := by
  rintro ⟨more, first, hnext, -⟩
  cases hnext

theorem Within.size_le {n size : Nat} {tokens : List Token} {mode : Mode}
    (h : (read size tokens mode).Within n) : size ≤ n := by
  obtain ⟨more, first, hnext, hmore⟩ := h
  cases hnext
  omega

theorem Within.read_ok {α : Type} {n before : Nat} {token : α → Token} {r : Read α}
    (h : (ofRead before token r).Within n) : (∃ a, r.result = .ok a) ∧ before + r.size ≤ n := by
  unfold ofRead at h
  cases hresult : r.result with
  | ok a =>
    rw [hresult] at h
    exact ⟨⟨a, rfl⟩, h.size_le⟩
  | error cause =>
    rw [hresult] at h
    exact absurd h not_within_fail

end Step

namespace Lexer

variable {dialect : Dialect} {x x' u w : Bytes}

theorem labelStep_append (hx : Stops x) (hx' : Stops x') (hu : u ≠ [])
    (h : (labelStep (u ++ x)).Within u.length) : labelStep (u ++ x') = labelStep (u ++ x) := by
  have hpos := List.length_pos_iff.mpr hu
  have hname {y : Bytes} (hy : Stops y) :
      ((u ++ y).drop 1).takeWhile Ascii.isWord = (u.drop 1).takeWhile Ascii.isWord := by
    rw [List.drop_append_of_le_length hpos, takeWhile_append_stop (by decide) hy]
  have hlength := Literal.runLength_le Ascii.isWord (u.drop 1)
  rw [Literal.runLength, List.length_drop] at hlength
  unfold labelStep at h ⊢
  dsimp only at h ⊢
  rw [hname hx, List.drop_append_of_le_length (by omega)] at h
  rw [hname hx, hname hx', List.drop_append_of_le_length (by omega),
    List.drop_append_of_le_length (by omega)]
  cases hrest : u.drop (1 + ((u.drop 1).takeWhile Ascii.isWord).length) with
  | cons d rest => rfl
  | nil =>
    -- The colon would have to be behind `u`.
    have hend := List.drop_eq_nil_iff.mp hrest
    obtain ⟨b, more, rfl, -⟩ := hx.eq_cons
    rw [hrest] at h
    simp only [List.nil_append] at h
    split_ifs at h
    · have := h.size_le
      omega
    · exact absurd h Step.not_within_fail

theorem lineNumberStep_append (hx' : Stops x')
    (h : (lineNumberStep (u ++ 0x40 :: w)).Within u.length) :
    lineNumberStep (u ++ x') = lineNumberStep (u ++ 0x40 :: w) := by
  have hx : Stops (0x40 :: w) := Or.inl rfl
  have hlength := Literal.runLength_le Ascii.isDigit u
  rw [Literal.runLength] at hlength
  unfold lineNumberStep at h ⊢
  dsimp only at h ⊢
  rw [takeWhile_append_stop (by decide) hx, List.drop_append_of_le_length hlength] at h ⊢
  rw [takeWhile_append_stop (by decide) hx', List.drop_append_of_le_length hlength]
  cases hrest : u.drop (u.takeWhile Ascii.isDigit).length with
  | cons d rest => rfl
  | nil =>
    -- The blank would have to be where the `@` is.
    rw [hrest] at h
    exact absurd h Step.not_within_fail

theorem referenceStep_append (hx : Stops x) (hx' : Stops x') (hu : u ≠ []) :
    referenceStep (u ++ x') = referenceStep (u ++ x) := by
  have hpos := List.length_pos_iff.mpr hu
  unfold referenceStep
  dsimp only
  rw [List.drop_append_of_le_length hpos, List.drop_append_of_le_length hpos,
    takeWhile_append_stop (by decide) hx, takeWhile_append_stop (by decide) hx']

theorem plainStep_append (hx : Stops x) (hx' : Stops x') (hu : u ≠ []) :
    plainStep (u ++ x') = plainStep (u ++ x) := by
  obtain ⟨c, u, rfl⟩ := List.exists_cons_of_ne_nil hu
  unfold plainStep
  dsimp only
  rw [takeWhile_append_stop (by decide) hx, takeWhile_append_stop (by decide) hx']
  rfl

theorem keywordStep_append (hx' : Stops x') {code : UInt8} {size n : Nat} (hn : n = size + u.length)
    (h : (keywordStep code size (u ++ 0x40 :: w)).Within n) :
    keywordStep code size (u ++ x') = keywordStep code size (u ++ 0x40 :: w) := by
  have hx : Stops (0x40 :: w) := Or.inl rfl
  unfold keywordStep at h ⊢
  dsimp only at h ⊢
  split_ifs at h ⊢ with hbin hrem
  · have hle := Literal.runLength_le Ascii.isSpace u
    have hblanks : Literal.runLength Ascii.isSpace (u ++ 0x40 :: w) =
        Literal.runLength Ascii.isSpace u :=
      congrArg List.length (takeWhile_append_of_head (by simp [Ascii.isSpace]) u)
    rw [hblanks, List.drop_append_of_le_length hle] at h ⊢
    obtain ⟨⟨number, hok⟩, hsize⟩ := h.read_ok
    have hpos := (readNumber_pos hok).1
    -- The digits are in `u`, so the blanks before them end there whatever follows.
    have hinside : Literal.runLength Ascii.isSpace u < u.length := by omega
    have hblanks' : Literal.runLength Ascii.isSpace (u ++ x') =
        Literal.runLength Ascii.isSpace u := by
      unfold Literal.runLength at hinside ⊢
      rw [List.takeWhile_append, if_neg (Nat.ne_of_lt hinside)]
    have hdigits : u.drop (Literal.runLength Ascii.isSpace u) ≠ [] := by
      rw [ne_eq, List.drop_eq_nil_iff]
      omega
    rw [hblanks', List.drop_append_of_le_length hle, Literal.readNumber_append hx true hdigits,
      Literal.readNumber_append hx' true hdigits]
  · obtain ⟨more, first, hnext, -⟩ := h
    cases hnext
  · rfl

theorem wordStep_append (hx' : Parts x') {first : Bool} (hu : u ≠ [])
    (h : (wordStep (.ofDialect dialect) first (u ++ 0x40 :: w)).Within u.length) :
    wordStep (.ofDialect dialect) first (u ++ x') =
      wordStep (.ofDialect dialect) first (u ++ 0x40 :: w) := by
  have hx : Parts (0x40 :: w) := Or.inl ⟨w, rfl⟩
  unfold wordStep at h ⊢
  rw [Vocabulary.findKeyword?_append dialect hx] at h ⊢
  rw [Vocabulary.findKeyword?_append dialect hx']
  cases hfound : (Vocabulary.ofDialect dialect).findKeyword? u with
  | none =>
    dsimp only [Option.map_none]
    split_ifs
    · rfl
    · exact plainStep_append hx.stops hx'.stops hu
  | some found =>
    obtain ⟨hsize, hrest⟩ := Vocabulary.findKeyword?_bounds hfound
    have hn : u.length = found.size + found.rest.length := by
      rw [hrest, List.length_drop]
      omega
    rw [hfound] at h
    dsimp only [Option.map_some, Spelling.Found.before] at h ⊢
    split_ifs at h ⊢ with hfirst hbin
    · rfl
    · rw [keywordStep_append hx'.stops hn]
      exact h
    · exact keywordStep_append hx'.stops hn h

/-- **A step that ends before an `@` does not depend on it**: with a blank and a digit in its place the
step is the same. -/
theorem statementStep_append (hx' : Parts x') {first : Bool} {c : UInt8}
    (hc : Ascii.isSpace c = false)
    (h : (statementStep (.ofDialect dialect) first (c :: u ++ 0x40 :: w)).Within (c :: u).length) :
    statementStep (.ofDialect dialect) first (c :: u ++ x') =
      statementStep (.ofDialect dialect) first (c :: u ++ 0x40 :: w) := by
  have hx : Stops (0x40 :: w) := Or.inl rfl
  have hu : c :: u ≠ [] := List.cons_ne_nil c u
  have hnumber : Literal.readNumber false (c :: (u ++ x')) =
      Literal.readNumber false (c :: (u ++ 0x40 :: w)) :=
    (Literal.readNumber_append hx'.stops false hu).trans
      (Literal.readNumber_append hx false hu).symm
  simp only [List.cons_append, statementStep, hc, Bool.false_eq_true, if_false] at h ⊢
  rw [hnumber]
  split_ifs at h ⊢ with hcomment hescape hat hfirst hdigit hfirst hpoint hfirst hquote hfirst
  · rfl
  · obtain ⟨more, first, hnext, -⟩ := h
    cases hnext
  · exact labelStep_append hx hx'.stops hu h
  · exact referenceStep_append hx hx'.stops hu
  · exact lineNumberStep_append hx'.stops h
  · rfl
  · rfl
  · rfl
  · rfl
  · obtain ⟨⟨content, hok⟩, hsize⟩ := h.read_ok
    rw [Nat.zero_add] at hsize
    have hstring := Literal.readString_append hx hx'.stops hu hok hsize
    rw [List.cons_append, List.cons_append] at hstring
    rw [hstring]
  · exact wordStep_append hx' hu h

end Lexer

end Basic

end SpectrumTape
