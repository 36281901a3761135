import SpectrumTape.Proofs.Basic.LineReading
import SpectrumTape.Proofs.Basic.Listing
import SpectrumTape.Proofs.Text.Lines
import SpectrumTape.Proofs.Vocabulary.Escapes

/-!
# Shadows of numbers

Behind its text a number has a mark and its five byte form, its shadow, in which any byte may occur.
To find the end of a line its body is scanned and the shadows are skipped (`Listing.scan`). That works
as long as no other byte of a body is taken for a mark or for the end of the line. The bytes of a token
come from the source, from the tables of the vocabulary and from the values of names
(`Stems.unmarked`). If the source has no mark, neither has any of them, and the scan meets what the
tokens wrote, one after the other, and then the end of the line (`parse_shadows`).
-/

namespace SpectrumTape.Basic

/-! ### Scanning a body -/

namespace Listing

/-- What a scan meets: a byte, or the five bytes behind the mark of a number. -/
inductive Met where
  | code (c : UInt8)
  | shadow (form : Bytes)
  deriving DecidableEq, Repr

/-- The scan of a body, unless it would skip past the end. -/
def scan : Bytes → Option (List Met)
  | [] => some []
  | code :: rest =>
    if code == Code.number then
      match rest with
      | a :: b :: c :: d :: e :: rest => (scan rest).map (.shadow [a, b, c, d, e] :: ·)
      | _ => none
    else (scan rest).map (.code code :: ·)

def Met.text? (v : Vocabulary) : Met → Option Bytes
  | code c => some (codeText v c)
  | shadow _ => none

theorem scan_code {c : UInt8} (hc : c ≠ Code.number) (rest : Bytes) :
    scan (c :: rest) = (scan rest).map (.code c :: ·) := by
  rw [scan.eq_def]
  simp [hc]

theorem bodyText_of_scan (v : Vocabulary) {body : Bytes} {met : List Met} (h : scan body = some met) :
    bodyText v 0 body = met.filterMap (Met.text? v) := by
  induction hlength : body.length using Nat.strong_induction_on generalizing body met with
  | _ n ih =>
    cases body with
    | nil =>
      cases h
      rfl
    | cons code rest =>
      by_cases hcode : code = Code.number
      · subst hcode
        -- There are five bytes behind the mark, since the scan did not fail.
        match rest, h with
        | a :: b :: c :: d :: e :: rest, h =>
          obtain ⟨met, hmet, rfl⟩ := Option.map_eq_some_iff.mp h
          have hshorter : rest.length < n := by
            simp only [List.length_cons] at hlength
            omega
          have hrest := ih rest.length hshorter hmet rfl
          exact hrest
        | [], h | [_], h | [_, _], h | [_, _, _], h | [_, _, _, _], h => cases h
      · rw [scan_code hcode] at h
        obtain ⟨met, hmet, rfl⟩ := Option.map_eq_some_iff.mp h
        rw [bodyText, if_neg (by simpa using hcode), ih rest.length (by simp [← hlength]) hmet rfl]
        rfl

/-- In front of anything the bytes are met as `met`. -/
def Meets (bytes : Bytes) (met : List Met) : Prop :=
  ∀ rest, scan (bytes ++ rest) = (scan rest).map (met ++ ·)

theorem Meets.append {first second : Bytes} {met met' : List Met} (h : Meets first met)
    (h' : Meets second met') : Meets (first ++ second) (met ++ met') := by
  intro rest
  rw [List.append_assoc, h, h', Option.map_map]
  congr 1
  funext more
  exact (List.append_assoc met met' more).symm

theorem meets_nil : Meets [] [] := by
  intro rest
  exact Option.map_id'.symm

theorem meets_code {c : UInt8} (hc : c ≠ Code.number) : Meets [c] [.code c] := by
  intro rest
  exact scan_code hc rest

theorem meets_codes {bytes : Bytes} (h : Code.number ∉ bytes) : Meets bytes (bytes.map .code) := by
  induction bytes with
  | nil => exact meets_nil
  | cons c bytes ih =>
    rw [List.mem_cons, not_or] at h
    exact (meets_code (Ne.symm h.1)).append (ih h.2)

theorem meets_shadow (form : FiveByte) : Meets (Code.number :: form.bytes) [.shadow form.bytes] := by
  intro rest
  rfl

end Listing

/-! ### Bytes that are neither mark nor end -/

/-- No byte is the mark of a number or ends a line. -/
def Unmarked (bytes : Bytes) : Prop := ∀ c ∈ bytes, c ≠ Code.endOfLine ∧ c ≠ Code.number

theorem Unmarked.of_subset {s t : Bytes} (ht : Unmarked t) (h : s ⊆ t) : Unmarked s :=
  fun c hc => ht c (h hc)

theorem Unmarked.cons {c : UInt8} {s : Bytes} (hs : Unmarked s)
    (hc : c ≠ Code.endOfLine ∧ c ≠ Code.number) : Unmarked (c :: s) :=
  List.forall_mem_cons.mpr ⟨hc, hs⟩

theorem Unmarked.tail {c : UInt8} {s : Bytes} (h : Unmarked (c :: s)) : Unmarked s :=
  (List.forall_mem_cons.mp h).2

theorem Unmarked.append {s t : Bytes} (hs : Unmarked s) (ht : Unmarked t) : Unmarked (s ++ t) :=
  List.forall_mem_append.mpr ⟨hs, ht⟩

theorem unmarked_nil : Unmarked [] := List.forall_mem_nil _

theorem unmarked_quote : Ascii.quote ≠ Code.endOfLine ∧ Ascii.quote ≠ Code.number := by decide

theorem unmarked_of_isNumeric {s : Bytes} (hs : ∀ c ∈ s, Ascii.isNumeric c = true) : Unmarked s := by
  have hall : ∀ c : UInt8, Ascii.isNumeric c = true → c ≠ Code.endOfLine ∧ c ≠ Code.number := by
    decide +kernel
  exact fun c hc => hall c (hs c hc)

theorem unmarked_keyword {dialect : Dialect} {text : Bytes} {found : Spelling.Found}
    (h : (Vocabulary.ofDialect dialect).findKeyword? text = some found) :
    found.code ≠ Code.endOfLine ∧ found.code ≠ Code.number := by
  have hall : Vocabulary.allSpellings.all
      fun s => s.code != Code.endOfLine && s.code != Code.number := by
    decide +kernel
  obtain ⟨s, hs, -, hfound⟩ := Spelling.exists_of_firstFound h
  have hmem := Vocabulary.mem_allSpellings (Vocabulary.mem_keywordSpellings.mp hs)
  rw [hfound]
  simpa using List.all_eq_true.mp hall s hmem

theorem unmarked_escape {dialect : Dialect} {text : Bytes} {found : Spelling.Found}
    (h : (Vocabulary.ofDialect dialect).findEscape? text = some found) :
    found.code ≠ Code.endOfLine ∧ found.code ≠ Code.number := by
  have hall : (Vocabulary.escapesOf .k48).all
      fun e => e.code != Code.endOfLine && e.code != Code.number := by
    decide +kernel
  obtain ⟨e, he, -, hfound⟩ := Vocabulary.findEscape?_eq_some_iff.mp h
  rw [hfound]
  simpa using List.all_eq_true.mp hall e (Vocabulary.mem_escapesOf he)

namespace Literal

theorem text_of_numberOf {text : Bytes} {value : Binary64} {n : Number}
    (h : numberOf text value = .ok n) : n.text = text := by
  unfold numberOf at h
  split at h
  · cases h
    rfl
  · cases h

theorem unmarked_number {binary : Bool} {s : Bytes} {n : Number} (hs : Unmarked s)
    (h : (readNumber binary s).result = .ok n) : Unmarked n.text := by
  have hdigits {base skipped : Nat} {isDigit : UInt8 → Bool} {empty large : Cause}
      (h : (readDigits base isDigit empty large skipped s).result = .ok n) : Unmarked n.text := by
    simp only [readDigits, numberOfDigits] at h
    split_ifs at h
    rw [text_of_numberOf h]
    apply unmarked_of_isNumeric
    intro c hc
    simp [Ascii.isNumeric, Ascii.isWord_of_isDigit (Bytes.isDigit_of_mem_decimal _ c hc)]
  unfold readNumber at h
  dsimp only at h
  split_ifs at h
  · exact hdigits h
  · exact hdigits h
  · exact hdigits h
  · simp only [readDecimal, numberOfText] at h
    split_ifs at h
    split at h
    · rw [text_of_numberOf h]
      exact hs.of_subset (List.take_subset _ _)
    · cases h

theorem unmarked_stringFrom {dialect : Dialect} {size skip : Nat} {done s content : Bytes}
    (hdone : Unmarked done) (hs : Unmarked s)
    (h : (stringFrom (.ofDialect dialect) size skip done s).result = .ok content) :
    Unmarked content := by
  fun_induction stringFrom (.ofDialect dialect) size skip done s with
  | case1 => cases h
  | case2 size done c rest skip ih => exact ih hdone hs.tail h
  | case3 size done c rest hc hdouble ih =>
    exact ih ((hdone.cons unmarked_quote).cons unmarked_quote) hs.tail h
  | case4 size done c rest hc hdouble =>
    cases h
    exact hdone.of_subset (List.reverse_subset.mpr (List.Subset.refl _))
  | case5 size done c rest hc hescape found hfound ih =>
    exact ih (hdone.cons (unmarked_escape hfound)) hs.tail h
  | case6 => cases h
  | case7 size done c rest hc hescape ih =>
    exact ih (hdone.cons (hs c List.mem_cons_self)) hs.tail h

end Literal

/-! ### Tokens -/

/-- The number that a token is written as, if it is one. -/
def Token.number? (constants symbols : Symbols) : Token → Option Number
  | .number n => some n
  | .reference name =>
    (Emission.valueOf? constants symbols name).bind fun value =>
      (Emission.numberOfValue name value).toOption
  | _ => none

/-- What a scan meets of a token: a number has its text and its shadow, and any other token has its
bytes. -/
def Token.met (o : Options) (constants symbols : Symbols) (t : Token) : List Listing.Met :=
  match t.number? constants symbols with
  | some n => n.text.map .code ++ [.shadow n.value.bytes]
  | none => ((Emission.tokenBytes o constants symbols t).toOption.getD []).map .code

section tokens

variable {o : Options} {constants symbols : Symbols} {t : Token} {bytes : Bytes}

/-- Apart from shadows, no byte of the token is a mark or ends the line. -/
structure Token.Unmarked (o : Options) (constants symbols : Symbols) (t : Token) : Prop where
  number : ∀ n, t.number? constants symbols = some n → Basic.Unmarked n.text
  other : t.number? constants symbols = none →
    ∀ bytes, Emission.tokenBytes o constants symbols t = .ok bytes → Basic.Unmarked bytes

theorem tokenBytes_of_number? {n : Number} (h : t.number? constants symbols = some n) :
    Emission.tokenBytes o constants symbols t = .ok n.bytes := by
  cases t with
  | number m =>
    cases h
    rfl
  | reference name =>
    obtain ⟨value, hvalue, h⟩ := Option.bind_eq_some_iff.mp h
    rw [Emission.tokenBytes, hvalue]
    dsimp only
    cases hnumber : Emission.numberOfValue name value with
    | ok m =>
      rw [hnumber] at h
      cases h
      rfl
    | error cause =>
      rw [hnumber] at h
      cases h
  | _ => cases h

theorem Token.Unmarked.meets (ht : t.Unmarked o constants symbols)
    (h : Emission.tokenBytes o constants symbols t = .ok bytes) :
    Listing.Meets bytes (t.met o constants symbols) ∧
      .code Code.endOfLine ∉ t.met o constants symbols := by
  have hplain {s : Bytes} (hs : Basic.Unmarked s) :
      Listing.Meets s (s.map .code) ∧ Listing.Met.code Code.endOfLine ∉ s.map .code := by
    refine ⟨Listing.meets_codes fun hc => (hs _ hc).2 rfl, fun hc => ?_⟩
    obtain ⟨c, hc, heq⟩ := List.mem_map.mp hc
    exact (hs c hc).1 (Listing.Met.code.inj heq)
  unfold Token.met
  cases hnumber : t.number? constants symbols with
  | some n =>
    cases h.symm.trans (tokenBytes_of_number? hnumber)
    obtain ⟨hmeets, hend⟩ := hplain (ht.number n hnumber)
    exact ⟨hmeets.append (Listing.meets_shadow n.value), by simpa using hend⟩
  | none =>
    rw [h]
    exact hplain (ht.other hnumber bytes h)

theorem meets_tokens {tokens : List Token} (ht : ∀ t ∈ tokens, t.Unmarked o constants symbols)
    (h : tokensBytes o constants symbols tokens = .ok bytes) :
    Listing.Meets bytes (tokens.flatMap (Token.met o constants symbols)) ∧
      .code Code.endOfLine ∉ tokens.flatMap (Token.met o constants symbols) := by
  induction tokens generalizing bytes with
  | nil =>
    cases h
    exact ⟨Listing.meets_nil, List.not_mem_nil⟩
  | cons t tokens ih =>
    obtain ⟨hfirst, hrest⟩ := List.forall_mem_cons.mp ht
    rw [tokensBytes] at h
    obtain ⟨front, hfront, h⟩ := bind_eq_ok_iff.mp h
    obtain ⟨back, hback, h⟩ := bind_eq_ok_iff.mp h
    cases h
    obtain ⟨hmeets, hend⟩ := hfirst.meets hfront
    obtain ⟨hmeets', hend'⟩ := ih hrest hback
    rw [List.flatMap_cons]
    exact ⟨hmeets.append hmeets', fun hc => (List.mem_append.mp hc).elim hend hend'⟩

theorem Token.unmarked_of_bytes (hnumber : t.number? constants symbols = none)
    (h : Emission.tokenBytes o constants symbols t = .ok bytes) (hbytes : Basic.Unmarked bytes) :
    t.Unmarked o constants symbols where
  number n hn := by cases hnumber.symm.trans hn
  other _ bytes' h' := by
    cases h.symm.trans h'
    exact hbytes

/-- The value of a name is a number, whatever else could stand in it. -/
theorem Token.unmarked_reference (name : Bytes) :
    (Token.reference name).Unmarked o constants symbols := by
  constructor
  · intro n hn
    obtain ⟨value, -, hn⟩ := Option.bind_eq_some_iff.mp hn
    unfold Emission.numberOfValue at hn
    split at hn
    · rename_i v hread
      cases hnumber : Literal.numberOf value.trimBlank v with
      | ok m =>
        rw [hnumber] at hn
        cases hn
        rw [Literal.text_of_numberOf hnumber]
        exact unmarked_of_isNumeric (Reading.isNumeric_of_readBinary hread)
      | error cause =>
        rw [hnumber] at hn
        cases hn
    · cases hn
  · intro hnone bytes h
    rw [Emission.tokenBytes] at h
    rw [Token.number?] at hnone
    split at h
    · rename_i value hvalue
      obtain ⟨n, hn, -⟩ := bind_eq_ok_iff.mp h
      rw [hvalue, Option.bind_some, hn] at hnone
      cases hnone
    · cases h

/-- **No token brings in a mark or the end of a line** from a text that has none. -/
theorem Stems.unmarked {dialect : Dialect} {mode : Mode} {here : Bytes}
    (h : Stems (.ofDialect dialect) mode here t) (hhere : Basic.Unmarked here)
    (o : Options) (constants symbols : Symbols) : t.Unmarked o constants symbols := by
  cases h with
  | fault cause =>
    constructor
    · intro n hn
      cases hn
    · intro _ bytes h
      cases h
  | lineEnd => exact Token.unmarked_of_bytes rfl rfl unmarked_nil
  | ignored => exact Token.unmarked_of_bytes rfl rfl unmarked_nil
  | label name => exact Token.unmarked_of_bytes rfl rfl unmarked_nil
  | lineNumber n => exact Token.unmarked_of_bytes rfl rfl unmarked_nil
  | statement => exact Token.unmarked_of_bytes rfl rfl unmarked_nil
  | reference hrest hname => exact Token.unmarked_reference _
  | keyword hfound =>
    exact Token.unmarked_of_bytes rfl rfl (unmarked_nil.cons (unmarked_keyword hfound))
  | number hs hread =>
    constructor
    · intro m hm
      cases hm
      exact Literal.unmarked_number (hhere.of_subset hs.subset) hread
    · intro hnone
      cases hnone
  | string hread =>
    have hcontent :=
      Literal.unmarked_stringFrom unmarked_nil (hhere.of_subset (List.drop_subset 1 here)) hread
    refine Token.unmarked_of_bytes rfl rfl ?_
    split_ifs
    · exact (hcontent.append (unmarked_nil.cons unmarked_quote)).cons unmarked_quote
    · exact hcontent
  | plain hprefix => exact Token.unmarked_of_bytes rfl rfl (hhere.of_subset hprefix.subset)
  | blank => exact Token.unmarked_of_bytes rfl rfl (unmarked_nil.cons (by decide))
  | escape hrest hfound =>
    exact Token.unmarked_of_bytes rfl rfl (unmarked_nil.cons (unmarked_escape hfound))

end tokens

/-! ### Lines of programs -/

theorem Token.shadow_mem_met {form : Bytes} (o : Options) (constants symbols : Symbols) (t : Token) :
    .shadow form ∈ t.met o constants symbols ↔
      ∃ n, t.number? constants symbols = some n ∧ n.value.bytes = form := by
  unfold Token.met
  cases t.number? constants symbols with
  | none => simp
  | some n => simp [eq_comm]

/-- A scan of the body, which never skips past the end, meets what the tokens of the logical line are
written as and then, for the first time, the byte that ends the line. It meets the shadows of the
numbers of the line and no others, and they are all that a listing leaves out. -/
def LogicalLine.Scanned (o : Options) (constants symbols : Symbols) (l : LogicalLine) (line : Line) :
    Prop :=
  let met := l.tokens.flatMap (Token.met o constants symbols)
  Listing.scan line.body = some (met ++ [.code Code.endOfLine]) ∧
    .code Code.endOfLine ∉ met ∧
    (∀ form, .shadow form ∈ met ↔
      ∃ t ∈ l.tokens, ∃ n, t.number? constants symbols = some n ∧ n.value.bytes = form) ∧
    ∀ v, Listing.bodyText v 0 line.body =
      (met ++ [Listing.Met.code Code.endOfLine]).filterMap (Listing.Met.text? v)

/-- **Every mark that a scan of a body meets is that of a number of the source, and the end of the line
is met once, as the last byte.** The source may be any that has no mark itself; the values of names
cannot bring one in. -/
theorem parse_shadows (c : Compiler) (dialect : Dialect) (path source : Bytes) {p : Program}
    (hsource : Code.number ∉ source) (h : (c.parse dialect path source).2.result = .ok p) :
    let after := (c.parse dialect path source).1
    List.Forall₂
      (fun l line => l.Writes c.options c.constants after.symbols line ∧
        l.Scanned c.options c.constants after.symbols line)
      (openedLines (.ofDialect dialect) source) p := by
  intro after
  refine forall₂_written h fun l line hread hrows hwrites => ⟨hwrites, ?_⟩
  obtain ⟨first, joined, htext, hread⟩ := hread
  obtain ⟨bytes, hbytes, hbody⟩ := hwrites
  have hunmarked : ∀ t ∈ l.tokens, t.Unmarked c.options c.constants after.symbols := by
    intro t ht
    obtain ⟨mode, rest, row, hrow, hsuffix, hstems⟩ := hread.stems t ht
    refine hstems.unmarked (Unmarked.of_subset (fun b hb => ?_) hsuffix.subset) _ _ _
    obtain ⟨hmem, hbreak⟩ := Bytes.mem_of_mem_lines (hrows row (htext ▸ hrow)) b hb
    refine ⟨(Bytes.isBreak_eq_false_iff.mp hbreak).2, ?_⟩
    rintro rfl
    exact hsource hmem
  obtain ⟨hmeets, hend⟩ := meets_tokens hunmarked hbytes
  have hscan : Listing.scan line.body =
      some (l.tokens.flatMap (Token.met c.options c.constants after.symbols) ++
        [.code Code.endOfLine]) := by
    rw [hbody, hmeets]
    rfl
  refine ⟨hscan, hend, fun form => ?_, fun v => Listing.bodyText_of_scan v hscan⟩
  simp only [List.mem_flatMap, Token.shadow_mem_met]

/-- Two numbers whose shadows have a byte that would end a line and one that would be a mark. -/
def marksSource : Bytes := "10 PRINT 13;@x"

/-- The program of that source, if the value of the name is 14 with blanks around it. -/
def marksProgram : Program :=
  [⟨10, [0xF5, 0x31, 0x33, 0x0E, 0, 0, 0x0D, 0, 0, 0x3B, 0x31, 0x34, 0x0E, 0, 0, 0x0E, 0, 0, 0x0D]⟩]

theorem parse_shadows_marksSource :
    let c : Compiler := { constants := ⟨[.constant "x" "\r14 "]⟩ }
    let parsed := c.parse .k48 [] marksSource
    Code.number ∉ marksSource ∧ parsed.2.result = .ok marksProgram ∧
      List.Forall₂
        (fun l line => l.Writes c.options c.constants parsed.1.symbols line ∧
          l.Scanned c.options c.constants parsed.1.symbols line)
        (openedLines (.ofDialect .k48) marksSource) marksProgram ∧
      marksProgram.map (Listing.scan ·.body) =
        [some [.code 0xF5, .code 0x31, .code 0x33, .shadow [0, 0, 0x0D, 0, 0], .code 0x3B, .code 0x31,
          .code 0x34, .shadow [0, 0, 0x0E, 0, 0], .code 0x0D]] := by
  intro c parsed
  have hsource : Code.number ∉ marksSource := by decide +kernel
  have hparsed : parsed.2.result = .ok marksProgram := by
    unfold parsed Compiler.parse compile
    rw [Vocabulary.ofDialect_eq]
    decide +kernel
  exact ⟨hsource, hparsed, parse_shadows c .k48 [] marksSource hsource hparsed, by decide⟩

end SpectrumTape.Basic
