import SpectrumTape.Document.Text
import SpectrumTape.Proofs.Outcome
import SpectrumTape.Proofs.Number.Decimal
import SpectrumTape.Proofs.Text.Lines
import Mathlib.Data.List.TakeWhile

/-!
# Renderings of a text document

Directives can be written in many ways: with other blanks, in capitals, with comments, with another
base or other breaks. `Written` says which texts are renderings of which directives, and where in the
text the words of these are. Whatever the rendering, each line is read as the directive it renders
(`parse_directive`, `parse_empty`), so all that counts of a text document is its directives and the
places of their words (`processText_written`).
-/

namespace SpectrumTape.Document

/-! ### Renderings -/

/-- Spaces and tabs. -/
def Blanks (s : Bytes) : Prop := ∀ c ∈ s, c = 0x20 ∨ c = 0x09

/-- At least one space or tab. -/
def Gap (s : Bytes) : Prop := Blanks s ∧ s ≠ []

/-- No byte ends a line. -/
def Unbroken (s : Bytes) : Prop := ∀ c ∈ s, Bytes.isBreak c = false

/-- What can stand between quotes on one line. -/
def Quotable (s : Bytes) : Prop := Ascii.quote ∉ s ∧ Unbroken s

instance (s : Bytes) : Decidable (Blanks s) := List.decidableBAll _ s
instance (s : Bytes) : Decidable (Gap s) := inferInstanceAs (Decidable (_ ∧ _))
instance (s : Bytes) : Decidable (Unbroken s) := List.decidableBAll _ s
instance (s : Bytes) : Decidable (Quotable s) := inferInstanceAs (Decidable (_ ∧ _))

def inQuotes (s : Bytes) : Bytes := Ascii.quote :: (s ++ [Ascii.quote])

/-- The end of a line: blanks and an optional comment. -/
inductive Ending : Bytes → Prop where
  | blank {blanks : Bytes} (hblanks : Blanks blanks) : Ending blanks
  | comment {blanks text : Bytes} (hblanks : Blanks blanks) (htext : Unbroken text) :
      Ending (blanks ++ 0x23 :: text)

/-- A name behind what it belongs to: none, a bare one, or one in quotes. -/
inductive NameText : Bytes → Bytes → Prop where
  | none : NameText [] []
  | bare {gap name : Bytes} (hgap : Gap gap) (hname : name ≠ [])
      (hword : ∀ c ∈ name, Ascii.isWord c = true) : NameText name (gap ++ name)
  | quoted {gap name : Bytes} (hgap : Gap gap) (hname : Quotable name) :
      NameText name (gap ++ inQuotes name)

/-- An address, in decimal or after `0x` in hexadecimal. -/
inductive AddressText : Nat → Bytes → Prop where
  | decimal {digits : Bytes} (hne : digits ≠ []) (hdigits : ∀ c ∈ digits, Ascii.isDigit c = true) :
      AddressText (Bytes.valueOfDigits 10 digits) digits
  | hexadecimal {x : UInt8} {digits : Bytes} (hx : x = 0x78 ∨ x = 0x58) (hne : digits ≠ [])
      (hdigits : ∀ c ∈ digits, Ascii.isHexDigit c = true) :
      AddressText (Bytes.valueOfDigits 16 digits) (0x30 :: x :: digits)

/-- A directive from its word to its last part. -/
inductive DirectiveText : Directive → Bytes → Prop where
  | basic {word gap path name nameText : Bytes} (hword : word.map Ascii.toLower = utf8 "basic")
      (hgap : Gap gap) (hpath : Quotable path) (hname : NameText name nameText) :
      DirectiveText (.basic path name) (word ++ (gap ++ (inQuotes path ++ nameText)))
  | code {word gap path gap' addressText name nameText : Bytes} {address : Nat}
      (hword : word.map Ascii.toLower = utf8 "code") (hgap : Gap gap) (hpath : Quotable path)
      (hgap' : Gap gap') (haddress : AddressText address addressText) (hrange : address ≤ 65535)
      (hname : NameText name nameText) :
      DirectiveText (.code path address name)
        (word ++ (gap ++ (inQuotes path ++ (gap' ++ (addressText ++ nameText)))))

/-- A line: one without a directive, or one with a directive and what stands before its word. -/
inductive Row : Option (Bytes × Directive) → Bytes → Prop where
  | empty {row : Bytes} (hrow : Ending row) : Row none row
  | directive {lead text ending : Bytes} {d : Directive} (hlead : Blanks lead)
      (htext : DirectiveText d text) (hending : Ending ending) :
      Row (some (lead, d)) (lead ++ (text ++ ending))

/-- A rendering of directives, each with all of the text that stands before its word. -/
inductive Written : List (Bytes × Directive) → Bytes → Prop where
  | last {d : Option (Bytes × Directive)} {row : Bytes} (hrow : Row d row) : Written d.toList row
  | cons {d : Option (Bytes × Directive)} {placed : List (Bytes × Directive)} {row brk rest : Bytes}
      (hrow : Row d row) (hbrk : brk ∈ Bytes.breaks) (hrest : Written placed rest) :
      Written (d.toList ++ placed.map fun p => (row ++ (brk ++ p.1), p.2)) (row ++ (brk ++ rest))

/-! ### Bytes -/

theorem isDigitOf_ten (c : UInt8) (hc : Ascii.isDigit c = true) : Numeral.isDigitOf 10 c = true := by
  simp [Numeral.isDigitOf, Ascii.isHexDigit, hc, Ascii.digitValue_lt hc]

theorem isDigitOf_sixteen : ∀ c, Ascii.isHexDigit c = true → Numeral.isDigitOf 16 c = true := by
  decide +kernel

theorem isLower_of_mem_word :
    ∀ word ∈ [utf8 "basic", utf8 "code"], ∀ c ∈ word, Ascii.isLower c = true := by
  decide +kernel

theorem isLower_basic : ∀ c ∈ utf8 "basic", Ascii.isLower c = true :=
  isLower_of_mem_word _ List.mem_cons_self

theorem isLower_code : ∀ c ∈ utf8 "code", Ascii.isLower c = true :=
  isLower_of_mem_word _ (List.mem_cons_of_mem _ List.mem_cons_self)

/-! ### Parts of a line -/

namespace Rest

variable {column : Nat} {s : Bytes}

theorem takeWhile_append {p : UInt8 → Bool} {word : Bytes} (hword : ∀ c ∈ word, p c = true)
    (hs : ∀ c ∈ s.head?, p c = false) :
    takeWhile p ⟨column, word ++ s⟩ = (word, ⟨column + word.length, s⟩) := by
  have hrun : (word ++ s).takeWhile p = word := by
    rw [Bytes.takeWhile_append_of_head hs, List.takeWhile_eq_self_iff.mpr hword]
  unfold takeWhile drop
  simp only [hrun, List.drop_left]

theorem skipBlanks_append {blanks : Bytes} (hblanks : Blanks blanks)
    (hs : ∀ c ∈ s.head?, Ascii.isSpace c = false) :
    skipBlanks ⟨column, blanks ++ s⟩ = ⟨column + blanks.length, s⟩ := by
  have hspace : ∀ c ∈ blanks, Ascii.isSpace c = true := by
    intro c hc
    rcases hblanks c hc with rfl | rfl <;> rfl
  rw [skipBlanks, takeWhile_append hspace hs]

theorem readString_append {blanks content : Bytes} (hblanks : Blanks blanks)
    (hcontent : Quotable content) (column : Nat) (s : Bytes) :
    ∃ column', readString ⟨column, blanks ++ (inQuotes content ++ s)⟩ =
      .ok (content, ⟨column', s⟩) := by
  have hskip : skipBlanks ⟨column, blanks ++ (inQuotes content ++ s)⟩ =
      ⟨column + blanks.length, inQuotes content ++ s⟩ :=
    skipBlanks_append hblanks (by simp [inQuotes, Ascii.quote, Ascii.isSpace])
  have hinside : ∀ c ∈ content, (c != Ascii.quote) = true := by
    intro c hc
    rw [bne_iff_ne]
    rintro rfl
    exact hcontent.1 hc
  have htake (column : Nat) : takeWhile (· != Ascii.quote) ⟨column, content ++ Ascii.quote :: s⟩ =
      (content, ⟨column + content.length, Ascii.quote :: s⟩) :=
    takeWhile_append hinside (by simp)
  refine ⟨column + blanks.length + 1 + content.length + 1, ?_⟩
  unfold readString
  rw [hskip]
  simp [inQuotes, drop, htake]

end Rest

/-! ### What follows a part -/

/-- Whatever there is begins with a blank or a comment. -/
def Free (s : Bytes) : Prop := ∀ c ∈ s.head?, c = 0x20 ∨ c = 0x09 ∨ c = 0x23

theorem Free.head {s : Bytes} (hs : Free s) {p : UInt8 → Bool}
    (hp : p 0x20 = false ∧ p 0x09 = false ∧ p 0x23 = false) : ∀ c ∈ s.head?, p c = false := by
  intro c hc
  rcases hs c hc with rfl | rfl | rfl
  · exact hp.1
  · exact hp.2.1
  · exact hp.2.2

theorem Blanks.free_append {blanks s : Bytes} (hblanks : Blanks blanks) (hs : Free s) :
    Free (blanks ++ s) := by
  cases blanks with
  | nil => exact hs
  | cons c blanks =>
    rintro d hd
    cases hd
    rcases hblanks c List.mem_cons_self with h | h
    · exact Or.inl h
    · exact Or.inr (Or.inl h)

theorem Gap.free_append {gap : Bytes} (hgap : Gap gap) (s : Bytes) : Free (gap ++ s) := by
  obtain ⟨hblanks, hne⟩ := hgap
  obtain ⟨c, gap, rfl⟩ := List.exists_cons_of_ne_nil hne
  intro d hd
  exact hblanks.free_append (s := []) (by simp [Free]) d (by simpa using hd)

theorem Ending.free {s : Bytes} (hs : Ending s) : Free s := by
  cases hs with
  | blank hblanks => simpa using hblanks.free_append (s := []) (by simp [Free])
  | comment hblanks => exact hblanks.free_append (by simp [Free])

theorem NameText.free_append {name text ending : Bytes} (hname : NameText name text)
    (hending : Ending ending) : Free (text ++ ending) := by
  cases hname with
  | none => exact hending.free
  | bare hgap =>
    rw [List.append_assoc]
    exact hgap.free_append _
  | quoted hgap =>
    rw [List.append_assoc]
    exact hgap.free_append _

theorem Ending.skipBlanks {s : Bytes} (hs : Ending s) (column : Nat) :
    ∃ column' rest, Rest.skipBlanks ⟨column, s⟩ = ⟨column', rest⟩ ∧ Ending rest ∧
      ∀ c ∈ rest.head?, c = 0x23 := by
  cases hs with
  | blank hblanks =>
    have hskip : Rest.skipBlanks ⟨column, s ++ []⟩ = ⟨column + s.length, []⟩ :=
      Rest.skipBlanks_append hblanks (by simp)
    rw [List.append_nil] at hskip
    exact ⟨_, [], hskip, .blank (by simp [Blanks]), by simp⟩
  | @comment blanks text hblanks htext =>
    have hskip : Rest.skipBlanks ⟨column, blanks ++ 0x23 :: text⟩ =
        ⟨column + blanks.length, 0x23 :: text⟩ :=
      Rest.skipBlanks_append hblanks (by simp [Ascii.isSpace])
    have hcomment : Ending ([] ++ 0x23 :: text) := .comment (by simp [Blanks]) htext
    exact ⟨_, _, hskip, hcomment, by simp⟩

theorem Ending.isDone {s : Bytes} (hs : Ending s) (column : Nat) :
    (Rest.skipBlanks ⟨column, s⟩).isDone = true := by
  obtain ⟨column', rest, hskip, -, hhead⟩ := hs.skipBlanks column
  rw [hskip]
  cases rest with
  | nil => rfl
  | cons c rest =>
    obtain rfl := hhead c rfl
    rfl

/-! ### Names and addresses -/

theorem NameText.readName {name text ending : Bytes} (hname : NameText name text)
    (hending : Ending ending) (column : Nat) :
    ∃ column' rest, Rest.readName ⟨column, text ++ ending⟩ = .ok (name, ⟨column', rest⟩) ∧
      Ending rest := by
  cases hname with
  | none =>
    obtain ⟨column', rest, hskip, hrest, hhead⟩ := hending.skipBlanks column
    have hquote : (rest.head? == some Ascii.quote) = false := by
      cases rest with
      | nil => rfl
      | cons c rest =>
        obtain rfl := hhead c rfl
        rfl
    have htake : Rest.takeWhile Ascii.isWord ⟨column', [] ++ rest⟩ = ([], ⟨column', rest⟩) :=
      Rest.takeWhile_append (by simp) (hrest.free.head (by decide))
    refine ⟨column', rest, ?_, hrest⟩
    rw [List.nil_append] at htake ⊢
    simp only [Rest.readName, hskip, hquote, Bool.false_eq_true, if_false, htake]
  | @bare gap name hgap hne hword =>
    obtain ⟨c, more, rfl⟩ := List.exists_cons_of_ne_nil hne
    have hc := hword c List.mem_cons_self
    have hhead : ((c :: more ++ ending).head? == some Ascii.quote) = false := by
      have hne : c ≠ Ascii.quote := by
        rintro rfl
        cases hc
      simpa using hne
    have hskip : Rest.skipBlanks ⟨column, gap ++ (c :: more ++ ending)⟩ =
        ⟨column + gap.length, c :: more ++ ending⟩ :=
      Rest.skipBlanks_append hgap.1 (by simp [Ascii.isSpace_of_isWord hc])
    have htake : Rest.takeWhile Ascii.isWord ⟨column + gap.length, c :: more ++ ending⟩ =
        (c :: more, ⟨column + gap.length + (c :: more).length, ending⟩) :=
      Rest.takeWhile_append hword (hending.free.head (by decide))
    refine ⟨column + gap.length + (c :: more).length, ending, ?_, hending⟩
    rw [List.append_assoc]
    simp only [Rest.readName, hskip, hhead, Bool.false_eq_true, if_false, htake]
  | @quoted gap name hgap hquotable =>
    have hskip : Rest.skipBlanks ⟨column, gap ++ (inQuotes name ++ ending)⟩ =
        ⟨column + gap.length, inQuotes name ++ ending⟩ :=
      Rest.skipBlanks_append hgap.1 (by simp [inQuotes, Ascii.quote, Ascii.isSpace])
    have hnone : Blanks [] := by simp [Blanks]
    obtain ⟨column', hread⟩ := Rest.readString_append hnone hquotable (column + gap.length) ending
    refine ⟨column', ending, ?_, hending⟩
    rw [List.append_assoc, Rest.readName, hskip]
    exact hread

theorem readFrom_of_digits {base most n : Nat} {digits : Bytes} (hbase : 0 < base)
    (hdigits : ∀ c ∈ digits, Numeral.isDigitOf base c = true)
    (hmost : digits.foldl (fun n c => n * base + Ascii.digitValue c) n ≤ most) :
    Numeral.readFrom base most n digits =
      .ok (digits.foldl (fun n c => n * base + Ascii.digitValue c) n) := by
  induction digits generalizing n with
  | nil => rfl
  | cons c digits ih =>
    obtain ⟨hc, hdigits⟩ := List.forall_mem_cons.mp hdigits
    -- The value only grows with further digits.
    have hgrows : ∀ (digits : Bytes) (n : Nat),
        n ≤ digits.foldl (fun n c => n * base + Ascii.digitValue c) n := by
      intro digits
      induction digits with
      | nil => exact fun n => Nat.le_refl n
      | cons c digits ih =>
        intro n
        refine Nat.le_trans ?_ (ih (n * base + Ascii.digitValue c))
        have := Nat.le_mul_of_pos_right n hbase
        omega
    have hle := (hgrows digits (n * base + Ascii.digitValue c)).trans hmost
    rw [Numeral.readFrom, hc]
    simp only [if_true, List.foldl_cons, if_neg (Nat.not_lt.mpr hle)]
    exact ih hdigits hmost

theorem addressOf_of_digits {base : Nat} {missing : Cause} {digits : Bytes} (after : Rest)
    (hbase : 0 < base) (hne : digits ≠ []) (hdigits : ∀ c ∈ digits, Numeral.isDigitOf base c = true)
    (hrange : Bytes.valueOfDigits base digits ≤ 65535) :
    Rest.addressOf base missing digits after = .ok (Bytes.valueOfDigits base digits, after) := by
  have hread : Numeral.readUnsigned base 16 digits = .ok (Bytes.valueOfDigits base digits) := by
    rw [Numeral.readUnsigned, List.isEmpty_eq_false_iff.mpr hne]
    exact readFrom_of_digits hbase hdigits hrange
  rw [Rest.addressOf, List.isEmpty_eq_false_iff.mpr hne, hread]
  rfl

theorem AddressText.readAddress {address : Nat} {gap text s : Bytes}
    (haddress : AddressText address text) (hrange : address ≤ 65535) (hgap : Gap gap) (hs : Free s)
    (column : Nat) :
    ∃ column', Rest.readAddress ⟨column, gap ++ (text ++ s)⟩ = .ok (address, ⟨column', s⟩) := by
  cases haddress with
  | decimal hne hdigits =>
    obtain ⟨d, more, rfl⟩ := List.exists_cons_of_ne_nil hne
    have hd := hdigits d List.mem_cons_self
    have hskip : Rest.skipBlanks ⟨column, gap ++ (d :: more ++ s)⟩ =
        ⟨column + gap.length, d :: more ++ s⟩ :=
      Rest.skipBlanks_append hgap.1 (by simp [Ascii.isSpace_of_isWord (Ascii.isWord_of_isDigit hd)])
    have htake : Rest.takeWhile Ascii.isDigit ⟨column + gap.length, d :: more ++ s⟩ =
        (d :: more, ⟨column + gap.length + (d :: more).length, s⟩) :=
      Rest.takeWhile_append hdigits (hs.head (by decide))
    -- Behind the first digit there is another one, a blank, a comment or nothing, but no `x`.
    have hmark : (Ascii.toLower (((d :: more ++ s).drop 1).head?.getD 0) == 0x78) = false := by
      cases more with
      | cons e more =>
        have he := hdigits e (by simp)
        rw [beq_eq_false_iff_ne]
        show Ascii.toLower e ≠ 0x78
        rw [Ascii.toLower_of_isDigit he]
        exact Ascii.ne_of_isDigit he (by decide)
      | nil =>
        cases s with
        | nil => rfl
        | cons c s => rcases hs c rfl with rfl | rfl | rfl <;> rfl
    refine ⟨column + gap.length + (d :: more).length, ?_⟩
    simp only [Rest.readAddress, hskip, hmark, Bool.and_false, Bool.false_eq_true, if_false, htake]
    exact addressOf_of_digits _ (by decide) hne (fun c hc => isDigitOf_ten c (hdigits c hc)) hrange
  | @hexadecimal x digits hx hne hdigits =>
    have hskip : Rest.skipBlanks ⟨column, gap ++ (0x30 :: x :: digits ++ s)⟩ =
        ⟨column + gap.length, 0x30 :: x :: digits ++ s⟩ :=
      Rest.skipBlanks_append hgap.1 (by simp [Ascii.isSpace])
    have htake : Rest.takeWhile Ascii.isHexDigit ⟨column + gap.length + 2, digits ++ s⟩ =
        (digits, ⟨column + gap.length + 2 + digits.length, s⟩) :=
      Rest.takeWhile_append hdigits (hs.head (by decide))
    have hmark : (Ascii.toLower x == 0x78) = true := by rcases hx with rfl | rfl <;> rfl
    refine ⟨column + gap.length + 2 + digits.length, ?_⟩
    rw [Rest.readAddress, hskip]
    simp only [List.cons_append, List.head?_cons, List.drop_succ_cons, List.drop_zero, Option.getD_some,
      hmark, Rest.drop, htake]
    exact addressOf_of_digits _ (by decide) hne (fun c hc => isDigitOf_sixteen c (hdigits c hc)) hrange

/-! ### Lines -/

theorem isAlpha_of_toLower {word spelling : Bytes} (hword : word.map Ascii.toLower = spelling)
    (hspelling : ∀ c ∈ spelling, Ascii.isLower c = true) : ∀ c ∈ word, Ascii.isAlpha c = true := by
  intro c hc
  have hlower := hspelling _ (by rw [← hword]; exact List.mem_map_of_mem hc)
  unfold Ascii.toLower at hlower
  split_ifs at hlower with hupper
  · simp [Ascii.isAlpha, hupper]
  · simp [Ascii.isAlpha, hlower]

theorem finish_of_read {column column' : Nat} {d : Directive} {rest : Bytes} (hrest : Ending rest)
    {r : Except Rest.Fault (Directive × Rest)} (hr : r = .ok (d, ⟨column', rest⟩)) :
    Rest.finish column r = .directive column d none := by
  rw [hr, Rest.finish]
  simp only [hrest.isDone column', if_true]

/-- The word of a line decides how what follows it is read. -/
theorem parse_word {lead word gap rest spelling : Bytes} (hlead : Blanks lead)
    (hword : word.map Ascii.toLower = spelling) (hne : spelling ≠ [])
    (hspelling : ∀ c ∈ spelling, Ascii.isLower c = true) (hgap : Gap gap) :
    DocLine.parse (lead ++ (word ++ (gap ++ rest))) =
      let after : Rest := ⟨1 + lead.length + word.length, gap ++ rest⟩
      if spelling == utf8 "basic" then Rest.finish (1 + lead.length) after.readBasic
      else if spelling == utf8 "code" then Rest.finish (1 + lead.length) after.readCode
      else .fault (1 + lead.length) (.unknownCommand spelling) := by
  have halpha := isAlpha_of_toLower hword hspelling
  have hempty : spelling.isEmpty = false := by simpa using hne
  obtain ⟨c, more, rfl⟩ : ∃ c more, word = c :: more := by
    refine List.exists_cons_of_ne_nil ?_
    rintro rfl
    exact hne hword.symm
  have hc := halpha c List.mem_cons_self
  have hspace : Ascii.isSpace c = false :=
    Ascii.isSpace_of_isWord (Ascii.isWord_of_isAlpha hc)
  have hcomment : c ≠ 0x23 := by
    rintro rfl
    cases hc
  have hskip : Rest.skipBlanks ⟨1, lead ++ (c :: more ++ (gap ++ rest))⟩ =
      ⟨1 + lead.length, c :: more ++ (gap ++ rest)⟩ :=
    Rest.skipBlanks_append hlead (by simp [hspace])
  have hdone : Rest.isDone ⟨1 + lead.length, c :: more ++ (gap ++ rest)⟩ = false := by
    simp [Rest.isDone, hcomment]
  have htake : Rest.takeWhile Ascii.isAlpha ⟨1 + lead.length, c :: more ++ (gap ++ rest)⟩ =
      (c :: more, ⟨1 + lead.length + (c :: more).length, gap ++ rest⟩) :=
    Rest.takeWhile_append halpha ((hgap.free_append rest).head (by decide))
  simp only [DocLine.parse, hskip, hdone, Bool.false_eq_true, if_false, htake, hword, hempty]

theorem parse_directive {lead text ending : Bytes} {d : Directive} (hlead : Blanks lead)
    (htext : DirectiveText d text) (hending : Ending ending) :
    DocLine.parse (lead ++ (text ++ ending)) = .directive (1 + lead.length) d none := by
  cases htext with
  | @basic word gap path name nameText hword hgap hpath hname =>
    obtain ⟨column, hstring⟩ := Rest.readString_append hgap.1 hpath (1 + lead.length + word.length)
      (nameText ++ ending)
    obtain ⟨column', rest, hread, hrest⟩ := hname.readName hending column
    simp only [List.append_assoc]
    rw [parse_word hlead hword (by decide) isLower_basic hgap]
    exact finish_of_read hrest (bind_eq_ok_iff.mpr ⟨_, hstring, bind_eq_ok_iff.mpr ⟨_, hread, rfl⟩⟩)
  | @code word gap path gap' addressText name nameText address hword hgap hpath hgap' haddress hrange
      hname =>
    obtain ⟨column, hstring⟩ := Rest.readString_append hgap.1 hpath (1 + lead.length + word.length)
      (gap' ++ (addressText ++ (nameText ++ ending)))
    obtain ⟨column', haddress⟩ :=
      haddress.readAddress hrange hgap' (hname.free_append hending) column
    obtain ⟨column'', rest, hread, hrest⟩ := hname.readName hending column'
    simp only [List.append_assoc]
    rw [parse_word hlead hword (by decide) isLower_code hgap]
    exact finish_of_read hrest (bind_eq_ok_iff.mpr ⟨_, hstring,
      bind_eq_ok_iff.mpr ⟨_, haddress, bind_eq_ok_iff.mpr ⟨_, hread, rfl⟩⟩⟩)

theorem parse_empty {row : Bytes} (hrow : Ending row) : DocLine.parse row = .blank := by
  unfold DocLine.parse
  simp only [hrow.isDone 1, if_true]

/-! ### Rows -/

theorem unbroken_append {s t : Bytes} : Unbroken (s ++ t) ↔ Unbroken s ∧ Unbroken t :=
  List.forall_mem_append

theorem Blanks.unbroken {s : Bytes} (hs : Blanks s) : Unbroken s := by
  intro c hc
  rcases hs c hc with rfl | rfl <;> rfl

theorem Quotable.unbroken {s : Bytes} (hs : Quotable s) : Unbroken (inQuotes s) := by
  intro c hc
  simp only [inQuotes, List.mem_cons, List.mem_append, List.not_mem_nil, or_false] at hc
  rcases hc with rfl | hc | rfl
  · rfl
  · exact hs.2 c hc
  · rfl

theorem Ending.unbroken {s : Bytes} (hs : Ending s) : Unbroken s := by
  cases hs with
  | blank hblanks => exact hblanks.unbroken
  | comment hblanks htext =>
    exact unbroken_append.mpr ⟨hblanks.unbroken, List.forall_mem_cons.mpr ⟨rfl, htext⟩⟩

theorem NameText.unbroken {name text : Bytes} (h : NameText name text) : Unbroken text := by
  cases h with
  | none => simp [Unbroken]
  | bare hgap hname hword =>
    exact unbroken_append.mpr ⟨hgap.1.unbroken, fun c hc => Ascii.isBreak_of_isWord (hword c hc)⟩
  | quoted hgap hname => exact unbroken_append.mpr ⟨hgap.1.unbroken, hname.unbroken⟩

theorem AddressText.unbroken {address : Nat} {text : Bytes} (h : AddressText address text) :
    Unbroken text := by
  have hhex (c : UInt8) (hc : Ascii.isHexDigit c = true) : Bytes.isBreak c = false :=
    Ascii.isBreak_of_isWord (Ascii.isWord_of_isHexDigit c hc)
  cases h with
  | decimal hne hdigits => exact fun c hc => hhex c (by simp [Ascii.isHexDigit, hdigits c hc])
  | hexadecimal hx hne hdigits =>
    have hplain : Unbroken _ := fun c hc => hhex c (hdigits c hc)
    refine List.forall_mem_cons.mpr ⟨rfl, List.forall_mem_cons.mpr ⟨?_, hplain⟩⟩
    rcases hx with rfl | rfl <;> rfl

theorem unbroken_word {word spelling : Bytes} (hword : word.map Ascii.toLower = spelling)
    (hspelling : ∀ c ∈ spelling, Ascii.isLower c = true) : Unbroken word := by
  intro c hc
  exact Ascii.isBreak_of_isWord (Ascii.isWord_of_isAlpha (isAlpha_of_toLower hword hspelling c hc))

theorem DirectiveText.unbroken {d : Directive} {text : Bytes} (h : DirectiveText d text) :
    Unbroken text := by
  cases h with
  | basic hword hgap hpath hname =>
    simp only [unbroken_append]
    exact ⟨unbroken_word hword isLower_basic, hgap.1.unbroken, hpath.unbroken, hname.unbroken⟩
  | code hword hgap hpath hgap' haddress hrange hname =>
    simp only [unbroken_append]
    exact ⟨unbroken_word hword isLower_code, hgap.1.unbroken, hpath.unbroken, hgap'.1.unbroken,
      haddress.unbroken, hname.unbroken⟩

theorem Row.unbroken {d : Option (Bytes × Directive)} {row : Bytes} (h : Row d row) :
    Unbroken row := by
  cases h with
  | empty hrow => exact hrow.unbroken
  | directive hlead htext hending =>
    simp only [unbroken_append]
    exact ⟨hlead.unbroken, htext.unbroken, hending.unbroken⟩

theorem Row.isPrefix {d : Option (Bytes × Directive)} {row : Bytes} (h : Row d row) :
    ∀ p ∈ d.toList, p.1 <+: row := by
  cases h with
  | empty hrow => simp
  | directive hlead htext hending =>
    intro p hp
    cases Option.mem_toList.mp hp
    exact List.prefix_append _ _

theorem Row.eq_none {d : Option (Bytes × Directive)} {row : Bytes} (h : Row d row) (hrow : row = []) :
    d = none := by
  cases h with
  | empty => rfl
  | directive hlead htext hending => cases htext <;> simp [inQuotes] at hrow

/-! ### Documents -/

namespace Written

variable {placed : List (Bytes × Directive)} {source : Bytes}

theorem isPrefix (h : Written placed source) : ∀ p ∈ placed, p.1 <+: source := by
  induction h with
  | last hrow => exact hrow.isPrefix
  | @cons d placed row brk rest hrow hbrk hrest ih =>
    intro p hp
    rcases List.mem_append.mp hp with hp | hp
    · exact (hrow.isPrefix p hp).trans (List.prefix_append _ _)
    · obtain ⟨q, hq, rfl⟩ := List.mem_map.mp hp
      exact (List.prefix_append_right_inj row).mpr ((List.prefix_append_right_inj brk).mpr (ih q hq))

theorem uncons (h : Written placed source) :
    (∃ d, Row d source ∧ placed = d.toList) ∨
      ∃ d placed' row brk rest, Row d row ∧ brk ∈ Bytes.breaks ∧ Bytes.EndsBreak brk rest ∧
        Written placed' rest ∧ source = row ++ (brk ++ rest) ∧
        placed = d.toList ++ placed'.map fun p => (row ++ (brk ++ p.1), p.2) := by
  cases h with
  | @last d _ hrow => exact Or.inl ⟨d, hrow, rfl⟩
  | @cons d placed row brk rest hrow hbrk hrest =>
    by_cases hends : Bytes.EndsBreak brk rest
    · exact Or.inr ⟨d, placed, row, brk, rest, hrow, hbrk, hends, hrest, rfl, rfl⟩
    -- A carriage return before an empty line with a line feed: the two are one break.
    · obtain ⟨rfl, hlf⟩ : brk = [Ascii.cr] ∧ rest.head? = some Ascii.lf := by
        simpa [Bytes.EndsBreak] using hends
      have hplain {d : Option (Bytes × Directive)} {row : Bytes} (hrow : Row d row) :
          row.head? ≠ some Ascii.lf := by
        intro hhead
        have := hrow.unbroken _ (List.mem_of_mem_head? hhead)
        cases this
      cases hrest with
      | last hrow' => exact absurd hlf (hplain hrow')
      | @cons d' placed row' brk' rest hrow' hbrk' hrest =>
        cases row' with
        | cons a row' =>
          have hhead : (a :: row').head? = some Ascii.lf := hlf
          exact absurd hhead (hplain hrow')
        | nil =>
          obtain rfl := hrow'.eq_none rfl
          obtain rfl : brk' = [Ascii.lf] := by
            simp only [Bytes.breaks, List.mem_cons, List.not_mem_nil, or_false] at hbrk'
            rcases hbrk' with rfl | rfl | rfl
            · cases hlf
            · cases hlf
            · rfl
          refine Or.inr ⟨d, placed, row, [Ascii.cr, Ascii.lf], rest, hrow, by simp [Bytes.breaks],
            by simp [Bytes.EndsBreak], hrest, rfl, ?_⟩
          simp

end Written

/-- The place behind a text that starts with a line, in the document at a path. -/
def locationFrom (path : Bytes) (line : Nat) (before : Bytes) : Location :=
  ⟨path, (Bytes.placeFrom line 1 before).1, (Bytes.placeFrom line 1 before).2⟩

section following

variable {env : Environment} {c : Journal.Context} {path : Bytes}
  {placed : List (Bytes × Directive)} {source : Bytes}

/-- Follows directives in their order, each at a place. -/
def followAll (env : Environment) (c : Journal.Context) (located : List (Location × Directive)) :
    Work Unit :=
  located.forM fun p => follow env c p.1 p.2

/-- The directives with the places of their words, the text starting with a line. -/
def locate (path : Bytes) (line : Nat) (placed : List (Bytes × Directive)) :
    List (Location × Directive) :=
  placed.map fun p => (locationFrom path line p.1, p.2)

theorem followLine_row {d : Option (Bytes × Directive)} {row : Bytes} (hrow : Row d row) (line : Nat) :
    followLine env c path line row = followAll env c (locate path line d.toList) := by
  cases hrow with
  | empty hrow =>
    rw [followLine, parse_empty hrow]
    rfl
  | @directive lead text ending d hlead htext hending =>
    have hplace : locationFrom path line lead = ⟨path, line, (1 + lead.length : Nat)⟩ := by
      rw [locationFrom, Bytes.placeFrom_row hlead.unbroken]
    rw [followLine, parse_directive hlead htext hending]
    simp [followAll, locate, hplace]

theorem locate_behind {row brk rest : Bytes} (hrow : Unbroken row) (hbrk : brk ∈ Bytes.breaks)
    (hends : Bytes.EndsBreak brk rest) (hrest : Written placed rest) (line : Nat) :
    locate path line (placed.map fun p => (row ++ (brk ++ p.1), p.2)) =
      locate path (line + 1) placed := by
  unfold locate
  rw [List.map_map]
  refine List.map_congr_left fun p hp => ?_
  have hbehind : Bytes.EndsBreak brk p.1 := hends.of_prefix (hrest.isPrefix p hp)
  simp only [Function.comp_apply, locationFrom, Bytes.placeFrom_plain hrow,
    Bytes.placeFrom_break hbrk hbehind]

theorem followLines_written (h : Written placed source) (line : Nat) :
    followLines env c path line source.lines = followAll env c (locate path line placed) := by
  induction hlength : source.length using Nat.strong_induction_on generalizing placed source line with
  | _ length ih =>
  subst hlength
  rcases h.uncons with ⟨d, hrow, rfl⟩ |
    ⟨d, placed, row, brk, rest, hrow, hbrk, hends, hrest, rfl, rfl⟩
  · rw [Bytes.lines_plain hrow.unbroken, followLines, followLines, followLine_row hrow]
    simp
  · have hempty : followLines env c path (line + 1) (if rest = [] then [] else rest.lines) =
        followLines env c path (line + 1) rest.lines := by
      split_ifs with hnil
      · have hblank : Row none [] := .empty (.blank (by simp [Blanks]))
        rw [hnil, Bytes.lines_plain hblank.unbroken, followLines, followLines, followLine_row hblank]
        rfl
      · rfl
    have hshorter : rest.length < (row ++ (brk ++ rest)).length := by
      have hpos : brk ≠ [] := by
        rintro rfl
        simp [Bytes.breaks] at hbrk
      have := List.length_pos_iff.mpr hpos
      simp only [List.length_append]
      omega
    rw [Bytes.lines_break hrow.unbroken hbrk hends, followLines, followLine_row hrow, hempty,
      ih _ hshorter hrest (line + 1) rfl, ← locate_behind hrow.unbroken hbrk hends hrest]
    simp [followAll, locate]

end following

/-- Adds the file of a directive, the text before its word being given. -/
def addFile (env : Environment) (c : Journal.Context) (path before : Bytes) : Directive → Work Unit
  | .basic file name =>
    discard (addBasic env c ⟨path, (Bytes.placeBehind before).1, (Bytes.placeBehind before).2⟩
      { path := file, name })
  | .code file address name =>
    discard (addCode env c ⟨path, (Bytes.placeBehind before).1, (Bytes.placeBehind before).2⟩
      { path := file, address, name })

/-- Builds the archive of directives: forgets the files of an earlier document, adds those of the
directives in their order, up to the first failure, and builds the archive if there is none. -/
def processDirectives (env : Environment) (c : Journal.Context) (path : Bytes)
    (placed : List (Bytes × Directive)) : Work Bytes := do
  let (inner, event) := c.enter path
  note event
  reset
  let work : Work Bytes := do
    placed.forM fun (before, d) => addFile env inner path before d
    build inner
  tryCatch work fun failure => throw (inner.wrap .inDocument failure)

/-- **All that counts of a text document is what it directs, and where**: every rendering of
directives is processed as these directives, each at the place of its word. -/
theorem processText_written (env : Environment) (c : Journal.Context) (path : Bytes)
    {placed : List (Bytes × Directive)} {source : Bytes} (h : Written placed source) :
    processText env c path source = processDirectives env c path placed := by
  have hfollow (inner : Journal.Context) : followLines env inner path 1 source.lines =
      placed.forM fun (before, d) => addFile env inner path before d := by
    have hadd (p : Bytes × Directive) : follow env inner (locationFrom path 1 p.1) p.2 =
        addFile env inner path p.1 p.2 := by
      rcases p with ⟨before, file | file⟩ <;> rfl
    rw [followLines_written h, followAll, locate, List.forM_eq_forM, List.forM_map]
    simp only [hadd]
    rfl
  unfold processText inDocument processDirectives
  simp only [hfollow]

/-- A document with a comment line, an empty line, comments behind directives, and all breaks. -/
def mixedDocument : Bytes :=
  "# list\r\n \tBaSiC\t\"a b.bas\"  Name_1#first\r\rCODE \"b.bin\" 0X8000 \"two words\"\t\ncode \"c\" 010 # last"

/-- The directives of that document with what stands before their words. -/
def mixedDirectives : List (Bytes × Directive) :=
  [("# list\r\n \t", .basic "a b.bas" "Name_1"),
    ("# list\r\n \tBaSiC\t\"a b.bas\"  Name_1#first\r\r", .code "b.bin" 32768 "two words"),
    ("# list\r\n \tBaSiC\t\"a b.bas\"  Name_1#first\r\rCODE \"b.bin\" 0X8000 \"two words\"\t\n",
      .code "c" 10 [])]

theorem written_mixedDocument : Written mixedDirectives mixedDocument := by
  have hcomment : Row none ([] ++ 0x23 :: utf8 " list") := by
    refine .empty (.comment ?_ ?_) <;> decide +kernel
  have hempty : Row none [] := .empty (.blank (by decide))
  have hbasic : Row (some (utf8 " \t", .basic "a b.bas" "Name_1"))
      (utf8 " \t" ++ (utf8 "BaSiC" ++ (utf8 "\t" ++ (inQuotes "a b.bas" ++
        (utf8 "  " ++ utf8 "Name_1"))) ++ ([] ++ 0x23 :: utf8 "first"))) := by
    refine .directive ?_ (.basic ?_ ?_ ?_ (.bare ?_ ?_ ?_)) (.comment ?_ ?_) <;> decide +kernel
  have haddress : AddressText 32768 (0x30 :: 0x58 :: utf8 "8000") := by
    rw [show 32768 = Bytes.valueOfDigits 16 (utf8 "8000") by decide +kernel]
    refine .hexadecimal (Or.inr rfl) ?_ ?_ <;> decide +kernel
  have hcode : Row (some ([], .code "b.bin" 32768 "two words"))
      ([] ++ (utf8 "CODE" ++ (utf8 " " ++ (inQuotes "b.bin" ++ (utf8 " " ++
        (0x30 :: 0x58 :: utf8 "8000" ++ (utf8 " " ++ inQuotes "two words"))))) ++ utf8 "\t")) := by
    refine .directive ?_ (.code ?_ ?_ ?_ ?_ haddress ?_ (.quoted ?_ ?_)) (.blank ?_) <;> decide +kernel
  have haddress' : AddressText 10 (utf8 "010") := by
    rw [show 10 = Bytes.valueOfDigits 10 (utf8 "010") by decide +kernel]
    refine .decimal ?_ ?_ <;> decide +kernel
  have hlast : Row (some ([], .code "c" 10 []))
      ([] ++ (utf8 "code" ++ (utf8 " " ++ (inQuotes "c" ++ (utf8 " " ++ (utf8 "010" ++ [])))) ++
        (utf8 " " ++ 0x23 :: utf8 " last"))) := by
    refine .directive ?_ (.code ?_ ?_ ?_ ?_ haddress' ?_ .none) (.comment ?_ ?_) <;> decide +kernel
  have hcrlf : [Ascii.cr, Ascii.lf] ∈ Bytes.breaks := by decide
  have hcr : [Ascii.cr] ∈ Bytes.breaks := by decide
  have hlf : [Ascii.lf] ∈ Bytes.breaks := by decide
  have h := Written.cons hcomment hcrlf
    (.cons hbasic hcr (.cons hempty hcr (.cons hcode hlf (.last hlast))))
  exact (congrArg₂ Written (by decide +kernel) (by decide +kernel)).mp h

theorem processText_written_mixedDocument :
    processText {} {} "list" mixedDocument = processDirectives {} {} "list" mixedDirectives ∧
      mixedDirectives.map (fun p => Bytes.placeBehind p.1) = [(2, 3), (4, 1), (5, 1)] :=
  ⟨processText_written {} {} "list" written_mixedDocument, by decide +kernel⟩

end SpectrumTape.Document
