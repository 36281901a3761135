import SpectrumTape.Proofs.Basic.LiteralWalk
import SpectrumTape.Proofs.Basic.LogicalLine
import SpectrumTape.Proofs.Vocabulary.Escapes

/-!
# String literals

Between its quotes a string is a sequence of items: bytes that stand for themselves, doubled quotes
and escapes. One item is read at a time, and what is read of it does not depend on what follows
(`StringItem.stringFrom_append`); where no item begins, the string is closed or at fault
(`StringItem.begins_or_closes_or_fails`). So a string is read exactly if it is such a sequence, closed
by a quote that is not doubled (`Lexer.statementStep_string`).
-/

namespace SpectrumTape.Basic

open Literal

/-- A piece of a string. -/
inductive StringItem (dialect : Dialect) where
  /-- A byte that stands for itself. -/
  | plain (c : UInt8) (notQuote : c ≠ Ascii.quote) (notEscape : c ≠ Ascii.backslash)
    (notBreak : Bytes.isBreak c = false)
  /-- A quote, which is written twice and stays so. -/
  | quotes
  /-- A backslash and a sequence that stands for a character. -/
  | escape (e : Escape) (known : e ∈ Vocabulary.escapesOf dialect)

namespace StringItem

variable {dialect : Dialect}

def text : StringItem dialect → Bytes
  | plain c _ _ _ => [c]
  | quotes => [Ascii.quote, Ascii.quote]
  | escape e _ => Ascii.backslash :: e.sequence

def content : StringItem dialect → Bytes
  | plain c _ _ _ => [c]
  | quotes => [Ascii.quote, Ascii.quote]
  | escape e _ => [e.code]

def texts (items : List (StringItem dialect)) : Bytes := items.flatMap text

def contents (items : List (StringItem dialect)) : Bytes := items.flatMap content

/-- The text behind an opening quote is that of items, a closing quote, which is not doubled, and a
rest. -/
def Closes (items : List (StringItem dialect)) (s rest : Bytes) : Prop :=
  s = texts items ++ Ascii.quote :: rest ∧ rest.head? ≠ some Ascii.quote

theorem texts_cons (i : StringItem dialect) (items : List (StringItem dialect)) :
    texts (i :: items) = i.text ++ texts items := rfl

theorem contents_cons (i : StringItem dialect) (items : List (StringItem dialect)) :
    contents (i :: items) = i.content ++ contents items := rfl

theorem text_ne_nil (i : StringItem dialect) : i.text ≠ [] := by
  cases i <;> exact List.cons_ne_nil _ _

/-! ### Reading one item -/

variable {size : Nat} {done s : Bytes}

theorem stringFrom_escape {e : Escape} (he : e ∈ Vocabulary.escapesOf dialect) :
    stringFrom (.ofDialect dialect) size 0 done (Ascii.backslash :: (e.sequence ++ s)) =
      stringFrom (.ofDialect dialect) (size + (1 + e.sequence.length)) 0 (e.code :: done) s := by
  have hfound : (Vocabulary.ofDialect dialect).findEscape? (e.sequence ++ s) =
      some ⟨e.code, e.sequence.length, s⟩ :=
    Vocabulary.findEscape?_eq_some_iff.mpr ⟨e, he, rfl, rfl⟩
  have hskip := stringFrom_skip (.ofDialect dialect) (size + 1) e.sequence.length (e.code :: done)
    (s := e.sequence ++ s) (by simp)
  rw [List.drop_left] at hskip
  rw [← Nat.add_assoc, ← hskip, stringFrom, if_neg (by decide), if_pos (by decide), hfound]

theorem stringFrom_append (i : StringItem dialect) :
    stringFrom (.ofDialect dialect) size 0 done (i.text ++ s) =
      stringFrom (.ofDialect dialect) (size + i.text.length) 0 (i.content.reverse ++ done) s := by
  cases i with
  | plain c notQuote notEscape notBreak =>
    simp [text, content, stringFrom, notQuote, notEscape]
  | quotes => rfl
  | escape e known =>
    rw [text, List.cons_append, stringFrom_escape known, List.length_cons, Nat.add_comm 1]
    rfl

theorem stringFrom_close (h : s.head? ≠ some Ascii.quote) :
    stringFrom (.ofDialect dialect) size 0 done (Ascii.quote :: s) = ⟨size + 1, .ok done.reverse⟩ := by
  simp [stringFrom, h]

theorem begins_or_closes_or_fails (dialect : Dialect) (hs : ∀ c ∈ s, Bytes.isBreak c = false) :
    (∃ (i : StringItem dialect) (t : Bytes), s = i.text ++ t) ∨
      (∃ t, s = Ascii.quote :: t ∧ t.head? ≠ some Ascii.quote) ∨
        ∀ size done, ∃ behind cause,
          stringFrom (.ofDialect dialect) size 0 done s = ⟨behind, .error cause⟩ := by
  cases s with
  | nil => exact Or.inr (Or.inr fun size done => ⟨size, _, rfl⟩)
  | cons c t =>
    by_cases hquote : c = Ascii.quote
    · subst hquote
      by_cases hdouble : t.head? = some Ascii.quote
      · obtain ⟨t, rfl⟩ := List.head?_eq_some_iff.mp hdouble
        exact Or.inl ⟨quotes, t, rfl⟩
      · exact Or.inr (Or.inl ⟨t, rfl, hdouble⟩)
    · by_cases hescape : c = Ascii.backslash
      · subst hescape
        cases hfound : (Vocabulary.ofDialect dialect).findEscape? t with
        | some found =>
          obtain ⟨e, he, htext, -⟩ := Vocabulary.findEscape?_eq_some_iff.mp hfound
          exact Or.inl ⟨escape e he, found.rest, by rw [htext]; rfl⟩
        | none =>
          refine Or.inr (Or.inr fun size done => ⟨size + 1, .stringEscape, ?_⟩)
          rw [stringFrom, if_neg (by decide), if_pos (by decide), hfound]
      · exact Or.inl ⟨plain c hquote hescape (hs c List.mem_cons_self), t, rfl⟩

/-! ### Reading a string -/

theorem stringFrom_closes {items : List (StringItem dialect)} {rest : Bytes} (h : Closes items s rest) :
    stringFrom (.ofDialect dialect) size 0 done s =
      ⟨size + (texts items).length + 1, .ok (done.reverse ++ contents items)⟩ := by
  obtain ⟨rfl, hrest⟩ := h
  induction items generalizing size done with
  | nil => simpa [texts, contents] using stringFrom_close hrest
  | cons i items ih =>
    rw [texts_cons, List.append_assoc, stringFrom_append, ih, contents_cons, List.length_append]
    simp [Nat.add_assoc]

theorem exists_closes (hs : ∀ c ∈ s, Bytes.isBreak c = false) {content : Bytes}
    (h : (stringFrom (.ofDialect dialect) size 0 done s).result = .ok content) :
    ∃ (items : List (StringItem dialect)) (rest : Bytes), Closes items s rest := by
  induction hlength : s.length using Nat.strong_induction_on generalizing s size done with
  | _ n ih =>
    rcases begins_or_closes_or_fails dialect hs with ⟨i, t, rfl⟩ | ⟨t, rfl, ht⟩ | hfails
    · rw [stringFrom_append] at h
      have hi := List.length_pos_iff.mpr i.text_ne_nil
      rw [List.length_append] at hlength
      obtain ⟨items, rest, rfl, hrest⟩ :=
        ih t.length (by omega) (fun c hc => hs c (List.mem_append_right _ hc)) h rfl
      refine ⟨i :: items, rest, ?_, hrest⟩
      rw [texts_cons, List.append_assoc]
    · exact ⟨[], t, rfl, ht⟩
    · obtain ⟨behind, cause, hfails⟩ := hfails size done
      rw [hfails] at h
      cases h

end StringItem

/-- The step reads `size` bytes as a string, which is written with its quotes or without them. -/
def Step.WritesString (step : Step) (size : Nat) (content : Bytes) : Prop :=
  ∃ token, step = .read size [token] (.statement false) ∧
    ∀ o constants symbols, Emission.tokenBytes o constants symbols token =
      .ok (if o.quoted then Ascii.quote :: (content ++ [Ascii.quote]) else content)

namespace Lexer

open StringItem

/-- **A string is accepted exactly if it is a sequence of items, closed by a quote that is not
doubled**, and what is written is what the items mean. -/
theorem statementStep_string (dialect : Dialect) (s : Bytes) :
    let step := statementStep (.ofDialect dialect) false (Ascii.quote :: s)
    (∀ (items : List (StringItem dialect)) rest, Closes items s rest →
      step.WritesString (1 + (texts items).length + 1) (contents items)) ∧
    ((∀ c ∈ s, Bytes.isBreak c = false) → ¬step.Fails →
      ∃ (items : List (StringItem dialect)) (rest : Bytes), Closes items s rest) := by
  intro step
  have hstep : step = .ofRead 0 .string (stringFrom (.ofDialect dialect) 1 0 [] s) := rfl
  refine ⟨fun items rest h => ?_, fun hs haccepted => ?_⟩
  · refine ⟨.string (contents items), ?_, fun _ _ _ => rfl⟩
    rw [hstep, stringFrom_closes h, Step.ofRead, Nat.zero_add]
    rfl
  · cases hread : (stringFrom (.ofDialect dialect) 1 0 [] s).result with
    | ok content => exact exists_closes hs hread
    | error cause =>
      have hfails : step.Fails :=
        ⟨0 + (stringFrom (.ofDialect dialect) 1 0 [] s).size, cause, by
          rw [hstep, Step.ofRead, hread]⟩
      exact absurd hfails haccepted

theorem statementStep_string_mixedItems :
    let items : List (StringItem .k48) :=
      [.plain 0x41 (by decide) (by decide) (by decide), .escape ⟨utf8 "::", 0x8F⟩ (by decide),
        .quotes, .escape ⟨utf8 "a", 0x90⟩ (by decide), .quotes]
    let s := texts items ++ Ascii.quote :: utf8 ";x$"
    let step := statementStep (.ofDialect .k48) false (Ascii.quote :: s)
    s = utf8 "A\\::\"\"\\a\"\"\";x$" ∧ Closes items s (utf8 ";x$") ∧
      step.WritesString 12 [0x41, 0x8F, 0x22, 0x22, 0x90, 0x22, 0x22] ∧
      (∀ c ∈ s, Bytes.isBreak c = false) ∧ ¬step.Fails ∧
      ∃ (items : List (StringItem .k48)) (rest : Bytes), Closes items s rest := by
  intro items s step
  have hcloses : Closes items s (utf8 ";x$") := ⟨rfl, by decide⟩
  have hall : (s.all fun c => !Bytes.isBreak c) = true := rfl
  have hunbroken : ∀ c ∈ s, Bytes.isBreak c = false := by
    intro c hc
    simpa using List.all_eq_true.mp hall c hc
  have hwrites := (statementStep_string .k48 s).1 items _ hcloses
  have haccepted : ¬step.Fails := by
    rintro ⟨offset, cause, hfail⟩
    obtain ⟨token, hread, -⟩ := hwrites
    cases hread.symm.trans hfail
  exact ⟨by decide, hcloses, hwrites, hunbroken, haccepted,
    (statementStep_string .k48 s).2 hunbroken haccepted⟩

end Lexer

end SpectrumTape.Basic
