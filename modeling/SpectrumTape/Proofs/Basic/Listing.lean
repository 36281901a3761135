import SpectrumTape.Basic.Listing
import SpectrumTape.Text.Lines
import SpectrumTape.Proofs.Number.Decimal
import Mathlib.Data.List.Forall2

/-!
# Listings of programs

A listing finds the lines of a program again if no number and no size is too large for its word
(`Listing.split_bytes`). Its text then has one line for each of them (`Listing.list_bytes`), because
nothing that is shown for the codes of a body breaks a line (`Listing.shown_lineContent`). A program
that is small enough has only such lines (`Listing.byLine_bytes`).
-/

namespace SpectrumTape.Basic

/-- A line whose number and size fit their words. -/
structure Line.Fits (l : Line) : Prop where
  number : l.number < 65536
  size : l.body.length < 65536

namespace Listing

theorem split_line_append {l : Line} (hl : l.Fits) (rest : Bytes) :
    split (l.bytes ++ rest) = ((l.number, l.body) :: (split rest).1, (split rest).2) := by
  obtain ⟨hnumber, hsize⟩ := hl
  have hhigh : (UInt8.ofNat (l.number / 256)).toNat * 256 + (UInt8.ofNat l.number).toNat =
      l.number := by
    simp only [UInt8.toNat_ofNat']
    omega
  have hlength : (UInt8.ofNat l.body.length).toNat + (UInt8.ofNat (l.body.length / 256)).toNat * 256 =
      l.body.length := by
    simp only [UInt8.toNat_ofNat']
    omega
  rw [Line.bytes, Line.header, List.append_assoc]
  simp only [List.cons_append, List.nil_append]
  rw [split]
  simp only [hhigh, hlength, List.take_left, List.drop_left, Nat.lt_irrefl, if_false]

theorem split_bytes {p : Program} (hp : ∀ l ∈ p, l.Fits) :
    split (Program.bytes p) = (p.map fun l => (l.number, l.body), none) := by
  induction p with
  | nil => simp [Program.bytes, split]
  | cons l p ih =>
    obtain ⟨hl, hp⟩ := List.forall_mem_cons.mp hp
    rw [Program.bytes, List.flatMap_cons, split_line_append hl]
    rw [Program.bytes] at ih
    rw [ih hp]
    rfl

/-! ### The text of a line -/

/-- What a listing shows of a line, without the byte that ends its text. -/
def lineContent (v : Vocabulary) (l : Line) : Bytes :=
  Bytes.decimal l.number ++ (bodyText v 0 l.body).flatten

def shown (c : UInt8) : Bool := 0x20 ≤ c && c < 0x7F

theorem shown_iff {c : UInt8} : shown c = true ↔ 32 ≤ c.toNat ∧ c.toNat < 127 := by
  simp [shown, UInt8.le_iff_toNat_le, UInt8.lt_iff_toNat_lt]

theorem shown_toUpper {c : UInt8} (hc : shown c = true) : shown (Ascii.toUpper c) = true := by
  rw [shown_iff] at hc ⊢
  unfold Ascii.toUpper Ascii.isLower
  split_ifs with hlower
  · have hrange : 97 ≤ c.toNat ∧ c.toNat ≤ 122 := by simpa [UInt8.le_iff_toNat_le] using hlower
    have hsub : (c - 0x20).toNat = c.toNat - 32 :=
      UInt8.toNat_sub_of_le _ _ (UInt8.le_iff_toNat_le.mpr (by change 32 ≤ c.toNat; omega))
    omega
  · exact hc

theorem shown_hexUpper (code : UInt8) : (Bytes.hexUpper 2 code.toNat).all shown = true := by
  have hall : ∀ n < 256, (Bytes.hexUpper 2 n).all shown = true := by decide +kernel
  exact hall code.toNat code.toNat_lt

theorem shown_keyword (dialect : Dialect) :
    ∀ k ∈ Vocabulary.keywordsOf dialect, k.primary.all shown = true := by
  have hcommon : ∀ k ∈ Vocabulary.commonKeywords, k.primary.all shown = true := by decide +kernel
  have hextra : ∀ k ∈ Vocabulary.extraKeywords, k.primary.all shown = true := by decide +kernel
  intro k hk
  unfold Vocabulary.keywordsOf at hk
  rcases List.mem_append.mp hk with hk | hk
  · exact hcommon k hk
  · split_ifs at hk
    · exact hextra k hk
    · cases hk

theorem shown_codeText (dialect : Dialect) (code : UInt8) :
    (codeText (Vocabulary.ofDialect dialect) code).all shown = true := by
  unfold codeText
  split_ifs with hend hplain
  · rfl
  · simpa [shown] using hplain
  · cases hname : (Vocabulary.ofDialect dialect).name? code with
    | none =>
      have hmark : (utf8 "\\x").all shown = true := by decide
      simp only [List.all_append, hmark, shown_hexUpper, Bool.and_self]
    | some name =>
      obtain ⟨k, hk, rfl⟩ := Option.map_eq_some_iff.mp hname
      have hprimary := shown_keyword dialect k (List.mem_of_find?_eq_some hk)
      have hblank : (utf8 " ").all shown = true := by decide
      have hupper : (k.primary.map Ascii.toUpper).all shown = true := by
        rw [List.all_map, List.all_eq_true]
        exact fun c hc => shown_toUpper (List.all_eq_true.mp hprimary c hc)
      simp only [List.all_append, hblank, hupper, Bool.and_self]

theorem shown_bodyText (dialect : Dialect) (skip : Nat) (body : Bytes) :
    (bodyText (Vocabulary.ofDialect dialect) skip body).flatten.all shown = true := by
  fun_induction bodyText (Vocabulary.ofDialect dialect) skip body with
  | case1 => rfl
  | case2 skip _ rest ih => exact ih
  | case3 code rest hcode ih => exact ih
  | case4 code rest hcode ih => rw [List.flatten_cons, List.all_append, shown_codeText, ih]; rfl

theorem shown_lineContent (dialect : Dialect) (l : Line) :
    (lineContent (Vocabulary.ofDialect dialect) l).all shown = true := by
  have hdecimal : (Bytes.decimal l.number).all shown = true := by
    rw [List.all_eq_true]
    intro c hc
    have hdigit := Ascii.isDigit_iff.mp (Bytes.isDigit_of_mem_decimal l.number c hc)
    rw [shown_iff]
    omega
  rw [lineContent, List.all_append, hdecimal, shown_bodyText]
  rfl

theorem isBreak_of_shown {c : UInt8} (hc : shown c = true) : Bytes.isBreak c = false := by
  rw [Bytes.isBreak, Bool.or_eq_false_iff, beq_eq_false_iff_ne, beq_eq_false_iff_ne]
  constructor
  · rintro rfl
    exact absurd hc (by decide)
  · rintro rfl
    exact absurd hc (by decide)

/-- **A program whose lines fit is listed line by line.** -/
theorem list_bytes (dialect : Dialect) {p : Program} (hp : ∀ l ∈ p, l.Fits) :
    list (Vocabulary.ofDialect dialect) (Program.bytes p) =
      { text := p.flatMap fun l => lineContent (Vocabulary.ofDialect dialect) l ++ [0x0A] } := by
  simp only [list, split_bytes hp, List.flatMap_map]
  rfl

/-! ### Programs on tape -/

/-- The bytes of lines that are listed as these lines: their numbers ascend, no size is too large for
its word, and in every dialect the text is one line for each of them, with its number in front. -/
structure ByLine (program : Bytes) (p : Program) : Prop where
  bytes : program = Program.bytes p
  number : ∀ l ∈ p, 1 ≤ l.number ∧ l.number ≤ 9999
  ascending : p.Pairwise fun l m => l.number < m.number
  size : ∀ l ∈ p, l.body.length < 65536
  lines : split program = (p.map fun l => (l.number, l.body), none)
  text : ∀ dialect, ∃ texts : List Bytes,
    list (Vocabulary.ofDialect dialect) program =
      { text := texts.flatMap (· ++ [Ascii.lf]), problem := none } ∧
    List.Forall₂ (fun l text => Bytes.decimal l.number <+: text ∧ ∀ c ∈ text, ¬Bytes.isBreak c)
      p texts

theorem length_body_lt {p : Program} {l : Line} (hl : l ∈ p) :
    l.body.length < (Program.bytes p).length := by
  have hpart : l.bytes.Sublist (Program.bytes p) := by
    rw [Program.bytes, List.flatMap_def]
    exact List.sublist_flatten_of_mem (List.mem_map_of_mem hl)
  have hlength : l.bytes.length = l.body.length + 4 := by
    rw [Line.bytes, List.length_append, Line.header, Nat.add_comm]
    rfl
  have hle := hpart.length_le
  omega

theorem byLine_bytes {p : Program} (hnumber : ∀ l ∈ p, 1 ≤ l.number ∧ l.number ≤ 9999)
    (hascending : p.Pairwise fun l m => l.number < m.number)
    (hlength : (Program.bytes p).length < 65536) : ByLine (Program.bytes p) p := by
  have hsize : ∀ l ∈ p, l.body.length < 65536 := fun l hl => (length_body_lt hl).trans hlength
  have hfits : ∀ l ∈ p, l.Fits := by
    intro l hl
    have hl' := hnumber l hl
    exact ⟨by omega, hsize l hl⟩
  refine ⟨rfl, hnumber, hascending, hsize, split_bytes hfits, fun dialect => ?_⟩
  refine ⟨p.map (lineContent (Vocabulary.ofDialect dialect)), ?_, ?_⟩
  · rw [list_bytes dialect hfits, List.flatMap_map]
    rfl
  · rw [List.forall₂_map_right_iff, List.forall₂_same]
    intro l _
    refine ⟨List.prefix_append _ _, fun c hc => ?_⟩
    rw [isBreak_of_shown (List.all_eq_true.mp (shown_lineContent dialect l) c hc)]
    exact Bool.false_ne_true

end Listing

end SpectrumTape.Basic
