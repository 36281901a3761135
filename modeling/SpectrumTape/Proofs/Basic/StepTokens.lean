import SpectrumTape.Basic.Token
import SpectrumTape.Proofs.Vocabulary.Longest

/-!
# The tokens of a step

Every token of a step was read from the text that is left of the line: a keyword that is found there, a
number or a string that begins there, bytes of the text itself or what an escape of it stands for
(`Stems`, `Lexer.stems_step`). The mode tells which tokens can be read at all.
-/

namespace SpectrumTape.Basic

/-- Where a token comes from that is read in a mode from `here` on. -/
inductive Stems (v : Vocabulary) : Mode → Bytes → Token → Prop where
  | fault {mode : Mode} {here : Bytes} (cause : Cause) : Stems v mode here (.fault cause)
  | lineEnd {mode : Mode} {here : Bytes} : Stems v mode here .lineEnd
  | ignored {first : Bool} {here : Bytes} : Stems v (.statement first) here .ignored
  | label {here : Bytes} (name : Bytes) : Stems v (.statement true) here (.label name)
  | lineNumber {here : Bytes} (n : Nat) : Stems v (.statement true) here (.lineNumber n)
  | statement {here : Bytes} : Stems v (.statement true) here .statement
  | reference {here rest : Bytes} {name : Bytes} (hhere : here = 0x40 :: rest)
      (hname : name = rest.takeWhile Ascii.isWord) :
      Stems v (.statement false) here (.reference name)
  | keyword {first : Bool} {here : Bytes} {found : Spelling.Found}
      (hfound : v.findKeyword? here = some found) :
      Stems v (.statement first) here (.keyword found.code)
  | number {here s : Bytes} {binary : Bool} {n : Number} (hs : s <:+ here)
      (hread : (Literal.readNumber binary s).result = .ok n) :
      Stems v (.statement false) here (.number n)
  | string {here content : Bytes} (hread : (Literal.readString v here).result = .ok content) :
      Stems v (.statement false) here (.string content)
  | plain {mode : Mode} {here bytes : Bytes} (hbytes : bytes <+: here) : Stems v mode here (.plain bytes)
  | blank {afterBlank : Bool} {here : Bytes} : Stems v (.remark afterBlank) here (.plain [0x20])
  | escape {afterBlank : Bool} {here rest : Bytes} {found : Spelling.Found}
      (hhere : here = Ascii.backslash :: rest) (hfound : v.findEscape? rest = some found) :
      Stems v (.remark afterBlank) here (.plain [found.code])

namespace Lexer

variable {v : Vocabulary} {mode : Mode} {here : Bytes} {offset : Nat} {t : Token}

theorem mem_read {size : Nat} {tokens : List Token}
    (h : (offset, t) ∈ (Step.read size tokens mode).tokens) : offset = size ∧ t ∈ tokens := by
  obtain ⟨u, hu, heq⟩ := List.mem_map.mp h
  cases heq
  exact ⟨rfl, hu⟩

theorem mem_read_singleton {size : Nat} {u : Token}
    (h : (offset, t) ∈ (Step.read size [u] mode).tokens) : t = u :=
  List.mem_singleton.mp (mem_read h).2

theorem mem_fail {size : Nat} {cause : Cause} (h : (offset, t) ∈ (Step.fail size cause).tokens) :
    t = .fault cause :=
  (Prod.mk.inj (List.mem_singleton.mp h)).2

theorem stems_fail {size : Nat} {cause : Cause} (h : (offset, t) ∈ (Step.fail size cause).tokens) :
    Stems v mode here t := by
  rw [mem_fail h]
  exact .fault cause

theorem stems_endLine (h : (offset, t) ∈ endLine.tokens) : Stems v mode here t := by
  cases List.mem_singleton.mp h
  exact .lineEnd

theorem stems_ofRead {α : Type} {before : Nat} {token : α → Token} {r : Read α}
    (htoken : ∀ a, r.result = .ok a → Stems v mode here (token a))
    (h : (offset, t) ∈ (Step.ofRead before token r).tokens) : Stems v mode here t := by
  unfold Step.ofRead at h
  split at h
  · rename_i a hread
    rw [mem_read_singleton h]
    exact htoken a hread
  · exact stems_fail h

theorem stems_keywordStep {first : Bool} {found : Spelling.Found}
    (hfound : v.findKeyword? here = some found)
    (hfirst : first = true → found.code ≠ Code.bin)
    (h : (offset, t) ∈ (keywordStep found.code found.size found.rest).tokens) :
    Stems v (.statement first) here t := by
  unfold keywordStep at h
  dsimp only at h
  split_ifs at h with hbin
  · obtain rfl : first = false := by
      rw [← Bool.not_eq_true]
      exact fun htrue => hfirst htrue (beq_iff_eq.mp hbin)
    have hrest : found.rest <:+ here := by
      rw [(Vocabulary.findKeyword?_bounds hfound).2]
      exact List.drop_suffix _ _
    exact stems_ofRead (fun n hread => .number ((List.drop_suffix _ _).trans hrest) hread) h
  · rw [mem_read_singleton h]
    exact .keyword hfound
  · rw [mem_read_singleton h]
    exact .keyword hfound

theorem stems_plainStep (h : (offset, t) ∈ (plainStep here).tokens) : Stems v mode here t := by
  unfold plainStep at h
  dsimp only at h
  split_ifs at h
  · rw [mem_read_singleton h]
    exact .plain (List.takeWhile_prefix _)
  · rw [mem_read_singleton h]
    exact .plain (List.take_prefix _ _)

theorem stems_wordStep {first : Bool}
    (h : (offset, t) ∈ (wordStep v first here).tokens) : Stems v (.statement first) here t := by
  unfold wordStep at h
  split at h
  · rename_i found hfound
    dsimp only at h
    split_ifs at h with hfirst hbin
    · exact stems_fail h
    · subst hfirst
      rcases List.mem_cons.mp h with h | h
      · cases h
        exact .statement
      · exact stems_keywordStep hfound (fun _ => by simpa using hbin) h
    · exact stems_keywordStep hfound (fun htrue => absurd htrue hfirst) h
  · split_ifs at h
    · exact stems_fail h
    · exact stems_plainStep h

theorem stems_labelStep (h : (offset, t) ∈ (labelStep here).tokens) :
    Stems v (.statement true) here t := by
  unfold labelStep at h
  dsimp only at h
  split at h
  · split_ifs at h
    · rw [mem_read_singleton h]
      exact .label _
    · exact stems_fail h
  · exact stems_fail h

theorem stems_lineNumberStep (h : (offset, t) ∈ (lineNumberStep here).tokens) :
    Stems v (.statement true) here t := by
  unfold lineNumberStep at h
  dsimp only at h
  split at h
  · split_ifs at h
    · rw [mem_read_singleton h]
      exact .lineNumber _
    · exact stems_fail h
  · exact stems_fail h

theorem stems_referenceStep {rest : Bytes}
    (h : (offset, t) ∈ (referenceStep (0x40 :: rest)).tokens) :
    Stems v (.statement false) (0x40 :: rest) t := by
  unfold referenceStep at h
  dsimp only at h
  split_ifs at h
  · exact stems_fail h
  · rw [mem_read_singleton h]
    exact .reference rfl rfl

theorem stems_lineEscapeStep {first : Bool} {rest : Bytes}
    (h : (offset, t) ∈ (lineEscapeStep first rest).tokens) : Stems v (.statement first) here t := by
  unfold lineEscapeStep at h
  dsimp only at h
  split_ifs at h
  · cases h
  · cases List.mem_singleton.mp h
    exact .ignored

theorem stems_statementStep {first : Bool}
    (h : (offset, t) ∈ (statementStep v first here).tokens) : Stems v (.statement first) here t := by
  cases here with
  | nil => exact stems_endLine h
  | cons c rest =>
    have hnumber {offset : Nat}
        (h : (offset, t) ∈ (Step.ofRead 0 .number (Literal.readNumber false (c :: rest))).tokens) :
        Stems v (.statement false) (c :: rest) t :=
      stems_ofRead (fun n hread => .number List.suffix_rfl hread) h
    simp only [statementStep] at h
    cases first with
    | true =>
      simp only [if_true] at h
      split_ifs at h with hspace hcomment hescape hsymbol hdigit hpoint hquote
      · exact absurd (mem_read h).2 List.not_mem_nil
      · exact stems_endLine h
      · exact stems_lineEscapeStep h
      · exact stems_labelStep h
      · exact stems_lineNumberStep h
      · exact stems_fail h
      · exact stems_fail h
      · exact stems_wordStep h
    | false =>
      simp only [Bool.false_eq_true, if_false] at h
      split_ifs at h with hspace hcomment hescape hsymbol hdigit hpoint hquote
      · exact absurd (mem_read h).2 List.not_mem_nil
      · exact stems_endLine h
      · exact stems_lineEscapeStep h
      · rw [beq_iff_eq.mp hsymbol] at h ⊢
        exact stems_referenceStep h
      · exact hnumber h
      · exact hnumber h
      · exact stems_ofRead (fun content hread => .string hread) h
      · exact stems_wordStep h

theorem stems_remarkStep {afterBlank : Bool}
    (h : (offset, t) ∈ (remarkStep v afterBlank here).tokens) : Stems v (.remark afterBlank) here t := by
  cases here with
  | nil => exact stems_endLine h
  | cons c rest =>
    simp only [remarkStep] at h
    split_ifs at h with hescape hblank hspace hafter
    · cases h
    · split at h
      · rename_i found hfound
        rw [mem_read_singleton h]
        exact .escape (by rw [beq_iff_eq.mp hescape]) hfound
      · exact stems_fail h
    · exact absurd (mem_read h).2 List.not_mem_nil
    · rw [mem_read_singleton h]
      exact .blank
    · rw [mem_read_singleton h]
      exact .plain (List.takeWhile_prefix _)
    · rw [mem_read_singleton h]
      exact .plain (List.prefix_append [c] rest)

/-- **Every token of a step stems from the text that is left of the line.** -/
theorem stems_step (h : (offset, t) ∈ (step v mode here).tokens) : Stems v mode here t := by
  cases mode with
  | statement first => exact stems_statementStep h
  | remark afterBlank => exact stems_remarkStep h

/-! ### Words -/

theorem plain_of_isAlnum {c : UInt8} (hc : Ascii.isAlnum c = true) :
    Ascii.isSpace c = false ∧ c ≠ Ascii.backslash := by
  have hall : ∀ c : UInt8, Ascii.isAlnum c = true →
      Ascii.isSpace c = false ∧ c ≠ Ascii.backslash := by
    decide +kernel
  exact hall c hc

theorem isDigit_of_isAlpha {c : UInt8} (hc : Ascii.isAlpha c = true) : Ascii.isDigit c = false := by
  simp only [Ascii.isAlpha, Ascii.isLower, Ascii.isUpper, Bool.or_eq_true, Bool.and_eq_true,
    decide_eq_true_eq, UInt8.le_iff_toNat_le, UInt8.reduceToNat] at hc
  simp only [Ascii.isDigit, Bool.and_eq_false_iff, decide_eq_false_iff_not, UInt8.le_iff_toNat_le,
    UInt8.reduceToNat]
  omega

theorem statementStep_of_isAlpha {c : UInt8} (hc : Ascii.isAlpha c = true) (first : Bool)
    (rest : Bytes) : statementStep v first (c :: rest) = wordStep v first (c :: rest) := by
  obtain ⟨hspace, hescape⟩ := plain_of_isAlnum (show Ascii.isAlnum c = true by simp [Ascii.isAlnum, hc])
  have hne {d : UInt8} (hd : Ascii.isAlpha d = false) : c ≠ d := by
    rintro rfl
    rw [hc] at hd
    cases hd
  have hcomment : c ≠ 0x23 := hne (by decide)
  have hsymbol : c ≠ 0x40 := hne (by decide)
  have hpoint : c ≠ 0x2E := hne (by decide)
  have hquote : c ≠ Ascii.quote := hne (by decide)
  simp [statementStep, hspace, isDigit_of_isAlpha hc, hcomment, hescape, hsymbol, hpoint, hquote]

theorem statementStep_of_spelled {dialect : Dialect} {letter code : UInt8} {letters : Bytes}
    {found : Spelling.Found} (hword : Vocabulary.isOnlySpelling (letter :: letters) code)
    (hletter : Ascii.isAlpha letter = true)
    (hfound : (Vocabulary.ofDialect dialect).findKeyword? here = some found)
    (hcode : found.code = code) (first : Bool) :
    statementStep (.ofDialect dialect) first here = wordStep (.ofDialect dialect) first here := by
  have hlower : ∀ c : UInt8, Ascii.isAlpha (Ascii.toLower c) = Ascii.isAlpha c := by decide +kernel
  obtain ⟨hlength, hequal, -⟩ := Vocabulary.found_of_spelled hword hfound hcode
  cases here with
  | nil => simp at hlength
  | cons c rest =>
    have hc : Ascii.toLower c = Ascii.toLower letter := (List.cons.inj hequal).1
    apply statementStep_of_isAlpha
    rw [← hlower, hc, hlower, hletter]

theorem statementStep_of_rem {dialect : Dialect} {size : Nat} {rest : Bytes}
    (hfound : (Vocabulary.ofDialect dialect).findKeyword? here = some ⟨Code.rem, size, rest⟩)
    (first : Bool) :
    statementStep (.ofDialect dialect) first here =
      ⟨(if first then [(0, .statement)] else []) ++
          [(size + (rest.takeWhile Ascii.isSpace).length, .keyword Code.rem)],
        .advance (size + (rest.takeWhile Ascii.isSpace).length - 1) (.remark false)⟩ := by
  rw [statementStep_of_spelled Vocabulary.isOnlySpelling_rem (by decide) hfound rfl, wordStep, hfound]
  cases first <;> rfl

theorem remarkStep_of_isAlnum {c : UInt8} (hc : Ascii.isAlnum c = true) (afterBlank : Bool)
    (rest : Bytes) :
    remarkStep v afterBlank (c :: rest) =
      .read ((c :: rest).takeWhile Ascii.isAlnum).length
        [.plain ((c :: rest).takeWhile Ascii.isAlnum)] (.remark false) := by
  obtain ⟨hspace, hescape⟩ := plain_of_isAlnum hc
  simp [remarkStep, hescape, hspace, hc]

end Lexer

end SpectrumTape.Basic
