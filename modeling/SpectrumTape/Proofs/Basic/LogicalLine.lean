import SpectrumTape.Basic.Token
import Mathlib.Tactic.Common

/-!
# Logical lines

A logical line is made of one or more lines of the source, each but the last joined to the next one
by a line escape. `logicalLines` are the logical lines of a source with the tokens read from them.
What a logical line opens with can be seen in its text alone (`LogicalLine.opening`): behind blanks,
labels and line escapes there is a number, or else a statement, or nothing if the line ends there or
a comment begins. The labels that stand before it can be seen in the text as well
(`LogicalLine.labels`).

The tokens of every logical line have the shape that its text asks for (`grouped_logicalLines`):
labels, then the opening and the tokens of the statement behind it, or labels alone if the text has
no opening. So a logical line is opened at most once, and nothing is written before it is opened.

The argument is a forward invariant over the reading (`Underway`): as long as no opening was found,
what is left of the text has the opening that the whole line has, and the labels that were not yet
read; once it was found, only tokens of a statement follow. `step_first` and `step_opened` say what a step can do in either case.
-/

namespace SpectrumTape.Basic

/-! ### Openings -/

/-- What a logical line opens with: a number of its own, or a statement without one. -/
inductive Opening where
  | number (n : Nat)
  | statement
  deriving DecidableEq, Repr

/-- The opening of a logical line of which `here` is left, `later` being the lines joined to it. -/
def openingFrom (here : Bytes) (later : List Bytes) : Option Opening :=
  match here with
  | [] => none
  | c :: rest =>
    if Ascii.isSpace c then openingFrom rest later
    else if c == 0x23 then none
    else if c == Ascii.backslash then
      match later with
      | [] => none
      | next :: later => openingFrom next later
    else if c == 0x40 then openingFrom ((rest.dropWhile Ascii.isWord).drop 1) later
    else if Ascii.isDigit c then
      some (.number (Bytes.valueOfDigits 10 ((c :: rest).takeWhile Ascii.isDigit)))
    else some .statement
termination_by here.length + later.flatten.length + later.length
decreasing_by
  · simp only [List.length_cons]
    omega
  · simp only [List.flatten_cons, List.length_append, List.length_cons]
    omega
  · have := (List.dropWhile_sublist Ascii.isWord (l := rest)).length_le
    simp only [List.length_drop, List.length_cons]
    omega

theorem openingFrom_nil (later : List Bytes) : openingFrom [] later = none := by
  rw [openingFrom.eq_def]

theorem openingFrom_space {c : UInt8} (hc : Ascii.isSpace c = true) (rest : Bytes)
    (later : List Bytes) : openingFrom (c :: rest) later = openingFrom rest later := by
  rw [openingFrom.eq_def]
  simp only [hc, if_true]

theorem openingFrom_comment (rest : Bytes) (later : List Bytes) :
    openingFrom (0x23 :: rest) later = none := by
  rw [openingFrom.eq_def]
  rfl

theorem openingFrom_escape_nil (rest : Bytes) : openingFrom (Ascii.backslash :: rest) [] = none := by
  rw [openingFrom.eq_def]
  rfl

theorem openingFrom_escape_cons (rest next : Bytes) (later : List Bytes) :
    openingFrom (Ascii.backslash :: rest) (next :: later) = openingFrom next later := by
  rw [openingFrom.eq_def]
  rfl

theorem openingFrom_label (rest : Bytes) (later : List Bytes) :
    openingFrom (0x40 :: rest) later =
      openingFrom ((rest.dropWhile Ascii.isWord).drop 1) later := by
  rw [openingFrom.eq_def]
  rfl

theorem openingFrom_digit {c : UInt8} (hc : Ascii.isDigit c = true) (rest : Bytes)
    (later : List Bytes) :
    openingFrom (c :: rest) later =
      some (.number (Bytes.valueOfDigits 10 ((c :: rest).takeWhile Ascii.isDigit))) := by
  have hrange : 48 ≤ c.toNat ∧ c.toNat ≤ 57 := by
    simpa [Ascii.isDigit, UInt8.le_iff_toNat_le] using hc
  have hother : Ascii.isSpace c = false ∧ c ≠ 0x23 ∧ c ≠ 0x5C ∧ c ≠ 0x40 := by
    simp only [Ascii.isSpace, Bool.or_eq_false_iff, beq_eq_false_iff_ne, Bool.and_eq_false_iff,
      decide_eq_false_iff_not, UInt8.le_iff_toNat_le, ne_eq, ← UInt8.toNat_inj, UInt8.toNat_ofNat]
    omega
  rw [openingFrom.eq_def]
  simp [hother, hc, Ascii.backslash]

theorem openingFrom_statement {c : UInt8} (hspace : ¬Ascii.isSpace c = true)
    (hcomment : ¬(c == 0x23) = true) (hescape : ¬(c == Ascii.backslash) = true)
    (hlabel : ¬(c == 0x40) = true) (hdigit : ¬Ascii.isDigit c = true) (rest : Bytes)
    (later : List Bytes) : openingFrom (c :: rest) later = some .statement := by
  rw [openingFrom.eq_def]
  simp only [hspace, hcomment, hescape, hlabel, hdigit, if_false, Bool.false_eq_true]

/-- The names of the labels `@name:` before the opening of a logical line of which `here` is left,
`later` being the lines joined to it. -/
def labelsFrom (here : Bytes) (later : List Bytes) : List Bytes :=
  match here with
  | [] => []
  | c :: rest =>
    if Ascii.isSpace c then labelsFrom rest later
    else if c == Ascii.backslash then
      match later with
      | [] => []
      | next :: later => labelsFrom next later
    else if c == 0x40 then
      rest.takeWhile Ascii.isWord :: labelsFrom ((rest.dropWhile Ascii.isWord).drop 1) later
    else []
termination_by here.length + later.flatten.length + later.length
decreasing_by
  · simp only [List.length_cons]
    omega
  · simp only [List.flatten_cons, List.length_append, List.length_cons]
    omega
  · have := (List.dropWhile_sublist Ascii.isWord (l := rest)).length_le
    simp only [List.length_drop, List.length_cons]
    omega

theorem labelsFrom_nil (later : List Bytes) : labelsFrom [] later = [] := by
  rw [labelsFrom.eq_def]

theorem labelsFrom_space {c : UInt8} (hc : Ascii.isSpace c = true) (rest : Bytes)
    (later : List Bytes) : labelsFrom (c :: rest) later = labelsFrom rest later := by
  rw [labelsFrom.eq_def]
  simp only [hc, if_true]

theorem labelsFrom_escape_nil (rest : Bytes) : labelsFrom (Ascii.backslash :: rest) [] = [] := by
  rw [labelsFrom.eq_def]
  rfl

theorem labelsFrom_escape_cons (rest next : Bytes) (later : List Bytes) :
    labelsFrom (Ascii.backslash :: rest) (next :: later) = labelsFrom next later := by
  rw [labelsFrom.eq_def]
  rfl

theorem labelsFrom_label (rest : Bytes) (later : List Bytes) :
    labelsFrom (0x40 :: rest) later =
      rest.takeWhile Ascii.isWord :: labelsFrom ((rest.dropWhile Ascii.isWord).drop 1) later := by
  rw [labelsFrom.eq_def]
  rfl

theorem labelsFrom_other {c : UInt8} (hspace : ¬Ascii.isSpace c = true)
    (hescape : ¬(c == Ascii.backslash) = true) (hlabel : ¬(c == 0x40) = true) (rest : Bytes)
    (later : List Bytes) : labelsFrom (c :: rest) later = [] := by
  rw [labelsFrom.eq_def]
  simp only [hspace, hescape, hlabel, if_false, Bool.false_eq_true]

/-- A logical line: the lines of the source that it spans, and the tokens read from them. -/
structure LogicalLine where
  text : List Bytes
  tokens : List Token
  deriving DecidableEq, Repr

/-- The opening that the lines of a logical line show. -/
def openingOf : List Bytes → Option Opening
  | [] => none
  | first :: later => openingFrom first later

def LogicalLine.opening (l : LogicalLine) : Option Opening := openingOf l.text

/-- The labels that the lines of a logical line show. -/
def labelsOf : List Bytes → List Bytes
  | [] => []
  | first :: later => labelsFrom first later

def LogicalLine.labels (l : LogicalLine) : List Bytes := labelsOf l.text

/-- The logical lines that end in a list of tokens: `lines` are the lines behind the `taken` ones of
earlier logical lines, and `tokens` are those read since. -/
def logicalFrom (lines : List Bytes) (taken : Nat) (tokens : List Token) :
    List Item → List LogicalLine
  | [] => []
  | i :: items =>
    if i.token = .lineEnd then
      ⟨lines.take (i.line - taken), tokens⟩ ::
        logicalFrom (lines.drop (i.line - taken)) i.line [] items
    else logicalFrom lines taken (tokens ++ [i.token]) items

/-- The logical lines of a source, as far as it can be read. -/
def logicalLines (v : Vocabulary) (source : Bytes) : List LogicalLine :=
  logicalFrom source.lines 0 [] (lex v source)

/-! ### The shape of a logical line -/

namespace Token

def opening? : Token → Option Opening
  | .lineNumber n => some (.number n)
  | .statement => some .statement
  | _ => none

/-- Whether a token can stand before the opening of a line. -/
def isFront : Token → Bool
  | .label _ | .ignored => true
  | _ => false

/-- Whether a token can stand behind the opening of a line. -/
def isBody : Token → Bool
  | .lineNumber _ | .label _ | .statement | .lineEnd | .fault _ => false
  | _ => true

def label? : Token → Option Bytes
  | .label name => some name
  | _ => none

theorem label?_of_isBody {t : Token} (ht : t.isBody) : t.label? = none := by
  cases t with
  | label name => simp [isBody] at ht
  | _ => rfl

theorem label?_of_opening {t : Token} {op : Opening} (hop : t.opening? = some op) :
    t.label? = none := by
  cases t with
  | label name => simp [opening?] at hop
  | _ => rfl

end Token

def labelNames (tokens : List Token) : List Bytes := tokens.filterMap Token.label?

theorem labelNames_append (tokens more : List Token) :
    labelNames (tokens ++ more) = labelNames tokens ++ labelNames more :=
  List.filterMap_append

theorem mem_labelNames {tokens : List Token} {name : Bytes} :
    name ∈ labelNames tokens ↔ .label name ∈ tokens := by
  unfold labelNames
  rw [List.mem_filterMap]
  constructor
  · rintro ⟨t, ht, hname⟩
    cases t with
    | label other =>
      cases hname
      exact ht
    | _ => cases hname
  · intro h
    exact ⟨_, h, rfl⟩

theorem labelNames_of_isBody {tokens : List Token} (h : ∀ t ∈ tokens, t.isBody) :
    labelNames tokens = [] :=
  List.filterMap_eq_nil_iff.mpr fun t ht => Token.label?_of_isBody (h t ht)

theorem labelNames_opening {t : Token} {op : Opening} {body : List Token}
    (hop : t.opening? = some op) (hbody : ∀ t ∈ body, t.isBody) : labelNames (t :: body) = [] := by
  rw [labelNames, List.filterMap_cons, Token.label?_of_opening hop]
  exact labelNames_of_isBody hbody

/-- The tokens of a logical line with a given opening. -/
inductive Shaped : Option Opening → List Token → Prop where
  | front {tokens : List Token} (hfront : ∀ t ∈ tokens, t.isFront) : Shaped none tokens
  | opened {front body : List Token} {t : Token} {op : Opening} (hfront : ∀ t ∈ front, t.isFront)
      (hop : t.opening? = some op) (hbody : ∀ t ∈ body, t.isBody) :
      Shaped (some op) (front ++ t :: body)

theorem Shaped.append_front {tokens more : List Token} (h : Shaped none tokens)
    (hmore : ∀ t ∈ more, t.isFront) : Shaped none (tokens ++ more) := by
  cases h with
  | front hfront =>
    exact .front fun t ht => (List.mem_append.mp ht).elim (hfront t) (hmore t)

theorem Shaped.append_opening {tokens body : List Token} {t : Token} {op : Opening}
    (h : Shaped none tokens) (hop : t.opening? = some op) (hbody : ∀ t ∈ body, t.isBody) :
    Shaped (some op) (tokens ++ t :: body) := by
  cases h with
  | front hfront => exact .opened hfront hop hbody

theorem Shaped.append_body {tokens more : List Token} {op : Opening} (h : Shaped (some op) tokens)
    (hmore : ∀ t ∈ more, t.isBody) : Shaped (some op) (tokens ++ more) := by
  cases h with
  | opened hfront hop hbody =>
    rw [List.append_assoc, List.cons_append]
    exact .opened hfront hop fun t ht => (List.mem_append.mp ht).elim (hbody t) (hmore t)

/-! ### What a step can do -/

/-- Whether nothing of the logical line was opened yet. -/
def Mode.isFirst : Mode → Bool
  | .statement first => first
  | .remark _ => false

namespace Step

/-- The step found the source at fault. -/
def Fails (s : Step) : Prop := ∃ offset cause, s = .fail offset cause

/-- The step read a part of a statement from `here` on, and goes on in the same statement. Only a
line escape takes it to the next line. -/
structure ReadsBody (here : Bytes) (s : Step) : Prop where
  tokens : ∀ p ∈ s.tokens, p.2.isBody
  next : (∃ more mode, s.next = .advance more mode ∧ mode.isFirst = false) ∨
    ∃ mode, s.next = .join mode ∧ mode.isFirst = false ∧ Ascii.backslash ∈ here

theorem readsBody_read {here : Bytes} (size : Nat) {tokens : List Token} {mode : Mode}
    (htokens : ∀ t ∈ tokens, t.isBody) (hmode : mode.isFirst = false) :
    ReadsBody here (.read size tokens mode) := by
  refine ⟨fun p hp => ?_, Or.inl ⟨_, _, rfl, hmode⟩⟩
  obtain ⟨t, ht, rfl⟩ := List.mem_map.mp hp
  exact htokens t ht

theorem fails_or_readsBody_ofRead {α : Type} {here : Bytes} (before : Nat) {token : α → Token}
    (r : Read α) (htoken : ∀ a, (token a).isBody) :
    (Step.ofRead before token r).Fails ∨ ReadsBody here (.ofRead before token r) := by
  unfold Step.ofRead
  split
  · rename_i a _
    exact Or.inr (readsBody_read _ (by simpa using htoken a) rfl)
  · exact Or.inl ⟨_, _, rfl⟩

end Step

namespace Lexer

theorem keywordStep_of_ne_bin {code : UInt8} (hcode : code ≠ Code.bin) (size : Nat) (rest : Bytes) :
    ∃ total mode, keywordStep code size rest = .read total [.keyword code] mode ∧
      mode.isFirst = false := by
  unfold keywordStep
  rw [if_neg (by simpa using hcode)]
  split
  · exact ⟨_, _, rfl, rfl⟩
  · exact ⟨_, _, rfl, rfl⟩

theorem keywordStep_cases {here : Bytes} (code : UInt8) (size : Nat) (rest : Bytes) :
    (keywordStep code size rest).Fails ∨ Step.ReadsBody here (keywordStep code size rest) := by
  by_cases hcode : code = Code.bin
  · unfold keywordStep
    rw [if_pos (by simpa using hcode)]
    exact Step.fails_or_readsBody_ofRead _ _ (fun _ => rfl)
  · obtain ⟨total, mode, hstep, hmode⟩ := keywordStep_of_ne_bin hcode size rest
    rw [hstep]
    exact Or.inr (Step.readsBody_read _ (by simp [Token.isBody]) hmode)

theorem plainStep_readsBody (s : Bytes) : Step.ReadsBody s (plainStep s) := by
  unfold plainStep
  split
  · exact Step.readsBody_read _ (by simp [Token.isBody]) rfl
  · exact Step.readsBody_read _ (by simp [Token.isBody]) rfl

theorem referenceStep_cases (s : Bytes) :
    (referenceStep s).Fails ∨ Step.ReadsBody s (referenceStep s) := by
  rw [referenceStep]
  split
  · exact Or.inl ⟨_, _, rfl⟩
  · exact Or.inr (Step.readsBody_read _ (by simp [Token.isBody]) rfl)

theorem lineEscapeStep_readsBody (rest : Bytes) :
    Step.ReadsBody (Ascii.backslash :: rest) (lineEscapeStep false rest) := by
  refine ⟨?_, Or.inr ⟨_, rfl, rfl, List.mem_cons_self⟩⟩
  unfold lineEscapeStep
  split
  · simp
  · simp [Token.isBody]

theorem wordStep_cases (v : Vocabulary) (s : Bytes) :
    (wordStep v false s).Fails ∨ Step.ReadsBody s (wordStep v false s) := by
  unfold wordStep
  split
  · exact keywordStep_cases _ _ _
  · exact Or.inr (plainStep_readsBody s)

theorem statementStep_opened (v : Vocabulary) (here : Bytes) :
    (statementStep v false here).Fails ∨ statementStep v false here = endLine ∨
      Step.ReadsBody here (statementStep v false here) := by
  unfold statementStep
  cases here with
  | nil => exact Or.inr (Or.inl rfl)
  | cons c rest =>
    simp only [Bool.false_eq_true, if_false]
    split_ifs with _ _ hescape
    · exact Or.inr (Or.inr (Step.readsBody_read _ (by simp) rfl))
    · exact Or.inr (Or.inl rfl)
    · rw [beq_iff_eq.mp hescape]
      exact Or.inr (Or.inr (lineEscapeStep_readsBody rest))
    · exact (referenceStep_cases _).imp_right Or.inr
    · exact (Step.fails_or_readsBody_ofRead _ _ (fun _ => rfl)).imp_right Or.inr
    · exact (Step.fails_or_readsBody_ofRead _ _ (fun _ => rfl)).imp_right Or.inr
    · exact (Step.fails_or_readsBody_ofRead _ _ (fun _ => rfl)).imp_right Or.inr
    · exact (wordStep_cases v _).imp_right Or.inr

theorem remarkStep_opened (v : Vocabulary) (afterBlank : Bool) (here : Bytes) :
    (remarkStep v afterBlank here).Fails ∨ remarkStep v afterBlank here = endLine ∨
      Step.ReadsBody here (remarkStep v afterBlank here) := by
  unfold remarkStep
  cases here with
  | nil => exact Or.inr (Or.inl rfl)
  | cons c rest =>
    simp only
    split_ifs with hescape
    · rw [beq_iff_eq.mp hescape]
      exact Or.inr (Or.inr ⟨by simp, Or.inr ⟨_, rfl, rfl, List.mem_cons_self⟩⟩)
    · split
      · exact Or.inr (Or.inr (Step.readsBody_read _ (by simp [Token.isBody]) rfl))
      · exact Or.inl ⟨_, _, rfl⟩
    · exact Or.inr (Or.inr (Step.readsBody_read _ (by simp) rfl))
    · exact Or.inr (Or.inr (Step.readsBody_read _ (by simp [Token.isBody]) rfl))
    · exact Or.inr (Or.inr (Step.readsBody_read _ (by simp [Token.isBody]) rfl))
    · exact Or.inr (Or.inr (Step.readsBody_read _ (by simp [Token.isBody]) rfl))

theorem step_nil (v : Vocabulary) (mode : Mode) : step v mode [] = endLine := by
  cases mode with
  | statement first => rfl
  | remark afterBlank => rfl

theorem step_opened (v : Vocabulary) {mode : Mode} (hmode : mode.isFirst = false) (here : Bytes) :
    (step v mode here).Fails ∨ step v mode here = endLine ∨
      Step.ReadsBody here (step v mode here) := by
  cases mode with
  | statement first =>
    obtain rfl : first = false := hmode
    exact statementStep_opened v here
  | remark afterBlank => exact remarkStep_opened v afterBlank here

/-- What a step can do before the opening of a logical line of which `here` is left. -/
inductive FirstStep (here : Bytes) : Step → Prop where
  | fails {s : Step} (h : s.Fails) : FirstStep here s
  | ends (hopening : ∀ joined, openingFrom here joined = none)
      (hlabels : ∀ joined, labelsFrom here joined = []) : FirstStep here endLine
  | passes {tokens : List (Nat × Token)} {more : Nat} (hfront : ∀ p ∈ tokens, p.2.isFront)
      (hopening : ∀ joined, openingFrom (here.drop (more + 1)) joined = openingFrom here joined)
      (hlabels : ∀ joined, labelsFrom here joined =
        labelNames (tokens.map Prod.snd) ++ labelsFrom (here.drop (more + 1)) joined) :
      FirstStep here ⟨tokens, .advance more (.statement true)⟩
  | joins {tokens : List (Nat × Token)} (hfront : ∀ p ∈ tokens, p.2.isFront)
      (hescape : Ascii.backslash ∈ here) (hlast : openingFrom here [] = none)
      (hopening : ∀ next joined, openingFrom here (next :: joined) = openingFrom next joined)
      (hnames : labelNames (tokens.map Prod.snd) = []) (hlabelsLast : labelsFrom here [] = [])
      (hlabels : ∀ next joined, labelsFrom here (next :: joined) = labelsFrom next joined) :
      FirstStep here ⟨tokens, .join (.statement true)⟩
  | opens {offset more : Nat} {t : Token} {body : List (Nat × Token)} {mode : Mode} {op : Opening}
      (hop : t.opening? = some op) (hbody : ∀ p ∈ body, p.2.isBody) (hmode : mode.isFirst = false)
      (hopening : ∀ joined, openingFrom here joined = some op)
      (hlabels : ∀ joined, labelsFrom here joined = []) :
      FirstStep here ⟨(offset, t) :: body, .advance more mode⟩

theorem openingFrom_dropWhile_isSpace (here : Bytes) (joined : List Bytes) :
    openingFrom (here.dropWhile Ascii.isSpace) joined = openingFrom here joined := by
  induction here with
  | nil => rfl
  | cons c rest ih =>
    by_cases hc : Ascii.isSpace c = true
    · rw [List.dropWhile_cons_of_pos hc, ih, openingFrom_space hc]
    · rw [List.dropWhile_cons_of_neg hc]

theorem labelsFrom_dropWhile_isSpace (here : Bytes) (joined : List Bytes) :
    labelsFrom (here.dropWhile Ascii.isSpace) joined = labelsFrom here joined := by
  induction here with
  | nil => rfl
  | cons c rest ih =>
    by_cases hc : Ascii.isSpace c = true
    · rw [List.dropWhile_cons_of_pos hc, ih, labelsFrom_space hc]
    · rw [List.dropWhile_cons_of_neg hc]

theorem drop_length_takeWhile {α : Type} (p : α → Bool) (s : List α) :
    s.drop (s.takeWhile p).length = s.dropWhile p := by
  conv => lhs; rw [← List.takeWhile_append_dropWhile (p := p) (l := s)]
  rw [List.drop_left' (by simp)]

theorem blankStep_first {c : UInt8} (hc : Ascii.isSpace c = true) (rest : Bytes) :
    FirstStep (c :: rest)
      (.read (Literal.runLength Ascii.isSpace (c :: rest)) [] (.statement true)) := by
  have hpos : 0 < Literal.runLength Ascii.isSpace (c :: rest) := by
    rw [Literal.runLength, List.takeWhile_cons_of_pos hc]
    simp
  have hrest : (c :: rest).drop (Literal.runLength Ascii.isSpace (c :: rest) - 1 + 1) =
      (c :: rest).dropWhile Ascii.isSpace := by
    rw [Nat.sub_add_cancel hpos, Literal.runLength, drop_length_takeWhile]
  refine .passes (by simp) (fun joined => ?_) fun joined => ?_
  · rw [hrest, openingFrom_dropWhile_isSpace]
  · rw [hrest, labelsFrom_dropWhile_isSpace]
    rfl

theorem lineEscapeStep_first (rest : Bytes) :
    FirstStep (Ascii.backslash :: rest) (lineEscapeStep true rest) := by
  refine .joins ?_ List.mem_cons_self (openingFrom_escape_nil rest) (openingFrom_escape_cons rest) ?_
    (labelsFrom_escape_nil rest) (labelsFrom_escape_cons rest)
  · split
    · simp
    · simp [Token.isFront]
  · split
    · rfl
    · rfl

theorem labelStep_first (rest : Bytes) : FirstStep (0x40 :: rest) (labelStep (0x40 :: rest)) := by
  rw [labelStep]
  split
  · rename_i c after hafter
    split
    · have hrest : (0x40 :: rest).drop
          (1 + (((0x40 :: rest).drop 1).takeWhile Ascii.isWord).length + 1 - 1 + 1) =
            (rest.dropWhile Ascii.isWord).drop 1 := by
        have hsize (n : Nat) : 1 + n + 1 - 1 + 1 = n + 1 + 1 := by omega
        rw [← drop_length_takeWhile, List.drop_drop, hsize, List.drop_succ_cons,
          List.drop_succ_cons, List.drop_zero]
      refine .passes (by simp [Token.isFront]) (fun joined => ?_) fun joined => ?_
      · rw [openingFrom_label, hrest]
      · rw [labelsFrom_label, hrest]
        rfl
    · exact .fails ⟨_, _, rfl⟩
  · exact .fails ⟨_, _, rfl⟩

theorem lineNumberStep_first {c : UInt8} (hc : Ascii.isDigit c = true) (rest : Bytes)
    (hlabels : ∀ joined, labelsFrom (c :: rest) joined = []) :
    FirstStep (c :: rest) (lineNumberStep (c :: rest)) := by
  rw [lineNumberStep]
  split
  · split
    · exact .opens rfl (by simp) rfl (openingFrom_digit hc rest) hlabels
    · exact .fails ⟨_, _, rfl⟩
  · exact .fails ⟨_, _, rfl⟩

theorem wordStep_first (v : Vocabulary) {here : Bytes}
    (hopening : ∀ joined, openingFrom here joined = some .statement)
    (hlabels : ∀ joined, labelsFrom here joined = []) : FirstStep here (wordStep v true here) := by
  unfold wordStep
  split
  · rename_i found _
    simp only [if_true]
    split
    · exact .fails ⟨_, _, rfl⟩
    · rename_i hcode
      obtain ⟨total, mode, hstep, hmode⟩ :=
        keywordStep_of_ne_bin (by simpa using hcode) found.size found.rest
      rw [hstep]
      exact .opens rfl (by simp [Step.read, Token.isBody]) hmode hopening hlabels
  · exact .fails ⟨_, _, rfl⟩

theorem statementStep_first (v : Vocabulary) (here : Bytes) :
    FirstStep here (statementStep v true here) := by
  unfold statementStep
  cases here with
  | nil => exact .ends openingFrom_nil labelsFrom_nil
  | cons c rest =>
    simp only [if_true]
    split_ifs with hspace hcomment hescape hlabel hdigit hpoint hquote
    · exact blankStep_first hspace rest
    · rw [beq_iff_eq.mp hcomment]
      exact .ends (openingFrom_comment rest)
        (labelsFrom_other (by decide) (by decide) (by decide) rest)
    · rw [beq_iff_eq.mp hescape]
      exact lineEscapeStep_first rest
    · rw [beq_iff_eq.mp hlabel]
      exact labelStep_first rest
    · exact lineNumberStep_first hdigit rest (labelsFrom_other hspace hescape hlabel rest)
    · exact .fails ⟨_, _, rfl⟩
    · exact .fails ⟨_, _, rfl⟩
    · exact wordStep_first v (openingFrom_statement hspace hcomment hescape hlabel hdigit rest)
        (labelsFrom_other hspace hescape hlabel rest)

theorem step_first (v : Vocabulary) {mode : Mode} (hmode : mode.isFirst = true) (here : Bytes) :
    FirstStep here (step v mode here) := by
  cases mode with
  | statement first =>
    obtain rfl : first = true := hmode
    exact statementStep_first v here
  | remark afterBlank => simp [Mode.isFirst] at hmode

end Lexer

/-! ### The reading of a logical line -/

/-- What holds of a logical line under way: it took in the lines `text`, `here` is left of the last
one, and `tokens` were read so far. -/
structure Underway (mode : Mode) (here : Bytes) (text : List Bytes) (tokens : List Token) : Prop where
  first (hmode : mode.isFirst = true) :
    Shaped none tokens ∧ (∀ joined, openingOf (text ++ joined) = openingFrom here joined) ∧
      ∀ joined, labelsOf (text ++ joined) = labelNames tokens ++ labelsFrom here joined
  opened (hmode : mode.isFirst = false) :
    ∃ op, Shaped (some op) tokens ∧ (∀ joined, openingOf (text ++ joined) = some op) ∧
      ∀ joined, labelsOf (text ++ joined) = labelNames tokens
  joined : ∀ line ∈ text.dropLast, Ascii.backslash ∈ line
  left : ∃ front, text.getLast? = some (front ++ here)

/-- What the text of a logical line says about it: each line but the last has a line escape, the
tokens are shaped as the opening asks for, and the labels among them are those of the text. -/
structure LogicalLine.Fits (l : LogicalLine) : Prop where
  joined : ∀ line ∈ l.text.dropLast, Ascii.backslash ∈ line
  shaped : Shaped l.opening l.tokens
  labels : l.labels = labelNames l.tokens

theorem underway_start (here : Bytes) : Underway (.statement true) here [here] [] where
  first _ := ⟨.front (by simp), fun _ => rfl, fun _ => rfl⟩
  opened hmode := by simp [Mode.isFirst] at hmode
  joined := by simp
  left := ⟨[], rfl⟩

/-- The logical lines of a list of tokens take up all lines, unless the source is at fault. -/
structure Grouped (lines : List Bytes) (items : List Item) (ls : List LogicalLine) : Prop where
  fits : ∀ l ∈ ls, l.Fits
  text (hfault : ∀ i ∈ items, ∀ cause, i.token ≠ .fault cause) :
    ls.flatMap LogicalLine.text = lines

theorem logicalFrom_append (lines : List Bytes) (taken : Nat) (tokens : List Token)
    {items : List Item} (hitems : ∀ i ∈ items, i.token ≠ .lineEnd) (rest : List Item) :
    logicalFrom lines taken tokens (items ++ rest) =
      logicalFrom lines taken (tokens ++ items.map Item.token) rest := by
  induction items generalizing tokens with
  | nil => simp
  | cons i items ih =>
    obtain ⟨hi, hitems⟩ := List.forall_mem_cons.mp hitems
    rw [List.cons_append, logicalFrom, if_neg hi, ih _ hitems]
    simp

theorem grouped_nil (taken : Nat) : Grouped [] [] (logicalFrom [] taken [] []) where
  fits := by simp [logicalFrom]
  text _ := rfl

theorem grouped_fault (lines : List Bytes) (taken : Nat) (tokens : List Token) (line column : Nat)
    (cause : Cause) :
    Grouped lines [⟨line, column, .fault cause⟩]
      (logicalFrom lines taken tokens [⟨line, column, .fault cause⟩]) where
  fits := by simp [logicalFrom]
  text hfault := by simp at hfault

theorem grouped_append {lines : List Bytes} {taken : Nat} {tokens : List Token}
    {items rest : List Item} (hitems : ∀ i ∈ items, i.token ≠ .lineEnd)
    (hrest : Grouped lines rest
      (logicalFrom lines taken (tokens ++ items.map Item.token) rest)) :
    Grouped lines (items ++ rest) (logicalFrom lines taken tokens (items ++ rest)) := by
  rw [logicalFrom_append lines taken tokens hitems]
  exact ⟨hrest.fits, fun hfault => hrest.text fun i hi => hfault i (List.mem_append_right _ hi)⟩

theorem grouped_end {text later : List Bytes} {taken line : Nat} {tokens : List Token}
    {rest : List Item} (column : Nat) (hline : taken + text.length = line)
    (hfits : LogicalLine.Fits ⟨text, tokens⟩)
    (hrest : Grouped later rest (logicalFrom later line [] rest)) :
    Grouped (text ++ later) (⟨line, column, .lineEnd⟩ :: rest)
      (logicalFrom (text ++ later) taken tokens (⟨line, column, .lineEnd⟩ :: rest)) := by
  have hsize : line - taken = text.length := by omega
  rw [logicalFrom, if_pos rfl]
  simp only [hsize, List.take_left, List.drop_left]
  refine ⟨List.forall_mem_cons.mpr ⟨hfits, hrest.fits⟩, fun hfault => ?_⟩
  rw [List.flatMap_cons, hrest.text fun i hi => hfault i (List.mem_cons_of_mem _ hi)]

theorem left_drop {text : List Bytes} {here : Bytes} (count : Nat)
    (hleft : ∃ front, text.getLast? = some (front ++ here)) :
    ∃ front, text.getLast? = some (front ++ here.drop count) := by
  obtain ⟨front, hfront⟩ := hleft
  exact ⟨front ++ here.take count, by rw [hfront, List.append_assoc, List.take_append_drop]⟩

theorem mem_dropLast_concat {text : List Bytes} {here : Bytes} (next : Bytes)
    (hjoined : ∀ line ∈ text.dropLast, Ascii.backslash ∈ line)
    (hleft : ∃ front, text.getLast? = some (front ++ here)) (hescape : Ascii.backslash ∈ here) :
    ∀ line ∈ (text ++ [next]).dropLast, Ascii.backslash ∈ line := by
  obtain ⟨front, hfront⟩ := hleft
  obtain ⟨before, rfl⟩ := List.getLast?_eq_some_iff.mp hfront
  rw [List.dropLast_concat] at hjoined ⊢
  intro line hline
  rcases List.mem_append.mp hline with hline | hline
  · exact hjoined line hline
  · rw [List.mem_singleton.mp hline]
    exact List.mem_append_right _ hescape

/-- How the reading of a logical line goes on, `new` being the tokens of the step. -/
inductive Goes (here : Bytes) (text : List Bytes) (tokens : List Token) (s : Step) : Prop where
  | fails (h : s.Fails)
  | ends (h : s = Lexer.endLine) (hfits : LogicalLine.Fits ⟨text, tokens⟩)
  | advances {more : Nat} {mode : Mode} (hnext : s.next = .advance more mode)
      (hend : ∀ p ∈ s.tokens, p.2 ≠ .lineEnd)
      (hway : Underway mode (here.drop (more + 1)) text (tokens ++ s.tokens.map Prod.snd))
  | joins {mode : Mode} (hnext : s.next = .join mode) (hend : ∀ p ∈ s.tokens, p.2 ≠ .lineEnd)
      (hfits : LogicalLine.Fits ⟨text, tokens ++ s.tokens.map Prod.snd⟩)
      (hway : ∀ next, Underway mode next (text ++ [next]) (tokens ++ s.tokens.map Prod.snd))

theorem Token.ne_lineEnd_of_isFront {t : Token} (h : t.isFront) : t ≠ .lineEnd := by
  rintro rfl
  simp [isFront] at h

theorem Token.ne_lineEnd_of_isBody {t : Token} (h : t.isBody) : t ≠ .lineEnd := by
  rintro rfl
  simp [isBody] at h

theorem Token.ne_lineEnd_of_opening {t : Token} {op : Opening} (h : t.opening? = some op) :
    t ≠ .lineEnd := by
  rintro rfl
  simp [opening?] at h

theorem forall_mem_map_snd {p : Token → Prop} {tokens : List (Nat × Token)}
    (h : ∀ q ∈ tokens, p q.2) : ∀ t ∈ tokens.map Prod.snd, p t := by
  intro t ht
  obtain ⟨q, hq, rfl⟩ := List.mem_map.mp ht
  exact h q hq

theorem Underway.goes_first {mode : Mode} {here : Bytes} {text : List Bytes} {tokens : List Token}
    {s : Step} (hway : Underway mode here text tokens) (hmode : mode.isFirst = true)
    (hstep : Lexer.FirstStep here s) : Goes here text tokens s := by
  obtain ⟨hshaped, hopening, hlabels⟩ := hway.first hmode
  have hopening' : openingOf text = openingFrom here [] := by simpa using hopening []
  have hlabels' : labelsOf text = labelNames tokens ++ labelsFrom here [] := by
    simpa using hlabels []
  cases hstep with
  | fails h => exact .fails h
  | ends hnone hlabelsNone =>
    refine .ends rfl ⟨hway.joined, ?_, ?_⟩
    · rw [LogicalLine.opening, hopening', hnone]
      exact hshaped
    · rw [LogicalLine.labels, hlabels', hlabelsNone, List.append_nil]
  | passes hfront hsame hlabelsSame =>
    refine .advances rfl (fun p hp => Token.ne_lineEnd_of_isFront (hfront p hp)) ?_
    exact
      { first := fun _ => ⟨hshaped.append_front (forall_mem_map_snd hfront),
          fun joined => by rw [hopening, hsame],
          fun joined => by rw [hlabels, hlabelsSame, labelNames_append, List.append_assoc]⟩
        opened := fun h => by simp [Mode.isFirst] at h
        joined := hway.joined
        left := left_drop _ hway.left }
  | joins hfront hescape hlast hnextLine hnames hlabelsLast hlabelsNext =>
    have hmore := hshaped.append_front (forall_mem_map_snd hfront)
    refine .joins rfl (fun p hp => Token.ne_lineEnd_of_isFront (hfront p hp))
      ⟨hway.joined, ?_, ?_⟩ ?_
    · rw [LogicalLine.opening, hopening', hlast]
      exact hmore
    · rw [LogicalLine.labels, hlabels', hlabelsLast, labelNames_append, hnames]
    · intro next
      exact
        { first := fun _ => ⟨hmore,
            fun joined => by
              rw [List.append_assoc, List.singleton_append, hopening, hnextLine],
            fun joined => by
              rw [List.append_assoc, List.singleton_append, hlabels, hlabelsNext,
                labelNames_append, hnames, List.append_nil]⟩
          opened := fun h => by simp [Mode.isFirst] at h
          joined := mem_dropLast_concat next hway.joined hway.left hescape
          left := ⟨[], by simp⟩ }
  | opens hop hbody hrest hsome hlabelsNone =>
    refine .advances rfl (List.forall_mem_cons.mpr ⟨Token.ne_lineEnd_of_opening hop,
      fun p hp => Token.ne_lineEnd_of_isBody (hbody p hp)⟩) ?_
    exact
      { first := fun h => by rw [hrest] at h; cases h
        opened := fun _ => ⟨_, hshaped.append_opening hop (forall_mem_map_snd hbody),
          fun joined => by rw [hopening, hsome],
          fun joined => by
            rw [hlabels, hlabelsNone, labelNames_append]
            exact congrArg _ (labelNames_opening hop (forall_mem_map_snd hbody)).symm⟩
        joined := hway.joined
        left := left_drop _ hway.left }

theorem Underway.goes_opened {mode : Mode} {here : Bytes} {text : List Bytes} {tokens : List Token}
    {s : Step} (hway : Underway mode here text tokens) (hmode : mode.isFirst = false)
    (hstep : s.Fails ∨ s = Lexer.endLine ∨ Step.ReadsBody here s) : Goes here text tokens s := by
  obtain ⟨op, hshaped, hopening, hlabels⟩ := hway.opened hmode
  have hopening' : openingOf text = some op := by simpa using hopening []
  have hlabels' : labelsOf text = labelNames tokens := by simpa using hlabels []
  rcases hstep with h | h | ⟨hbody, hnext⟩
  · exact .fails h
  · refine .ends h ⟨hway.joined, ?_, hlabels'⟩
    rw [LogicalLine.opening, hopening']
    exact hshaped
  · have hbody' : ∀ t ∈ s.tokens.map Prod.snd, t.isBody := forall_mem_map_snd hbody
    have hmore := hshaped.append_body hbody'
    have hnames : labelNames (tokens ++ s.tokens.map Prod.snd) = labelNames tokens := by
      rw [labelNames_append, labelNames_of_isBody hbody', List.append_nil]
    have hend : ∀ p ∈ s.tokens, p.2 ≠ .lineEnd := fun p hp => Token.ne_lineEnd_of_isBody (hbody p hp)
    rcases hnext with ⟨more, mode', hnext, hmode'⟩ | ⟨mode', hnext, hmode', hescape⟩
    · refine .advances hnext hend ?_
      exact
        { first := fun h => by rw [hmode'] at h; cases h
          opened := fun _ => ⟨op, hmore, hopening, fun joined => by rw [hlabels, hnames]⟩
          joined := hway.joined
          left := left_drop _ hway.left }
    · refine .joins hnext hend ⟨hway.joined, ?_, ?_⟩ fun next => ?_
      · rw [LogicalLine.opening, hopening']
        exact hmore
      · rw [LogicalLine.labels, hlabels', hnames]
      · exact
          { first := fun h => by rw [hmode'] at h; cases h
            opened := fun _ => ⟨op, hmore, fun joined => by rw [List.append_assoc, hopening],
              fun joined => by rw [List.append_assoc, hlabels, hnames]⟩
            joined := mem_dropLast_concat next hway.joined hway.left hescape
            left := ⟨[], by simp⟩ }

theorem Underway.goes (v : Vocabulary) {mode : Mode} {here : Bytes} {text : List Bytes}
    {tokens : List Token} (hway : Underway mode here text tokens) :
    Goes here text tokens (Lexer.step v mode here) := by
  cases hmode : mode.isFirst with
  | true => exact hway.goes_first hmode (Lexer.step_first v hmode here)
  | false => exact hway.goes_opened hmode (Lexer.step_opened v hmode here)

theorem Lexer.map_token_items (s : Step) (line column : Nat) :
    (Step.items s line column).map Item.token = s.tokens.map Prod.snd := by
  simp [Step.items, Function.comp_def]

theorem grouped_lexFrom (v : Vocabulary) (mode : Mode) (line column : Nat) (here : Bytes)
    (later : List Bytes) {text : List Bytes} {tokens : List Token} {taken : Nat}
    (hline : taken + text.length = line) (hway : Underway mode here text tokens) :
    Grouped (text ++ later) (Lexer.lexFrom v mode line column here later)
      (logicalFrom (text ++ later) taken tokens (Lexer.lexFrom v mode line column here later)) := by
  fun_induction Lexer.lexFrom v mode line column here later generalizing text tokens taken with
  | case1 mode line column here later s hadvance hjoin =>
    have hends (hend : ∀ p ∈ s.tokens, p.2 ≠ .lineEnd) :
        ∀ i ∈ Lexer.Step.items s line column, i.token ≠ .lineEnd := by
      intro i hi
      obtain ⟨p, hp, rfl⟩ := List.mem_map.mp hi
      exact hend p hp
    cases hway.goes v with
    | fails h =>
      obtain ⟨offset, cause, h⟩ := h
      rw [show s = _ from h]
      exact grouped_fault _ _ _ _ _ _
    | ends h hfits =>
      -- The logical line is complete, and the next one starts with the next line.
      rw [show s = _ from h]
      refine grouped_end _ hline hfits ?_
      cases later with
      | nil => exact grouped_nil line
      | cons next later => exact hjoin (.statement true) rfl (underway_start next)
    | advances hnext hend hway' =>
      have hhere : here ≠ [] := by
        rintro rfl
        rw [Lexer.step_nil] at hnext
        cases hnext
      rw [show s.next = _ from hnext]
      refine grouped_append (hends hend) ?_
      rw [Lexer.map_token_items]
      simp only [hhere, dite_false]
      exact hadvance _ _ hhere hline hway'
    | joins hnext hend hfits hway' =>
      -- At the end of the source there is nothing left to join, and the line ends as it is.
      rw [show s.next = _ from hnext]
      refine grouped_append (hends hend) ?_
      rw [Lexer.map_token_items]
      cases later with
      | nil => exact grouped_end _ hline hfits (grouped_nil line)
      | cons next later =>
        have htaken : taken + (text ++ [next]).length = line + 1 := by
          rw [List.length_append, List.length_singleton]
          omega
        have hgrouped := hjoin _ htaken (hway' next)
        rwa [List.append_assoc, List.singleton_append] at hgrouped

/-- **Every logical line fits its text**, and the logical lines take up the lines of a source that is
not at fault. -/
theorem grouped_logicalLines (v : Vocabulary) (source : Bytes) :
    Grouped source.lines (lex v source) (logicalLines v source) := by
  unfold logicalLines lex
  cases source.lines with
  | nil => exact grouped_nil 0
  | cons first later => exact grouped_lexFrom v _ 1 1 first later rfl (underway_start first)

end SpectrumTape.Basic
