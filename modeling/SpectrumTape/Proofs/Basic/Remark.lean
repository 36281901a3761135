import SpectrumTape.Proofs.Basic.LineReading
import SpectrumTape.Proofs.Vocabulary.Escapes

/-!
# Remarks

On each line that it reaches a remark is a sequence of items: bytes that stand for themselves, escapes
and runs of blanks, which are as long as they can be (`RemarkPart`). An item is one byte of the
program, and a run of blanks is one blank, so no two of them are next to each other within a line
(`RemarkPart.not_doubled`).

What was read before a line escape does not count behind it. If a line ends with blanks, apart from
the escape, and the line that is joined begins with some, both runs are written, and there are two
blanks in the program (`parse_remark`).
-/

namespace SpectrumTape.Basic

/-! ### Items -/

/-- A piece of a remark. -/
inductive RemarkItem (dialect : Dialect) where
  /-- A byte that stands for itself. -/
  | plain (c : UInt8) (notBlank : Ascii.isSpace c = false) (notEscape : c ≠ Ascii.backslash)
  /-- Blanks of any kind, next to each other. -/
  | blanks (run : Bytes) (nonempty : run ≠ []) (blank : ∀ c ∈ run, Ascii.isSpace c = true)
  /-- A backslash and a sequence that stands for a character. -/
  | escape (e : Escape) (known : e ∈ Vocabulary.escapesOf dialect)

namespace RemarkItem

variable {dialect : Dialect}

def text : RemarkItem dialect → Bytes
  | plain c _ _ => [c]
  | blanks run _ _ => run
  | escape e _ => Ascii.backslash :: e.sequence

def code : RemarkItem dialect → UInt8
  | plain c _ _ => c
  | blanks _ _ _ => 0x20
  | escape e _ => e.code

def IsBlanks : RemarkItem dialect → Prop
  | blanks _ _ _ => True
  | _ => False

/-- Only a run of blanks becomes a blank: there is no escape for it. -/
theorem code_eq_blank_iff (i : RemarkItem dialect) : i.code = 0x20 ↔ i.IsBlanks := by
  cases i with
  | plain c notBlank notEscape =>
    refine iff_of_false ?_ id
    rintro rfl
    exact absurd notBlank (by decide)
  | blanks run nonempty blank => exact iff_of_true rfl trivial
  | escape e known =>
    have hall : (Vocabulary.escapesOf .k48).all fun e => e.code != 0x20 := by decide +kernel
    have hcode := List.all_eq_true.mp hall e (Vocabulary.mem_escapesOf known)
    exact iff_of_false (by simpa [code] using hcode) id

end RemarkItem

/-- What a line has of a remark. No two runs of blanks are next to each other. -/
structure RemarkPart (dialect : Dialect) where
  items : List (RemarkItem dialect)
  maximal : items.IsChain fun i j => ¬(i.IsBlanks ∧ j.IsBlanks)

namespace RemarkPart

variable {dialect : Dialect}

def text (p : RemarkPart dialect) : Bytes := p.items.flatMap RemarkItem.text

def codes (p : RemarkPart dialect) : Bytes := p.items.map RemarkItem.code

def BeginsBlank (p : RemarkPart dialect) : Prop := ∃ i ∈ p.items.head?, i.IsBlanks

def EndsBlank (p : RemarkPart dialect) : Prop := ∃ i ∈ p.items.getLast?, i.IsBlanks

/-- A part of a remark goes on as `tail`, and then on the lines that are joined: a line escape, behind
which there is nothing but white space, leads to the next line, if there is one. -/
inductive Continues : Bytes → List (RemarkPart dialect) → List Bytes → Prop where
  | ends : Continues [] [] []
  | last {blank : Bytes} (hblank : Bytes.allBlank blank = true) :
      Continues (Ascii.backslash :: blank) [] []
  | joined {blank tail : Bytes} {parts : List (RemarkPart dialect)} {lines : List Bytes}
      (hblank : Bytes.allBlank blank = true) (p : RemarkPart dialect)
      (hrest : Continues tail parts lines) :
      Continues (Ascii.backslash :: blank) (p :: parts) ((p.text ++ tail) :: lines)

end RemarkPart

/-! ### Two blanks next to each other -/

/-- There are two blanks next to each other. -/
def Doubled (s : Bytes) : Prop := [0x20, 0x20] <:+: s

instance (s : Bytes) : Decidable (Doubled s) := inferInstanceAs (Decidable (_ <:+: s))

theorem isChain_iff_neighbours {α : Type} {R : α → α → Prop} {l : List α} :
    l.IsChain R ↔ ∀ a b, [a, b] <:+: l → R a b := by
  rw [List.isChain_iff_forall_rel_of_append_cons_cons]
  constructor
  · rintro h a b ⟨before, behind, hl⟩
    exact h (by simpa using hl.symm)
  · intro h a b before behind hl
    exact h a b ⟨before, behind, by simpa using hl.symm⟩

theorem not_doubled_iff {s : Bytes} :
    ¬Doubled s ↔ s.IsChain fun a b => ¬(a = 0x20 ∧ b = 0x20) := by
  rw [isChain_iff_neighbours]
  constructor
  · rintro h a b hab ⟨rfl, rfl⟩
    exact h hab
  · exact fun h hdoubled => h _ _ hdoubled ⟨rfl, rfl⟩

namespace RemarkPart

variable {dialect : Dialect}

/-- **Within a line every run of blanks becomes a single blank.** -/
theorem not_doubled (p : RemarkPart dialect) : ¬Doubled p.codes := by
  rw [not_doubled_iff, codes, List.isChain_map]
  refine p.maximal.imp fun i j h => ?_
  rwa [i.code_eq_blank_iff, j.code_eq_blank_iff]

/-- Where a part meets another one there are not two blanks, unless both have a run of blanks there. -/
theorem not_meet_iff (p q : RemarkPart dialect) :
    (∀ a ∈ p.codes.getLast?, ∀ b ∈ q.codes.head?, ¬(a = 0x20 ∧ b = 0x20)) ↔
      ¬(p.EndsBlank ∧ q.BeginsBlank) := by
  unfold codes EndsBlank BeginsBlank
  rw [List.getLast?_map, List.head?_map]
  cases p.items.getLast? with
  | none => simp
  | some i =>
    cases q.items.head? with
    | none => simp
    | some j => simp [RemarkItem.code_eq_blank_iff]

/-- **Two blanks next to each other come from two lines**: one ends with blanks, and the next one that
has anything of the remark begins with blanks. -/
theorem doubled_iff (parts : List (RemarkPart dialect)) :
    Doubled (parts.flatMap codes) ↔
      ∃ p q, [p, q] <:+: parts.filter (!·.items.isEmpty) ∧ p.EndsBlank ∧ q.BeginsBlank := by
  have hfilter : parts.flatMap codes =
      ((parts.filter (!·.items.isEmpty)).map codes).flatten := by
    induction parts with
    | nil => rfl
    | cons p parts ih =>
      by_cases hp : p.items = []
      · rw [List.filter_cons_of_neg (by simp [hp]), List.flatMap_cons, ih]
        simp [codes, hp]
      · rw [List.filter_cons_of_pos (by simpa using hp), List.flatMap_cons, ih]
        rfl
  have hne : [] ∉ (parts.filter (!·.items.isEmpty)).map codes := by
    simp [codes]
  rw [← not_iff_not, hfilter, not_doubled_iff, List.isChain_flatten hne, List.isChain_map,
    isChain_iff_neighbours, and_iff_right]
  · simp only [not_meet_iff]
    push Not
    rfl
  · simp only [List.forall_mem_map]
    exact fun p _ => not_doubled_iff.mp p.not_doubled

/-! ### Putting items in front -/

def empty : RemarkPart dialect := ⟨[], .nil⟩

def cons (p : RemarkPart dialect) (i : RemarkItem dialect)
    (h : ∀ j ∈ p.items.head?, ¬(i.IsBlanks ∧ j.IsBlanks)) : RemarkPart dialect :=
  ⟨i :: p.items, List.isChain_cons.mpr ⟨h, p.maximal⟩⟩

theorem not_beginsBlank_empty : ¬(empty : RemarkPart dialect).BeginsBlank := by
  rintro ⟨i, hi, -⟩
  cases hi

theorem not_beginsBlank_cons {i : RemarkItem dialect} {p : RemarkPart dialect} (hi : ¬i.IsBlanks) :
    ¬(p.cons i fun _ _ h => hi h.1).BeginsBlank := by
  rintro ⟨j, hj, hblanks⟩
  cases hj
  exact hi hblanks

theorem exists_behind_run (p : RemarkPart dialect) (hp : ¬p.BeginsBlank) {run : Bytes}
    (hrun : ∀ c ∈ run, Ascii.isSpace c = true) :
    ∃ q : RemarkPart dialect, q.text = run ++ p.text ∧
      q.codes = (if run = [] then [] else [0x20]) ++ p.codes := by
  by_cases hnil : run = []
  · exact ⟨p, by simp [hnil]⟩
  · refine ⟨p.cons (.blanks run hnil hrun) fun j hj h => hp ⟨j, hj, h.2⟩, rfl, ?_⟩
    rw [if_neg hnil]
    rfl

theorem exists_behind_plain (p : RemarkPart dialect) {word : Bytes} (hne : word ≠ [])
    (hword : ∀ c ∈ word, Ascii.isSpace c = false ∧ c ≠ Ascii.backslash) :
    ∃ q : RemarkPart dialect, ¬q.BeginsBlank ∧ q.text = word ++ p.text ∧
      q.codes = word ++ p.codes := by
  induction word with
  | nil => exact absurd rfl hne
  | cons c word ih =>
    obtain ⟨hc, hword⟩ := List.forall_mem_cons.mp hword
    have hplain : ¬(RemarkItem.plain c hc.1 hc.2 : RemarkItem dialect).IsBlanks := id
    by_cases hnil : word = []
    · subst hnil
      exact ⟨_, not_beginsBlank_cons (p := p) hplain, rfl, rfl⟩
    · obtain ⟨q, -, htext, hcodes⟩ := ih hnil hword
      refine ⟨_, not_beginsBlank_cons (p := q) hplain, ?_, ?_⟩
      · rw [List.cons_append, ← htext]
        rfl
      · rw [List.cons_append, ← hcodes]
        rfl

end RemarkPart

/-! ### Reading a remark -/

/-- One step in a remark. -/
inductive RemarkStep (dialect : Dialect) (afterBlank : Bool) : Bytes → Step → Prop where
  | fails {here : Bytes} (offset : Nat) (cause : Cause) :
      RemarkStep dialect afterBlank here (.fail offset cause)
  | ends : RemarkStep dialect afterBlank [] Lexer.endLine
  | joins {blank : Bytes} (hblank : Bytes.allBlank blank = true) :
      RemarkStep dialect afterBlank (Ascii.backslash :: blank) ⟨[], .join (.remark false)⟩
  | escape {e : Escape} (known : e ∈ Vocabulary.escapesOf dialect) (rest : Bytes) :
      RemarkStep dialect afterBlank (Ascii.backslash :: (e.sequence ++ rest))
        (.read (1 + e.sequence.length) [.plain [e.code]] (.remark false))
  | blank {c : UInt8} (hc : Ascii.isSpace c = true) (rest : Bytes) :
      RemarkStep dialect afterBlank (c :: rest)
        (.read 1 (if afterBlank then [] else [.plain [0x20]]) (.remark true))
  | plain {word : Bytes} (hne : word ≠ [])
      (hword : ∀ c ∈ word, Ascii.isSpace c = false ∧ c ≠ Ascii.backslash) (rest : Bytes) :
      RemarkStep dialect afterBlank (word ++ rest)
        (.read word.length [.plain word] (.remark false))

theorem Lexer.step_remark (dialect : Dialect) (afterBlank : Bool) (here : Bytes) :
    RemarkStep dialect afterBlank here (step (.ofDialect dialect) (.remark afterBlank) here) := by
  cases here with
  | nil => exact .ends
  | cons c rest =>
    by_cases halnum : Ascii.isAlnum c = true
    · have hne : (c :: rest).takeWhile Ascii.isAlnum ≠ [] := by simp [halnum]
      have hword : ∀ d ∈ (c :: rest).takeWhile Ascii.isAlnum,
          Ascii.isSpace d = false ∧ d ≠ Ascii.backslash :=
        fun d hd => plain_of_isAlnum (List.mem_takeWhile_imp hd)
      have hplain : RemarkStep dialect afterBlank _ _ :=
        .plain hne hword ((c :: rest).dropWhile Ascii.isAlnum)
      rw [List.takeWhile_append_dropWhile] at hplain
      rwa [step, remarkStep_of_isAlnum halnum]
    · simp only [step, remarkStep]
      by_cases hescape : c = Ascii.backslash
      · subst hescape
        rw [if_pos (beq_self_eq_true _)]
        split_ifs with hblank
        · exact .joins hblank
        · cases hfound : (Vocabulary.ofDialect dialect).findEscape? rest with
          | none => exact .fails 1 _
          | some found =>
            obtain ⟨e, he, htext, heq⟩ := Vocabulary.findEscape?_eq_some_iff.mp hfound
            rw [htext, heq]
            exact .escape he _
      · rw [if_neg (by simpa using hescape)]
        by_cases hspace : Ascii.isSpace c = true
        · rw [if_pos hspace]
          exact .blank hspace rest
        · have hbyte : ∀ d ∈ [c], Ascii.isSpace d = false ∧ d ≠ Ascii.backslash :=
            List.forall_mem_singleton.mpr ⟨Bool.eq_false_of_not_eq_true hspace, hescape⟩
          rw [if_neg hspace, if_neg halnum]
          exact .plain (List.cons_ne_nil _ _) hbyte rest

/-- The tokens are those of a remark from `here` on. The reading stands behind a run of blanks, for
which a blank is written already. -/
def ReadsParts (dialect : Dialect) (run here : Bytes) (joined : List Bytes) (tokens : List Token) :
    Prop :=
  ∃ (p : RemarkPart dialect) (tail : Bytes) (parts : List (RemarkPart dialect)) (pieces : List Bytes),
    tokens = pieces.map .plain ∧ run ++ here = p.text ++ tail ∧
      RemarkPart.Continues tail parts joined ∧
      (p :: parts).flatMap RemarkPart.codes = (if run = [] then [] else [0x20]) ++ pieces.flatten

namespace ReadsParts

variable {dialect : Dialect} {run here : Bytes} {joined : List Bytes} {tokens : List Token}

theorem behind_run {p : RemarkPart dialect} {tail : Bytes} {parts : List (RemarkPart dialect)}
    (pieces : List Bytes) (hrun : ∀ c ∈ run, Ascii.isSpace c = true) (hp : ¬p.BeginsBlank)
    (hcontinues : RemarkPart.Continues tail parts joined)
    (hcodes : (p :: parts).flatMap RemarkPart.codes = pieces.flatten) :
    ReadsParts dialect run (p.text ++ tail) joined (pieces.map .plain) := by
  obtain ⟨q, htext, hq⟩ := p.exists_behind_run hp hrun
  refine ⟨q, tail, parts, pieces, rfl, ?_, hcontinues, ?_⟩
  · rw [htext, List.append_assoc]
  · rw [List.flatMap_cons, hq, List.append_assoc, ← List.flatMap_cons, hcodes]

theorem ends (hrun : ∀ c ∈ run, Ascii.isSpace c = true) : ReadsParts dialect run [] [] [] :=
  behind_run [] hrun RemarkPart.not_beginsBlank_empty .ends rfl

theorem last (hrun : ∀ c ∈ run, Ascii.isSpace c = true) {blank : Bytes}
    (hblank : Bytes.allBlank blank = true) :
    ReadsParts dialect run (Ascii.backslash :: blank) [] [] :=
  behind_run [] hrun RemarkPart.not_beginsBlank_empty (.last hblank) rfl

theorem join (hrun : ∀ c ∈ run, Ascii.isSpace c = true) {blank next : Bytes}
    (hblank : Bytes.allBlank blank = true) (h : ReadsParts dialect [] next joined tokens) :
    ReadsParts dialect run (Ascii.backslash :: blank) (next :: joined) tokens := by
  obtain ⟨p, tail, parts, pieces, rfl, rfl, hcontinues, hcodes⟩ := h
  exact behind_run pieces hrun RemarkPart.not_beginsBlank_empty (.joined hblank p hcontinues) hcodes

theorem blank {c : UInt8} (h : ReadsParts dialect (run ++ [c]) here joined tokens) :
    ReadsParts dialect run (c :: here) joined
      ((if run = [] then [.plain [0x20]] else []) ++ tokens) := by
  obtain ⟨p, tail, parts, pieces, rfl, htext, hcontinues, hcodes⟩ := h
  rw [List.append_assoc, List.singleton_append] at htext
  rw [if_neg (by simp)] at hcodes
  refine ⟨p, tail, parts, (if run = [] then [[0x20]] else []) ++ pieces, ?_, htext, hcontinues, ?_⟩
  · split_ifs <;> rfl
  · rw [hcodes]
    split_ifs <;> rfl

theorem escape (hrun : ∀ c ∈ run, Ascii.isSpace c = true) {e : Escape}
    (known : e ∈ Vocabulary.escapesOf dialect) (h : ReadsParts dialect [] here joined tokens) :
    ReadsParts dialect run (Ascii.backslash :: (e.sequence ++ here)) joined
      (.plain [e.code] :: tokens) := by
  obtain ⟨p, tail, parts, pieces, rfl, rfl, hcontinues, hcodes⟩ := h
  have hescape : ¬(RemarkItem.escape e known).IsBlanks := id
  have hread := behind_run ([e.code] :: pieces) hrun
    (RemarkPart.not_beginsBlank_cons (p := p) hescape) hcontinues (congrArg (e.code :: ·) hcodes)
  have htext : (p.cons (.escape e known) fun _ _ h => hescape h.1).text =
      Ascii.backslash :: (e.sequence ++ p.text) := rfl
  rwa [htext, List.cons_append, List.append_assoc] at hread

theorem plain (hrun : ∀ c ∈ run, Ascii.isSpace c = true) {word : Bytes} (hne : word ≠ [])
    (hword : ∀ c ∈ word, Ascii.isSpace c = false ∧ c ≠ Ascii.backslash)
    (h : ReadsParts dialect [] here joined tokens) :
    ReadsParts dialect run (word ++ here) joined (.plain word :: tokens) := by
  obtain ⟨p, tail, parts, pieces, rfl, rfl, hcontinues, hcodes⟩ := h
  obtain ⟨q, hq, htext, hqcodes⟩ := p.exists_behind_plain hne hword
  have hpieces : (q :: parts).flatMap RemarkPart.codes = (word :: pieces).flatten := by
    rw [List.flatMap_cons, hqcodes, List.append_assoc, ← List.flatMap_cons, hcodes]
    rfl
  have hread := behind_run _ hrun hq hcontinues hpieces
  rwa [htext, List.append_assoc] at hread

end ReadsParts

/-- **What is read of a remark are its parts**, one on each line. -/
theorem ReadsLine.readsParts {dialect : Dialect} {afterBlank : Bool} {here run : Bytes}
    {joined : List Bytes} {tokens : List Token}
    (h : ReadsLine (.ofDialect dialect) (.remark afterBlank) here joined tokens)
    (hrun : ∀ c ∈ run, Ascii.isSpace c = true) (hafter : afterBlank = !run.isEmpty) :
    ReadsParts dialect run here joined tokens := by
  generalize hmode : Mode.remark afterBlank = mode at h
  induction h generalizing afterBlank run with
  | @ends mode here hstep =>
    subst hmode
    have hcases := Lexer.step_remark dialect afterBlank here
    generalize Lexer.step _ _ here = s at hcases hstep
    cases hcases with
    | ends => exact .ends hrun
    | _ => cases congrArg Step.next hstep
  | @advance mode mode' here more joined tokens hnext hrest ih =>
    subst hmode
    have hcases := Lexer.step_remark dialect afterBlank here
    generalize Lexer.step _ _ here = s at hcases hnext ⊢
    cases hcases with
    | @escape e known rest =>
      cases hnext
      rw [Nat.add_sub_cancel_left, List.drop_succ_cons, List.drop_left] at ih
      exact .escape hrun known (ih (List.forall_mem_nil _) rfl rfl)
    | @blank c hc rest =>
      cases hnext
      have hmore : ∀ d ∈ run ++ [c], Ascii.isSpace d = true :=
        List.forall_mem_append.mpr ⟨hrun, List.forall_mem_singleton.mpr hc⟩
      have hread := ReadsParts.blank (ih hmore (by simp) rfl)
      subst hafter
      cases run with
      | nil => exact hread
      | cons d run => exact hread
    | @plain word hne hword rest =>
      cases hnext
      rw [Nat.sub_add_cancel (List.length_pos_iff.mpr hne), List.drop_left] at ih
      exact .plain hrun hne hword (ih (List.forall_mem_nil _) rfl rfl)
    | _ => cases hnext
  | @join mode mode' here next joined tokens hnext hrest ih =>
    subst hmode
    have hcases := Lexer.step_remark dialect afterBlank here
    generalize Lexer.step _ _ here = s at hcases hnext ⊢
    cases hcases with
    | joins hblank =>
      cases hnext
      exact .join hrun hblank (ih (List.forall_mem_nil _) rfl rfl)
    | _ => cases hnext
  | @last mode mode' here hnext =>
    subst hmode
    have hcases := Lexer.step_remark dialect afterBlank here
    generalize Lexer.step _ _ here = s at hcases hnext ⊢
    cases hcases with
    | joins hblank => exact .last hrun hblank
    | _ => cases hnext

/-! ### Where a remark begins -/

/-- Behind something on one of the lines there is the keyword of a remark, then blanks, and then the
remark itself, which begins with `text` and may go on on the lines `later`. -/
def HasRemark (lines : List Bytes) (text : Bytes) (later : List Bytes) : Prop :=
  ∃ earlier front word blanks, lines = earlier ++ (front ++ (word ++ (blanks ++ text))) :: later ∧
    Bytes.EqualCase word (utf8 "rem") ∧ (∀ c ∈ blanks, Ascii.isSpace c = true) ∧
    ∀ c ∈ text.head?, Ascii.isSpace c = false

theorem HasRemark.of_drop {here text : Bytes} {n : Nat} {joined later : List Bytes}
    (h : HasRemark (here.drop n :: joined) text later) : HasRemark (here :: joined) text later := by
  obtain ⟨earlier, front, word, blanks, hlines, hrest⟩ := h
  cases earlier with
  | nil =>
    obtain ⟨hhere, rfl⟩ := List.cons.inj hlines
    refine ⟨[], here.take n ++ front, word, blanks, ?_, hrest⟩
    rw [List.append_assoc, ← hhere, List.take_append_drop]
    rfl
  | cons line earlier =>
    obtain ⟨-, rfl⟩ := List.cons.inj hlines
    exact ⟨here :: earlier, front, word, blanks, rfl, hrest⟩

theorem HasRemark.cons {line text : Bytes} {lines later : List Bytes}
    (h : HasRemark lines text later) : HasRemark (line :: lines) text later := by
  obtain ⟨earlier, front, word, blanks, rfl, hrest⟩ := h
  exact ⟨line :: earlier, front, word, blanks, rfl, hrest⟩

theorem Lexer.step_rem {dialect : Dialect} {mode : Mode} {here : Bytes} {before behind : List Token}
    (h : (step (.ofDialect dialect) mode here).tokens.map Prod.snd =
      before ++ .keyword Code.rem :: behind) :
    behind = [] ∧ ∃ more, (step (.ofDialect dialect) mode here).next = .advance more (.remark false) ∧
      ∀ joined, HasRemark (here :: joined) (here.drop (more + 1)) joined := by
  have hmem : Token.keyword Code.rem ∈ (step (.ofDialect dialect) mode here).tokens.map Prod.snd := by
    rw [h]
    exact List.mem_append_right _ List.mem_cons_self
  obtain ⟨⟨offset, t⟩, hmem, ht⟩ := List.mem_map.mp hmem
  cases stems_step hmem with
  | @keyword first here found hfound =>
    obtain ⟨-, hequal, rfl⟩ :=
      Vocabulary.found_of_spelled Vocabulary.isOnlySpelling_rem hfound (Token.keyword.inj ht)
    have hword : (Vocabulary.ofDialect dialect).findKeyword? here =
        some ⟨Code.rem, 3, here.drop 3⟩ := hfound
    rw [step, statementStep_of_rem hword] at h ⊢
    refine ⟨?_, _, rfl, fun joined => ?_⟩
    · rw [List.map_append, List.map_singleton] at h
      have hfront : .keyword Code.rem ∉
          (if first then [(0, Token.statement)] else []).map Prod.snd := by
        cases first <;> simp
      exact ((List.append_cons_inj_of_notMem hfront List.not_mem_nil).mp h).2.2.symm
    · rw [Nat.sub_add_cancel (by omega), ← List.drop_drop, drop_length_takeWhile]
      refine ⟨[], [], here.take 3, (here.drop 3).takeWhile Ascii.isSpace, ?_, hequal,
        fun c hc => List.mem_takeWhile_imp hc, fun c hc => ?_⟩
      · rw [List.takeWhile_append_dropWhile, List.take_append_drop]
        rfl
      · have hnot := List.head?_dropWhile_not Ascii.isSpace (here.drop 3)
        rw [Option.mem_def.mp hc] at hnot
        simpa using hnot
  | _ => cases ht

theorem append_eq_append_cons {α : Type} {first rest before behind : List α} {a : α}
    (h : first ++ rest = before ++ a :: behind) :
    (∃ mid, before = first ++ mid ∧ rest = mid ++ a :: behind) ∨
      ∃ mid, first = before ++ a :: mid ∧ behind = mid ++ rest := by
  rcases List.append_eq_append_iff.mp h with ⟨mid, hbefore, hrest⟩ | ⟨mid, hfirst, hrest⟩
  · exact Or.inl ⟨mid, hbefore, hrest⟩
  · rcases List.cons_eq_append_iff.mp hrest with ⟨rfl, hrest⟩ | ⟨mid, rfl, hbehind⟩
    · exact Or.inl ⟨[], by simpa using hfirst.symm, hrest.symm⟩
    · exact Or.inr ⟨mid, hfirst, hbehind⟩

/-- **Behind the keyword of a remark there is nothing but the remark.** -/
theorem ReadsLine.exists_remark {dialect : Dialect} {mode : Mode} {here : Bytes} {joined : List Bytes}
    {tokens before behind : List Token}
    (h : ReadsLine (.ofDialect dialect) mode here joined tokens)
    (htokens : tokens = before ++ .keyword Code.rem :: behind) :
    ∃ text later, HasRemark (here :: joined) text later ∧
      ReadsLine (.ofDialect dialect) (.remark false) text later behind := by
  induction h generalizing before with
  | ends => simp at htokens
  | @advance mode mode' here more joined tokens hnext hrest ih =>
    rcases append_eq_append_cons htokens with ⟨mid, -, htokens⟩ | ⟨mid, hstep, rfl⟩
    · obtain ⟨text, later, hremark, hread⟩ := ih htokens
      exact ⟨text, later, hremark.of_drop, hread⟩
    · obtain ⟨rfl, more', hadvance, hremark⟩ := Lexer.step_rem hstep
      cases hnext.symm.trans hadvance
      exact ⟨_, joined, hremark joined, hrest⟩
  | @join mode mode' here next joined tokens hnext hrest ih =>
    rcases append_eq_append_cons htokens with ⟨mid, -, htokens⟩ | ⟨mid, hstep, rfl⟩
    · obtain ⟨text, later, hremark, hread⟩ := ih htokens
      exact ⟨text, later, hremark.cons, hread⟩
    · obtain ⟨-, more', hadvance, -⟩ := Lexer.step_rem hstep
      cases hnext.symm.trans hadvance
  | @last mode mode' here hnext =>
    obtain ⟨-, more', hadvance, -⟩ := Lexer.step_rem htokens
    cases hnext.symm.trans hadvance

/-! ### Remarks of programs -/

/-- The parts of a remark in the lines of a logical line, one on each line from the keyword on. -/
def RemarkOf {dialect : Dialect} (lines : List Bytes) (parts : List (RemarkPart dialect)) : Prop :=
  ∃ first tail rest later, parts = first :: rest ∧ HasRemark lines (first.text ++ tail) later ∧
    RemarkPart.Continues tail rest later

theorem tokensBytes_plain (o : Options) (constants symbols : Symbols) (pieces : List Bytes) :
    tokensBytes o constants symbols (pieces.map .plain) = .ok pieces.flatten := by
  induction pieces with
  | nil => rfl
  | cons piece pieces ih => exact tokensBytes_cons rfl ih

/-- If a logical line has a remark, the bytes between its code and the end of the line are those of its
parts. There are no two blanks next to each other among the bytes of one part, and there are some in
the remark exactly if a part ends with blanks and the next one that is not empty begins with blanks. -/
def LogicalLine.CollapsesRemark (dialect : Dialect) (o : Options) (constants symbols : Symbols)
    (l : LogicalLine) (line : Line) : Prop :=
  ∀ before behind, l.tokens = before ++ .keyword Code.rem :: behind →
    ∃ (front remark : Bytes) (parts : List (RemarkPart dialect)),
      tokensBytes o constants symbols before = .ok front ∧
      line.body = front ++ Code.rem :: (remark ++ [0x0D]) ∧
      RemarkOf l.text parts ∧ remark = parts.flatMap RemarkPart.codes ∧
      (∀ p ∈ parts, ¬Doubled p.codes) ∧
      (Doubled remark ↔
        ∃ p q, [p, q] <:+: parts.filter (!·.items.isEmpty) ∧ p.EndsBlank ∧ q.BeginsBlank)

/-- **Blanks of a remark are collapsed line by line.** In every line of a program two blanks are next
to each other in the remark only where a line escape stands between blanks. -/
theorem parse_remark (c : Compiler) (dialect : Dialect) (path source : Bytes) {p : Program}
    (h : (c.parse dialect path source).2.result = .ok p) :
    let after := (c.parse dialect path source).1
    List.Forall₂
      (fun l line => l.Writes c.options c.constants after.symbols line ∧
        l.CollapsesRemark dialect c.options c.constants after.symbols line)
      (openedLines (.ofDialect dialect) source) p := by
  intro after
  refine forall₂_written h fun l line hread _ hwrites => ⟨hwrites, fun before behind htokens => ?_⟩
  obtain ⟨first, joined, htext, hread⟩ := hread
  obtain ⟨text, later, hremark, hread⟩ := hread.exists_remark htokens
  obtain ⟨part, tail, parts, pieces, rfl, rfl, hcontinues, hcodes⟩ :=
    hread.readsParts (List.forall_mem_nil _) rfl
  obtain ⟨bytes, hbytes, hbody⟩ := hwrites
  rw [htokens] at hbytes
  obtain ⟨front, back, hfront, hback, rfl⟩ := tokensBytes_append_eq_ok hbytes
  have hrest : tokensBytes c.options c.constants after.symbols
      (.keyword Code.rem :: pieces.map .plain) = .ok ([Code.rem] ++ pieces.flatten) :=
    tokensBytes_cons rfl (tokensBytes_plain _ _ _ _)
  cases hback.symm.trans hrest
  refine ⟨front, pieces.flatten, part :: parts, hfront, ?_, ?_, hcodes.symm,
    fun q _ => q.not_doubled, ?_⟩
  · rw [hbody]
    simp
  · rw [htext]
    exact ⟨part, tail, parts, later, rfl, hremark, hcontinues⟩
  · rw [show pieces.flatten = _ from hcodes.symm]
    exact RemarkPart.doubled_iff (part :: parts)

/-- A remark on two lines, with runs of blanks. -/
def spacedSource : Bytes := "10 REM  one \t\\a  two  \\\nthree"

def spacedProgram : Program :=
  [⟨10, [0xEA, 0x6F, 0x6E, 0x65, 0x20, 0x90, 0x20, 0x74, 0x77, 0x6F, 0x20, 0x74, 0x68, 0x72, 0x65,
    0x65, 0x0D]⟩]

theorem parse_remark_spacedSource :
    let parsed := Compiler.parse {} .k48 [] spacedSource
    parsed.2.result = .ok spacedProgram ∧
      List.Forall₂
        (fun l line => l.Writes .standard {} parsed.1.symbols line ∧
          l.CollapsesRemark .k48 .standard {} parsed.1.symbols line)
        (openedLines (.ofDialect .k48) spacedSource) spacedProgram := by
  intro parsed
  have hparsed : parsed.2.result = .ok spacedProgram := by
    unfold parsed Compiler.parse compile
    rw [Vocabulary.ofDialect_eq]
    decide +kernel
  exact ⟨hparsed, parse_remark {} .k48 [] _ hparsed⟩

/-- A single run of white space around a line escape, for which two blanks are written. -/
theorem parse_remark_escapedBlanks :
    (Compiler.parse {} .k48 [] (utf8 "10 REM a \\\n b")).2.result =
      .ok [⟨10, Code.rem :: ([0x61, 0x20, 0x20, 0x62] ++ [0x0D])⟩] ∧
      Doubled [0x61, 0x20, 0x20, 0x62] := by
  refine ⟨?_, by decide⟩
  unfold Compiler.parse compile
  rw [Vocabulary.ofDialect_eq]
  decide +kernel

end SpectrumTape.Basic
