import SpectrumTape.Proofs.Basic.LiteralWalk

/-!
# Sources along a cursor

Each part of a line is read along a cursor as the tokens of the rest of the line say
(`Place.follow`), and each round of a loop gets on, be it by a byte or to the next line. So a walk
over a source hands over its tokens and comes to an end (`walk_eq`), and compiling along a cursor
stays in the source and gives what the compiler gives.
-/

namespace SpectrumTape

namespace Basic

variable {σ : Type} {pass : Pass σ} {source : Bytes} {v : Vocabulary} {p : Place} {items : List Item}

theorem reads_joined (mode : Mode) (hhere : p.here ≠ []) :
    Reads pass source Reading.nextLine p (p.joined v mode) fun _ => Further v mode p := by
  have hlength := List.length_pos_iff.mpr hhere
  unfold Place.joined
  cases hlater : p.later with
  | nil =>
    refine (reads_nextLine hlater).mono fun _ q rest h => ?_
    obtain ⟨-, rfl, hend, hnone⟩ := h
    refine ⟨.inr ⟨hend, p.line, p.column, ?_⟩, ?_⟩
    · simp [Place.behind, hnone, Place.item]
    · simp only [Place.left, hend, hnone, List.length_nil, List.flatten_nil]
      omega
  | cons next more =>
    rw [← bind_pure Reading.nextLine]
    refine (gives_nextLine hlater).then (reads_pure ⟨.inl rfl, ?_⟩)
    simp only [Place.left, hlater, List.flatten_cons, List.length_append, List.length_cons]
    omega

theorem Reads.goesOn {β γ : Type} {x : Reading σ Unit} {mode : β → Mode}
    {Q : γ → Place → List Item → Prop} {b : β}
    (h : Reads pass source x p items fun _ => Further v (mode b) p) :
    Reads pass source (x >>= fun _ => pure (.inl b)) p items
      (Round (fun b => Pending v (mode b)) Q p) :=
  h.bind fun _ _ _ hfurther => reads_pure hfurther

theorem reads_read {t : Token} {mode : Mode} {size : Nat} {q : Place} (hsize : 0 < size)
    (hhere : p.here ≠ []) (hq : q.mark = (p.forward size).mark) :
    Reads pass source (Reading.hand pass t) q (p.follow v (.read size [t] mode))
      fun _ => Further v mode p := by
  have hitem : q.item t = (p.forward size).item t := by
    show q.mark.item t = (p.forward size).mark.item t
    rw [hq]
  rw [Place.follow_read hsize hhere, List.map_singleton, List.singleton_append, ← hitem]
  refine reads_hand.mono fun _ q' rest h => ?_
  obtain ⟨rfl, rfl⟩ := h
  refine ⟨.inl (Place.items_congr hq v mode).symm, ?_⟩
  rw [Place.left_congr hq]
  exact Place.left_forward_lt hsize hhere

theorem reads_fault {α : Type} {cause : Cause} {offset : Nat} {q : Place}
    {Q : α → Place → List Item → Prop} (hq : q.mark = (p.forward offset).mark) :
    Reads pass source (Reading.fail pass cause) q (p.follow v (.fail offset cause)) Q := by
  have hitem : q.item (.fault cause) = (p.forward offset).item (.fault cause) := by
    show q.mark.item _ = (p.forward offset).mark.item _
    rw [hq]
  rw [Place.follow_fail, ← hitem]
  exact reads_fail

theorem reads_plainRun {q : UInt8 → Bool} {mode : Mode} (hpos : 0 < Literal.runLength q p.here) :
    Reads pass source (Reading.plainRun pass q) p
      (p.follow v (.read (p.here.takeWhile q).length [.plain (p.here.takeWhile q)] mode))
      fun _ => Further v mode p := by
  have hhere : p.here ≠ [] := by
    intro hnone
    simp [hnone, Literal.runLength] at hpos
  refine gives_resetCapture.then ((gives_skipWhile q).then (gives_captured.then ?_))
  have hcaptured : (p.mark.forward (Literal.runLength q p.mark.here)).captured =
      p.here.takeWhile q := Literal.take_runLength q p.here
  rw [hcaptured]
  exact reads_read hpos hhere rfl

theorem reads_plainByte {b : UInt8} {rest : Bytes} {mode : Mode} (hhere : p.here = b :: rest) :
    Reads pass source (Reading.plainByte pass b) p (p.follow v (.read 1 [.plain [b]] mode))
      fun _ => Further v mode p :=
  (gives_move (by simp [hhere])).then (reads_read (by omega) (by simp [hhere]) rfl)

/-! ### Remarks -/

theorem reads_blank {b : UInt8} {rest : Bytes} {afterBlank : Bool} {mode : Mode}
    (hhere : p.here = b :: rest) :
    Reads pass source (Reading.blank pass afterBlank) p
      (p.follow v (.read 1 (if afterBlank then [] else [.plain [0x20]]) mode))
      fun _ => Further v mode p := by
  have hne : p.here ≠ [] := by simp [hhere]
  refine (gives_move (n := 1) (by simp [hhere])).then ?_
  cases afterBlank with
  | true =>
    simp only [if_true]
    rw [Place.follow_read (by omega) hne]
    exact reads_pure ⟨.inl rfl, Place.left_forward_lt (by omega) hne⟩
  | false => exact reads_read (by omega) hne rfl

theorem reads_remarkEscape {b : UInt8} {rest : Bytes} (hhere : p.here = b :: rest) :
    Reads pass source (Reading.remarkEscape v pass) p
      (p.follow v (match v.findEscape? rest with
        | some found => .read (1 + found.size) [.plain [found.code]] (.remark false)
        | none => .fail 1 .remarkEscape)) fun _ => Further v (.remark false) p := by
  have hrest : (p.forward 1).here = rest := by simp [Place.forward, hhere]
  refine (gives_move (n := 1) (by simp [hhere])).then (gives_rest.then ?_)
  rw [hrest]
  cases hfound : v.findEscape? rest with
  | none => exact reads_fail
  | some found =>
    have hsize := Vocabulary.findEscape?_bounds hfound
    refine (gives_move (hrest ▸ hsize)).then ?_
    rw [Place.forward_forward]
    exact reads_read (by omega) (by simp [hhere]) rfl

theorem reads_remarkRound {afterBlank : Bool} (h : Pending v (.remark afterBlank) p items) :
    Reads pass source (Reading.remarkRound v pass afterBlank) p items
      (Round (fun afterBlank => Pending v (.remark afterBlank)) (fun _ => AtLineEnd v) p) := by
  refine gives_isEnd.then ?_
  cases hhere : p.here with
  | nil => exact reads_pure ⟨h.atLineEnd hhere, Nat.le_refl _⟩
  | cons b rest =>
    have hne : p.here ≠ [] := by simp [hhere]
    obtain rfl := h.eq_follow hne
    simp only [List.isEmpty_cons, Bool.false_eq_true, if_false]
    refine (gives_byteAt 0).then ?_
    rw [hhere, List.getD_cons_zero, Lexer.step, Lexer.remarkStep]
    by_cases hbackslash : (b == Ascii.backslash) = true
    · simp only [hbackslash, if_true]
      refine (gives_restBehind hhere).then ?_
      by_cases hblank : Bytes.allBlank rest = true
      · simp only [hblank, if_true]
        exact (reads_joined (.remark false) hne).bind fun _ _ _ h => reads_pure h
      · simp only [hblank]
        exact (reads_remarkEscape hhere).goesOn
    by_cases hspace : Ascii.isSpace b = true
    · simp only [hbackslash, hspace, if_true]
      exact (reads_blank hhere).goesOn
    by_cases hword : Ascii.isAlnum b = true
    · simp only [hbackslash, hspace, hword, if_true]
      rw [← hhere]
      exact (reads_plainRun (Literal.runLength_pos hhere hword)).goesOn
    · simp only [hbackslash, hspace, hword]
      exact (reads_plainByte hhere).goesOn

/-! ### Lines -/

theorem reads_lineNumber {b : UInt8} {rest : Bytes} (hhere : p.here = b :: rest)
    (hdigit : Ascii.isDigit b = true) :
    Reads pass source (Reading.lineNumber pass) p (p.follow v (Lexer.lineNumberStep p.here))
      fun _ => Further v (.statement false) p := by
  have hne : p.here ≠ [] := by simp [hhere]
  have hpos : 0 < Literal.runLength Ascii.isDigit p.here := Literal.runLength_pos hhere hdigit
  have hcaptured : (p.mark.forward (Literal.runLength Ascii.isDigit p.mark.here)).captured =
      p.here.takeWhile Ascii.isDigit := Literal.take_runLength _ p.here
  refine gives_resetCapture.then ((gives_skipWhile _).then (gives_captured.then ?_))
  refine gives_isEnd.then ((gives_byteAt 0).then ?_)
  rw [hcaptured]
  have hbehind : (p.mark.forward (Literal.runLength Ascii.isDigit p.mark.here)).here =
      p.here.drop (p.here.takeWhile Ascii.isDigit).length := rfl
  rw [hbehind, Lexer.lineNumberStep]
  cases p.here.drop (p.here.takeWhile Ascii.isDigit).length with
  | nil => exact reads_fault rfl
  | cons c more =>
    simp only [List.isEmpty_cons, List.getD_cons_zero, Bool.false_or]
    by_cases hspace : Ascii.isSpace c = true
    · simp only [hspace, Bool.not_true, Bool.false_eq_true, if_false, Bool.true_and, decide_eq_true_eq]
      split_ifs
      · exact reads_read hpos hne rfl
      · exact reads_fault rfl
    · simp only [hspace, Bool.not_false, if_true, Bool.false_and, Bool.false_eq_true, if_false]
      exact reads_fault rfl

theorem reads_symbol {b : UInt8} {rest : Bytes} (first : Bool) (hhere : p.here = b :: rest) :
    Reads pass source (Reading.symbol pass first) p
      (p.follow v (if first then Lexer.labelStep p.here else Lexer.referenceStep p.here))
      fun _ => Further v (.statement first) p := by
  have hne : p.here ≠ [] := by simp [hhere]
  -- The name is passed behind its `@`.
  obtain ⟨name, hname⟩ : ∃ name, (p.here.drop 1).takeWhile Ascii.isWord = name := ⟨_, rfl⟩
  let q := (p.forward 1).mark.forward name.length
  have hq : q.mark = (p.forward (1 + name.length)).mark := by
    rw [← Place.forward_forward]
    rfl
  have hskip : Literal.runLength Ascii.isWord (p.forward 1).mark.here = name.length :=
    congrArg List.length hname
  have hcaptured : q.captured = name := by
    show (p.here.drop 1).take name.length = name
    rw [← hskip, ← hname]
    exact Literal.take_runLength _ _
  refine (gives_move (n := 1) (by simp [hhere])).then (gives_resetCapture.then ?_)
  refine (gives_skipWhile _).then ?_
  rw [hskip]
  refine (gives_captured (p := q)).then ?_
  rw [hcaptured]
  cases first with
  | false =>
    simp only [Bool.false_eq_true, if_false, Lexer.referenceStep, hname]
    split_ifs with hempty
    · rw [List.isEmpty_iff.mp hempty] at hq
      exact reads_fault hq
    · exact reads_read (by omega) hne hq
  | true =>
    have hbehind : q.here = p.here.drop (1 + name.length) := by
      show (p.here.drop 1).drop name.length = _
      rw [List.drop_drop]
    simp only [if_true, Lexer.labelStep, hname]
    cases hdrop : p.here.drop (1 + name.length) with
    | nil =>
      refine (gives_take_nil (hbehind.trans hdrop)).then ?_
      rw [if_pos (by simp)]
      exact reads_fault hq
    | cons c more =>
      have hnext : (q.forward 1).mark = (p.forward (1 + name.length + 1)).mark := by
        rw [Place.forward_congr hq, Place.forward_forward]
      have hneither : (c != 0x3A || name.isEmpty) = !(c == 0x3A && !name.isEmpty) := by
        rw [Bool.not_and, Bool.not_not]
        rfl
      refine (gives_take_cons (hbehind.trans hdrop)).then ?_
      rw [hneither]
      by_cases hlabel : (c == 0x3A && !name.isEmpty) = true
      · simp only [hlabel, Bool.not_true, Bool.false_eq_true, if_true, if_false]
        exact reads_read (by omega) hne hnext
      · simp only [hlabel, Bool.not_false, Bool.false_eq_true, if_true, if_false]
        exact reads_fault hnext

theorem reads_lineEscape {b : UInt8} {rest : Bytes} (first : Bool) (hhere : p.here = b :: rest) :
    Reads pass source (Reading.lineEscape pass) p (p.follow v (Lexer.lineEscapeStep first rest))
      fun _ => Further v (.statement first) p := by
  have hjoin : Reads pass source (Reading.nextLine >>= fun _ => pure ()) p
      (p.joined v (.statement first)) fun _ => Further v (.statement first) p :=
    (reads_joined _ (by simp [hhere])).bind fun _ _ _ h => reads_pure h
  refine (gives_restBehind hhere).then ?_
  unfold Lexer.lineEscapeStep Reading.ignore
  split_ifs
  · exact (gives_pure ()).then hjoin
  · have hfollow : p.follow v ⟨[(0, .ignored)], .join (.statement first)⟩ =
        p.item .ignored :: p.joined v (.statement first) := rfl
    rw [hfollow]
    refine reads_hand.bind fun _ q rest h => ?_
    obtain ⟨rfl, rfl⟩ := h
    exact hjoin

theorem reads_keyword {found : Spelling.Found} (hpos : 0 < found.size)
    (hsize : found.size ≤ p.here.length) (hrest : found.rest = p.here.drop found.size) :
    Reads pass source (Reading.keyword v pass found) p
      (p.follow v (Lexer.keywordStep found.code found.size found.rest))
      fun _ => Further v (.statement false) p := by
  have hne : p.here ≠ [] := List.length_pos_iff.mp (Nat.lt_of_lt_of_le hpos hsize)
  have hbehind : (p.forward found.size).here = found.rest := hrest.symm
  refine (gives_move hsize).then ?_
  unfold Lexer.keywordStep
  dsimp only
  split_ifs with hbin hrem
  · refine (gives_skipWhile _).then ?_
    rw [Place.follow_ofRead hne fun _ _ => by omega, ← Place.forward_forward,
      ← Place.forward_forward, ← hbehind]
    refine (reads_number true).mono fun _ q rest h => ⟨h.1, ?_⟩
    rw [Place.forward_forward] at h
    exact Nat.lt_of_lt_of_le h.2 (p.left_forward_le _)
  · refine (gives_skipWhile _).then ?_
    rw [hbehind, Place.forward_forward]
    refine (reads_read (by omega) hne rfl).bind fun _ q rest h => ?_
    refine (Reads.loop (fun _ _ _ => reads_remarkRound) h.1).mono fun _ q' rest' hremark => ?_
    exact ⟨.inr hremark.1, Nat.lt_of_le_of_lt hremark.2 h.2⟩
  · exact reads_read hpos hne rfl

theorem follow_statement (s : Step) :
    p.follow v { s with tokens := (0, .statement) :: s.tokens } =
      p.item .statement :: p.follow v s := rfl

theorem Pending.behindBlanks {first : Bool} (h : Pending v (.statement first) p items) :
    Pending v (.statement first) (p.forward (Literal.runLength Ascii.isSpace p.here)) items := by
  have hnone : Literal.runLength Ascii.isSpace p.here = 0 →
      Pending v (.statement first) (p.forward (Literal.runLength Ascii.isSpace p.here)) items := by
    intro hzero
    rwa [hzero, Place.forward_zero]
  cases hhere : p.here with
  | nil => exact hhere ▸ hnone (by rw [hhere]; rfl)
  | cons b rest =>
    rw [← hhere]
    by_cases hspace : Ascii.isSpace b = true
    · have hstep : Lexer.step v (.statement first) p.here =
          .read (Literal.runLength Ascii.isSpace p.here) [] (.statement first) := by
        simp [hhere, Lexer.step, Lexer.statementStep, hspace]
      have hpos : 0 < Literal.runLength Ascii.isSpace p.here := Literal.runLength_pos hhere hspace
      have hne : p.here ≠ [] := by simp [hhere]
      obtain rfl := h.eq_follow hne
      rw [hstep, Place.follow_read hpos hne]
      exact .inl rfl
    · exact hnone (by simp [Literal.runLength, hhere, hspace])

section

-- A keyword without bytes would be found at the same place in every round.
variable (hv : ∀ {text : Bytes} {found : Spelling.Found},
  v.findKeyword? text = some found → 0 < found.size)

include hv

theorem reads_word {b : UInt8} {rest : Bytes} (first : Bool) (hhere : p.here = b :: rest) :
    Reads pass source (Reading.word v pass first) p (p.follow v (Lexer.wordStep v first p.here))
      fun _ => Further v (.statement false) p := by
  refine (gives_byteAt 0).then (gives_rest.then ?_)
  unfold Lexer.wordStep
  cases hfound : v.findKeyword? p.here with
  | some found =>
    obtain ⟨hsize, hrest⟩ := Vocabulary.findKeyword?_bounds hfound
    dsimp only
    split_ifs with hfirst hbin
    · exact reads_fail
    · rw [follow_statement]
      refine reads_hand.bind fun _ q rest h => ?_
      obtain ⟨rfl, rfl⟩ := h
      exact reads_keyword (hv hfound) hsize hrest
    · exact reads_keyword (hv hfound) hsize hrest
  | none =>
    have hb : p.here.getD 0 0 = b := by simp [hhere]
    have hhead : p.here.head?.any Ascii.isAlpha = Ascii.isAlpha b := by simp [hhere]
    dsimp only
    rw [hb]
    unfold Lexer.plainStep
    rw [hhead]
    split_ifs with hfirst halpha
    · exact reads_fail
    · have halnum : Ascii.isAlnum b = true := by simp [Ascii.isAlnum, halpha]
      exact reads_plainRun (Literal.runLength_pos hhere halnum)
    · have htake : p.here.take 1 = [b] := by simp [hhere]
      rw [htake]
      exact reads_plainByte hhere

theorem reads_element {b : UInt8} {rest : Bytes} (first : Bool) (hhere : p.here = b :: rest)
    (hspace : ¬Ascii.isSpace b = true) (hcomment : ¬(b == 0x23) = true)
    (hescape : ¬(b == Ascii.backslash) = true) (hsymbol : ¬(b == 0x40) = true) :
    Reads pass source (Reading.element v pass first b) p
      (p.follow v (Lexer.step v (.statement first) p.here))
      fun _ => Further v (.statement false) p := by
  have hne : p.here ≠ [] := by simp [hhere]
  have hstep : Lexer.step v (.statement first) p.here =
      if Ascii.isDigit b then
        if first then Lexer.lineNumberStep p.here
        else .ofRead 0 .number (Literal.readNumber false p.here)
      else if b == 0x2E then
        if first then .fail 0 .wrongLineNumber
        else .ofRead 0 .number (Literal.readNumber false p.here)
      else if b == Ascii.quote then
        if first then .fail 0 .nonsense else .ofRead 0 .string (Literal.readString v p.here)
      else Lexer.wordStep v first p.here := by
    simp only [hhere, Lexer.step, Lexer.statementStep, hspace, hcomment, hescape, hsymbol]
    rfl
  have hnumber : Reads pass source (Reading.number pass false) p
      (p.follow v (.ofRead 0 .number (Literal.readNumber false p.here)))
      fun _ => Further v (.statement false) p := by
    rw [Place.follow_ofRead hne fun _ h => by simpa using (readNumber_pos h).1, Nat.zero_add]
    exact reads_number false
  have hstring : Reads pass source (Reading.string v pass) p
      (p.follow v (.ofRead 0 .string (Literal.readString v p.here)))
      fun _ => Further v (.statement false) p := by
    rw [Place.follow_ofRead hne fun _ _ => by simpa using readString_pos v p.here, Nat.zero_add]
    exact reads_string hne
  rw [hstep]
  unfold Reading.element
  split_ifs with hdigit hfirst hpoint hfirst hquote hfirst
  · exact reads_lineNumber hhere hdigit
  · exact hnumber
  · exact reads_fail
  · exact hnumber
  · exact reads_fail
  · exact hstring
  · exact reads_word hv first hhere

theorem reads_lineRound {first : Bool} (h : Pending v (.statement first) p items) :
    Reads pass source (Reading.lineRound v pass first) p items
      (Round (fun first => Pending v (.statement first)) (fun _ q rest => rest = q.behind v) p) := by
  let q := p.forward (Literal.runLength Ascii.isSpace p.here)
  have hq : Pending v (.statement first) q items := h.behindBlanks
  have hleft : q.left ≤ p.left := p.left_forward_le _
  have hblank : ∀ b ∈ q.here.head?, ¬Ascii.isSpace b = true := by
    intro b hb
    have hdrop : q.here = p.here.dropWhile Ascii.isSpace := Literal.drop_runLength _ _
    have hnot := List.head?_dropWhile_not Ascii.isSpace p.here
    rw [← hdrop, hb] at hnot
    simpa using hnot
  have hend : ∀ {line column : Nat}, Reads pass source
      (do Reading.hand pass .lineEnd; return .inr ()) q (⟨line, column, .lineEnd⟩ :: q.behind v)
      (Round (fun first => Pending v (.statement first)) (fun _ q rest => rest = q.behind v) q) := by
    intro line column
    refine reads_hand_lineEnd.bind fun _ q' rest h => ?_
    obtain ⟨rfl, rfl⟩ := h
    exact reads_pure ⟨rfl, Nat.le_refl _⟩
  refine (gives_skipWhile _).then (Reads.mono ?_ fun out q' rest => Round.of_left_le hleft)
  refine gives_isEnd.then ?_
  show Reads pass source _ q items _
  cases hhere : q.here with
  | nil =>
    obtain ⟨-, line, column, rfl⟩ := hq.atLineEnd hhere
    exact hend
  | cons b rest =>
    have hspace := hblank b (by simp [hhere])
    obtain rfl := hq.eq_follow (by simp [hhere])
    simp only [List.isEmpty_cons, Bool.false_eq_true, if_false]
    refine (gives_byteAt 0).then ?_
    have hb : q.here.getD 0 0 = b := by simp [hhere]
    rw [hb]
    split_ifs with hcomment hescape hsymbol
    · have hstep : Lexer.step v (.statement first) q.here = Lexer.endLine := by
        simp [hhere, Lexer.step, Lexer.statementStep, hspace, hcomment]
      rw [hstep, Place.follow_endLine]
      exact hend
    · have hstep : Lexer.step v (.statement first) q.here = Lexer.lineEscapeStep first rest := by
        simp [hhere, Lexer.step, Lexer.statementStep, hspace, hcomment, hescape]
      rw [hstep]
      exact (reads_lineEscape first hhere).goesOn
    · have hstep : Lexer.step v (.statement first) q.here =
          if first then Lexer.labelStep q.here else Lexer.referenceStep q.here := by
        simp [hhere, Lexer.step, Lexer.statementStep, hspace, hcomment, hescape, hsymbol]
      rw [hstep]
      exact (reads_symbol first hhere).goesOn
    · exact (reads_element hv first hhere hspace hcomment hescape hsymbol).goesOn

/-! ### Sources -/

theorem reads_sourceRound (h : Pending v (.statement true) p items) :
    Reads pass source (Reading.sourceRound v pass ()) p items
      (Round (fun _ => Pending v (.statement true)) (fun _ _ rest => rest = []) p) := by
  refine (Reads.loop (fun _ _ _ => reads_lineRound hv) h).bind fun _ q rest hline => ?_
  obtain ⟨rfl, hleft⟩ := hline
  unfold Place.behind
  cases hlater : q.later with
  | nil =>
    refine (reads_nextLine hlater).bind fun more q' rest hend => ?_
    obtain ⟨rfl, rfl, hhere, hnone⟩ := hend
    refine reads_pure ⟨rfl, ?_⟩
    simp only [Place.left, hhere, hnone, List.length_nil, List.flatten_nil]
    omega
  | cons next more =>
    refine (gives_nextLine hlater).then (reads_pure ⟨.inl rfl, Nat.lt_of_lt_of_le ?_ hleft⟩)
    simp only [Place.left, hlater, List.flatten_cons, List.length_append, List.length_cons]
    omega

theorem reads_source (pass : Pass σ) (source : Bytes) :
    Reads pass source (Reading.source v pass) (.atLine 1 source) (lex v source)
      fun _ _ rest => rest = [] := by
  have hlex : lex v source = (Place.atLine 1 source).items v (.statement true) := by
    unfold lex
    rw [Bytes.lines_eq]
    rfl
  exact (Reads.loop (fun _ _ _ => reads_sourceRound hv) (.inl hlex)).mono fun _ _ _ h => h.1

/-- A walk comes to an end, and the pass is then as after all tokens of the source. -/
theorem walk_eq (pass : Pass σ) {r : Reader σ} (hbytes : r.cursor.source = source.toArray)
    (hstops : r.cursor.stopAtLineEnd = true) (hrange : r.InRange source) :
    ∃ r' fault, walk v pass r = .ok (r', fault) ∧
      runSteps pass.step r.pass (lex v source) = (r'.pass, fault) ∧ r'.InRange source ∧
      (fault = none → r'.cursor.source = source.toArray ∧ r'.cursor.stopAtLineEnd = true) := by
  have hstart : ({ r with cursor := r.cursor.reset } : Reader σ).At source (.atLine 1 source) :=
    ⟨.reset hbytes hstops, hrange⟩
  have hends := reads_source hv pass source _ hstart
  unfold walk
  generalize (Reading.source v pass).run.run { r with cursor := r.cursor.reset } = out at hends ⊢
  cases hends with
  | on hat hsame hpost =>
    subst hpost
    exact ⟨_, none, rfl, hsame, hat.inRange, fun _ => ⟨hat.stands.bytes, hat.stands.stops⟩⟩
  | fault hrange' hfault =>
    exact ⟨_, _, rfl, hfault, hrange', fun h => by cases h⟩

end

/-! ### Both passes -/

theorem emit_eq (o : Options) (constants : Symbols) (path : Bytes) (warnings : List Diagnostic)
    (symbols : Symbols) :
    emit o constants path items warnings symbols =
      .ofEmission path warnings symbols (Emission.run o constants symbols path items) := rfl

/-- **Every source is compiled without leaving it.** The walks over it come to an end, no byte and no
text outside it is asked for, and what they compile is what the compiler gives. -/
theorem parse_inRange (c : Compiler) (dialect : Dialect) (path source : Bytes) :
    ∃ taken,
      compileAlong c.options dialect c.constants path source =
        .ok ((c.parse dialect path source).2, taken) ∧
      ∀ s ∈ taken, 0 ≤ s.start ∧ s.start ≤ s.stop ∧ s.stop ≤ source.length := by
  have hparse : (c.parse dialect path source).2 =
      compile c.options dialect c.constants path source := rfl
  rw [hparse]
  generalize c.options = o, c.constants = constants
  unfold compileAlong compile
  cases constants.toList.find? (!·.isResolved) with
  | some v => exact ⟨[], rfl, by simp⟩
  | none =>
    have hwords : ∀ {text : Bytes} {found : Spelling.Found},
        (Vocabulary.ofDialect dialect).findKeyword? text = some found → 0 < found.size :=
      Vocabulary.findKeyword?_pos
    have hbytes : ((Cursor.ofBytes source).setStop true).source = source.toArray := rfl
    obtain ⟨r, fault, hwalk, hsurvey, hrange, hcursor⟩ :=
      walk_eq hwords (.survey o constants path)
        (r := { cursor := (Cursor.ofBytes source).setStop true, pass := {} }) hbytes rfl
        (List.forall_mem_nil _)
    have hitems : Survey.run o constants path (lex (.ofDialect dialect) source) = (r.pass, fault) :=
      hsurvey
    simp only [compileItems, hitems, hwalk]
    cases fault with
    | some fault => exact ⟨r.taken, rfl, hrange⟩
    | none =>
      dsimp only [bind, Except.bind]
      cases Failure.ofFaults? (r.pass.unresolved.map (fileFault path ∘ .unresolvedVariable)) with
      | some failure => exact ⟨r.taken, rfl, hrange⟩
      | none =>
        -- The second walk starts with the cursor of the first one, which still has the source.
        obtain ⟨hbytes, hstops⟩ := hcursor rfl
        obtain ⟨r', fault, hwalk', hemission, hrange', -⟩ :=
          walk_eq hwords (.emission o constants r.pass.symbols path)
            (r := { cursor := r.cursor, taken := r.taken, pass := {} }) hbytes hstops hrange
        have hrun : Emission.run o constants r.pass.symbols path (lex (.ofDialect dialect) source) =
            (r'.pass, fault) := hemission
        dsimp only
        rw [hwalk', emit_eq, hrun]
        exact ⟨r'.taken, rfl, hrange'⟩

end Basic

end SpectrumTape
