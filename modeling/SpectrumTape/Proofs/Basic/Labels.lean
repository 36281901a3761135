import SpectrumTape.Proofs.Basic.Reports
import SpectrumTape.Proofs.Basic.SecondPass

/-!
# The numbers of labels

A label stands for the number of the first line written behind it. The number is fixed where the
label is read, before it is known which line that will be: it is the one that a line without a number
of its own would get, and as long as a label holds it back no other line can come in between
(`Numbering.run_line`). `Survey.run_labels` follows the first pass from one end of a line to the next
beside the frames of the second pass, and `parse_labels` says what becomes of the labels of a source
and of the references to them.
-/

namespace SpectrumTape.Basic

/-! ### Numbers that are held back -/

namespace Numbering

variable {o : Options} {n n' : Numbering}

theorem step_label_pending {t : Token} (ht : t.label?.isSome) (hstep : n.step o t = .ok n') :
    n'.pending.isSome := by
  cases t with
  | label name =>
    cases hstep
    rfl
  | _ => simp [Token.label?] at ht

theorem step_front_pending {t : Token} (ht : t.isFront) (hpending : n.pending.isSome)
    (hstep : n.step o t = .ok n') : n'.pending.isSome := by
  cases t with
  | label name =>
    cases hstep
    rfl
  | ignored =>
    cases hstep
    exact hpending
  | _ => simp [Token.isFront] at ht

theorem step_opening_pending {t : Token} {op : Opening} (hop : t.opening? = some op)
    (hpending : n.pending.isSome) (hstep : n.step o t = .ok n') : op = .statement := by
  cases t with
  | lineNumber number =>
    rw [step, if_pos hpending] at hstep
    cases hstep
  | statement =>
    cases hop
    rfl
  | _ => simp [Token.opening?] at hop

theorem run_front {tokens : List Token} (hn : n.Regular o) (hfront : ∀ t ∈ tokens, t.isFront)
    (hrun : runSteps (step o) n tokens = (n', none)) :
    n'.Regular o ∧ n'.last = n.last ∧
      (n.pending.isSome ∨ labelNames tokens ≠ [] → n'.pending.isSome) := by
  induction tokens generalizing n with
  | nil =>
    cases hrun
    exact ⟨hn, rfl, fun h => h.elim id fun hne => absurd rfl hne⟩
  | cons t tokens ih =>
    obtain ⟨ht, hfront⟩ := List.forall_mem_cons.mp hfront
    obtain ⟨n₁, hstep, hrun⟩ := runSteps_cons_eq_none_iff.mp hrun
    obtain ⟨hlast, hregular⟩ := step_front hn ht hstep
    obtain ⟨hregular', hlast', hpending⟩ := ih hregular hfront hrun
    refine ⟨hregular', hlast'.trans hlast, fun h => hpending ?_⟩
    rcases h with h | h
    · exact Or.inl (step_front_pending ht h hstep)
    · cases hlabel : t.label? with
      | some name => exact Or.inl (step_label_pending (by rw [hlabel]; rfl) hstep)
      | none =>
        rw [labelNames, List.filterMap_cons, hlabel] at h
        exact Or.inr h

theorem run_body {tokens : List Token} (hbody : ∀ t ∈ tokens, t.isBody)
    (hrun : runSteps (step o) n tokens = (n', none)) : n' = n := by
  induction tokens generalizing n with
  | nil =>
    cases hrun
    rfl
  | cons t tokens ih =>
    obtain ⟨ht, hbody⟩ := List.forall_mem_cons.mp hbody
    obtain ⟨n₁, hstep, hrun⟩ := runSteps_cons_eq_none_iff.mp hrun
    rw [ih hbody hrun, step_body ht hstep]

/-- The number of the last line behind a logical line with an opening or without. -/
def previousBehind (o : Options) (previous : Option Nat) : Option Opening → Option Nat
  | none => previous
  | some op => some (op.numberBehind o previous)

/-- The tokens of a logical line. If a number is held back from before or by one of its labels, the
line that is to get it is this one, or else it is still to come. -/
theorem run_line {tokens : List Token} {op : Option Opening} (hn : n.Regular o)
    (hshaped : Shaped op tokens) (hrun : runSteps (step o) n tokens = (n', none)) :
    n'.Regular o ∧ n'.previous = previousBehind o n.previous op ∧
      (n.pending.isSome ∨ labelNames tokens ≠ [] →
        op = some .statement ∨ op = none ∧ n'.pending.isSome) := by
  cases hshaped with
  | front hfront =>
    obtain ⟨hregular, hlast, hpending⟩ := run_front hn hfront hrun
    exact ⟨hregular, by rw [previous, hlast]; rfl, fun h => Or.inr ⟨rfl, hpending h⟩⟩
  | @opened front body t op hfront hop hbody =>
    obtain ⟨n₁, hrunFront, hrun⟩ := runSteps_append_eq_none_iff.mp hrun
    obtain ⟨n₂, hstep, hrunBody⟩ := runSteps_cons_eq_none_iff.mp hrun
    obtain ⟨hregular, hlast, hpending⟩ := run_front hn hfront hrunFront
    have hprevious : n₁.previous = n.previous := by rw [previous, previous, hlast]
    obtain ⟨⟨hpos, -⟩, rfl⟩ := step_opening hregular hop hstep
    obtain rfl := run_body hbody hrunBody
    refine ⟨regular_start o _, ?_, fun h => Or.inl ?_⟩
    · rw [previous, if_neg (Nat.one_le_iff_ne_zero.mp hpos), hprevious]
      rfl
    · have hnames : labelNames (front ++ t :: body) = labelNames front := by
        rw [labelNames_append, labelNames_opening hop hbody, List.append_nil]
      rw [hnames] at h
      rw [step_opening_pending hop (hpending h) hstep]

end Numbering

/-! ### Frames behind a place -/

section frames

variable {o : Options} {constants symbols : Symbols} {previous : Option Nat}

/-- The number that a label stands for: that of the first frame behind it, or the next one if there
is none. -/
def labelNumber (o : Options) (previous : Option Nat) : List Frame → Nat
  | f :: _ => f.number
  | [] => Opening.statement.numberBehind o previous

/-- The number of the last frame, or else the previous one. -/
def lastNumber (previous : Option Nat) (frames : List Frame) : Option Nat :=
  (frames.getLast?.map Frame.number).or previous

theorem lastNumber_cons (previous : Option Nat) (f : Frame) (frames : List Frame) :
    lastNumber previous (f :: frames) = lastNumber (some f.number) frames := by
  cases frames with
  | nil => rfl
  | cons g frames =>
    rw [lastNumber, lastNumber, List.getLast?_cons_cons]
    cases h : (g :: frames).getLast? with
    | none => simp at h
    | some last => rfl

theorem lastNumber_none (frames : List Frame) :
    lastNumber none frames = frames.getLast?.map Frame.number :=
  Option.or_none

theorem Framed.split {before ls : List LogicalLine} {frames : List Frame}
    (h : Framed o constants symbols previous (before ++ ls) frames) :
    ∃ front back, frames = front ++ back ∧ Framed o constants symbols previous before front ∧
      Framed o constants symbols (lastNumber previous front) ls back := by
  induction before generalizing previous frames with
  | nil => exact ⟨[], frames, rfl, .nil, h⟩
  | cons l before ih =>
    cases h with
    | silent hopening hrest =>
      obtain ⟨front, back, hframes, hfront, hback⟩ := ih hrest
      exact ⟨front, back, hframes, .silent hopening hfront, hback⟩
    | @frame _ _ _ f _ op hopening hnumber htokens hrest =>
      obtain ⟨front, back, rfl, hfront, hback⟩ := ih hrest
      rw [← lastNumber_cons previous] at hback
      exact ⟨f :: front, back, rfl, .frame hopening hnumber htokens hfront, hback⟩

end frames

/-! ### The labels of a source -/

namespace Survey

variable {o : Options} {constants : Symbols} {path : Bytes} {s s' : Survey} {items : List Item}

theorem run_numbering (hrun : runSteps (step o constants path) s items = (s', none)) :
    runSteps (Numbering.step o) s.numbering (items.map Item.token) = (s'.numbering, none) := by
  induction items generalizing s with
  | nil =>
    cases hrun
    rfl
  | cons i items ih =>
    obtain ⟨s₁, hstep, hrun⟩ := runSteps_cons_eq_none_iff.mp hrun
    exact runSteps_cons_eq_none_iff.mpr ⟨s₁.numbering, step_numbering hstep, ih hrun⟩

theorem run_front_value? (hs : s.numbering.Regular o) (hfront : ∀ i ∈ items, i.token.isFront)
    (hrun : runSteps (step o constants path) s items = (s', none)) {name : Bytes}
    (hname : .label name ∈ items.map Item.token) :
    s'.symbols.value? name =
      some (Bytes.decimal (Opening.statement.numberBehind o s.numbering.previous)) := by
  induction items generalizing s with
  | nil => cases hname
  | cons i items ih =>
    obtain ⟨hi, hfront⟩ := List.forall_mem_cons.mp hfront
    obtain ⟨s₁, hstep, hrun⟩ := runSteps_cons_eq_none_iff.mp hrun
    rcases List.mem_cons.mp hname with hlabel | hname
    · rw [← Numbering.next_eq hs]
      exact run_value? hrun (step_label_value? hstep hlabel.symm)
    · obtain ⟨hlast, hregular⟩ := Numbering.step_front hs hi (step_numbering hstep)
      have hprevious : s₁.numbering.previous = s.numbering.previous := by
        rw [Numbering.previous, Numbering.previous, hlast]
      rw [← hprevious]
      exact ih hregular hfront hrun hname

theorem run_line_value? {op : Option Opening} (hs : s.numbering.Regular o)
    (hshaped : Shaped op (items.map Item.token))
    (hrun : runSteps (step o constants path) s items = (s', none)) {name : Bytes}
    (hname : name ∈ labelNames (items.map Item.token)) :
    s'.symbols.value? name =
      some (Bytes.decimal (Opening.statement.numberBehind o s.numbering.previous)) := by
  generalize htokens : items.map Item.token = tokens at hshaped hname
  cases hshaped with
  | front hfront =>
    refine run_front_value? hs (fun i hi => hfront _ ?_) hrun ?_
    · rw [← htokens]
      exact List.mem_map_of_mem hi
    · rw [htokens]
      exact mem_labelNames.mp hname
  | opened hfront hop hbody =>
    obtain ⟨front, rest, rfl, rfl, -⟩ := List.map_eq_append_iff.mp htokens
    obtain ⟨s₁, hrunFront, hrunRest⟩ := runSteps_append_eq_none_iff.mp hrun
    rw [labelNames_append, labelNames_opening hop hbody, List.append_nil] at hname
    exact run_value? hrunRest (run_front_value? hs (fun i hi => hfront _ (List.mem_map_of_mem hi))
      hrunFront (mem_labelNames.mp hname))

/-- The items of a logical line, up to the one that ends it. -/
theorem run_line {op : Option Opening} {i : Item} (hs : s.numbering.Regular o)
    (hshaped : Shaped op (items.map Item.token)) (hi : i.token = .lineEnd)
    (hrun : runSteps (step o constants path) s (items ++ [i]) = (s', none)) :
    s'.numbering.Regular o ∧
      s'.numbering.previous = Numbering.previousBehind o s.numbering.previous op ∧
      (s.numbering.pending.isSome ∨ labelNames (items.map Item.token) ≠ [] →
        op = some .statement ∨ op = none ∧ s'.numbering.pending.isSome) ∧
      ∀ name ∈ labelNames (items.map Item.token), s'.symbols.value? name =
        some (Bytes.decimal (Opening.statement.numberBehind o s.numbering.previous)) := by
  obtain ⟨s₁, hrun, hend⟩ := runSteps_append_eq_none_iff.mp hrun
  obtain ⟨s₂, hstep, hnil⟩ := runSteps_cons_eq_none_iff.mp hend
  cases hnil
  have hnumbering := step_numbering hstep
  rw [hi] at hnumbering
  have hsame : s₁.numbering = s'.numbering := Except.ok.inj hnumbering
  obtain ⟨hregular, hprevious, hpending⟩ := Numbering.run_line hs hshaped (run_numbering hrun)
  rw [hsame] at hregular hprevious hpending
  exact ⟨hregular, hprevious, hpending,
    fun name hname => step_value? hstep (run_line_value? hs hshaped hrun hname)⟩

theorem run_first_line {lines : List Bytes} {taken : Nat} {l : LogicalLine} {ls : List LogicalLine}
    (hs : s.numbering.Regular o) (hls : logicalFrom lines taken [] items = l :: ls)
    (hshaped : Shaped l.opening l.tokens)
    (hrun : runSteps (step o constants path) s items = (s', none)) :
    ∃ s₁ rest lines' taken', logicalFrom lines' taken' [] rest = ls ∧
      runSteps (step o constants path) s₁ rest = (s', none) ∧ s₁.numbering.Regular o ∧
      s₁.numbering.previous = Numbering.previousBehind o s.numbering.previous l.opening ∧
      (s.numbering.pending.isSome ∨ labelNames l.tokens ≠ [] →
        l.opening = some .statement ∨ l.opening = none ∧ s₁.numbering.pending.isSome) ∧
      ∀ name ∈ labelNames l.tokens, s'.symbols.value? name =
        some (Bytes.decimal (Opening.statement.numberBehind o s.numbering.previous)) := by
  rcases logicalFrom_cases lines taken [] items with ⟨hnil, -⟩ | ⟨first, i, rest, rfl, hi, hcons⟩
  · simp [hls] at hnil
  rw [hls, List.nil_append] at hcons
  obtain ⟨hl, hrest⟩ := List.cons_eq_cons.mp hcons
  have htokens : l.tokens = first.map Item.token := by rw [hl]
  rw [← List.singleton_append, ← List.append_assoc] at hrun
  obtain ⟨s₁, hfirst, hrun⟩ := runSteps_append_eq_none_iff.mp hrun
  rw [htokens] at hshaped ⊢
  obtain ⟨hs₁, hprevious, hpending, hvalues⟩ := run_line hs hshaped hi hfirst
  exact ⟨s₁, rest, _, _, hrest.symm, hrun, hs₁, hprevious, hpending,
    fun name hname => run_value? hrun (hvalues name hname)⟩

/-- The number of each label is that of the first frame at or behind its logical line. A number that
is held back from before is that of the first frame of all. -/
theorem run_labels {symbols : Symbols} {previous : Option Nat} {lines : List Bytes} {taken : Nat}
    {ls : List LogicalLine} {frames : List Frame} (hs : s.numbering.Regular o)
    (hprevious : s.numbering.previous = previous) (hls : logicalFrom lines taken [] items = ls)
    (hshaped : ∀ l ∈ ls, Shaped l.opening l.tokens)
    (hrun : runSteps (step o constants path) s items = (s', none))
    (hframed : Framed o constants symbols previous ls frames) :
    (s.numbering.pending.isSome → labelNumber o previous frames =
      Opening.statement.numberBehind o previous) ∧
    ∀ before l later, ls = before ++ l :: later →
      ∃ front back, frames = front ++ back ∧
        Framed o constants symbols previous before front ∧
        Framed o constants symbols (lastNumber previous front) (l :: later) back ∧
        ∀ name ∈ labelNames l.tokens, s'.symbols.value? name =
          some (Bytes.decimal (labelNumber o (lastNumber previous front) back)) := by
  induction hframed generalizing s items lines taken with
  | nil => exact ⟨fun _ => rfl, fun before l later h => by simp at h⟩
  | @silent previous l ls frames hopening hrest ih =>
    obtain ⟨hline, hshaped⟩ := List.forall_mem_cons.mp hshaped
    obtain ⟨s₁, rest, lines', taken', hls', hrun', hs₁, hprevious₁, hpending, hvalues⟩ :=
      run_first_line hs hls hline hrun
    rw [hprevious, hopening] at hprevious₁
    rw [hprevious] at hvalues
    obtain ⟨hheld, hsplit⟩ := ih hs₁ hprevious₁ hls' hshaped hrun'
    -- What is held back in front of this line or by it is still held back behind it.
    have hnumber (h : s.numbering.pending.isSome ∨ labelNames l.tokens ≠ []) :
        labelNumber o previous frames = Opening.statement.numberBehind o previous := by
      rcases hpending h with hstatement | ⟨-, hbehind⟩
      · cases hopening.symm.trans hstatement
      · exact hheld hbehind
    refine ⟨fun h => hnumber (Or.inl h), fun before l' later hbefore => ?_⟩
    cases before with
    | nil =>
      obtain ⟨rfl, rfl⟩ := List.cons_eq_cons.mp hbefore
      refine ⟨[], frames, rfl, .nil, .silent hopening hrest, fun name hname => ?_⟩
      rw [hvalues name hname, ← hnumber (Or.inr (List.ne_nil_of_mem hname))]
      rfl
    | cons _ before =>
      obtain ⟨rfl, hlater⟩ := List.cons_eq_cons.mp hbefore
      obtain ⟨front, back, hframes, hfront, hback, hlabels⟩ := hsplit before l' later hlater
      exact ⟨front, back, hframes, .silent hopening hfront, hback, hlabels⟩
  | @frame previous l ls f frames op hopening hf hbytes hrest ih =>
    obtain ⟨hline, hshaped⟩ := List.forall_mem_cons.mp hshaped
    obtain ⟨s₁, rest, lines', taken', hls', hrun', hs₁, hprevious₁, hpending, hvalues⟩ :=
      run_first_line hs hls hline hrun
    rw [hprevious, hopening, Numbering.previousBehind, ← hf] at hprevious₁
    rw [hprevious] at hvalues
    obtain ⟨-, hsplit⟩ := ih hs₁ hprevious₁ hls' hshaped hrun'
    -- What is held back in front of this line or by one of its labels is its own number.
    have hnumber (h : s.numbering.pending.isSome ∨ labelNames l.tokens ≠ []) :
        f.number = Opening.statement.numberBehind o previous := by
      rcases hpending h with hstatement | ⟨hnone, -⟩
      · rw [hf, Option.some.inj (hopening.symm.trans hstatement)]
      · cases hopening.symm.trans hnone
    refine ⟨fun h => hnumber (Or.inl h), fun before l' later hbefore => ?_⟩
    cases before with
    | nil =>
      obtain ⟨rfl, rfl⟩ := List.cons_eq_cons.mp hbefore
      refine ⟨[], f :: frames, rfl, .nil, .frame hopening hf hbytes hrest, fun name hname => ?_⟩
      rw [hvalues name hname, ← hnumber (Or.inr (List.ne_nil_of_mem hname))]
      rfl
    | cons _ before =>
      obtain ⟨rfl, hlater⟩ := List.cons_eq_cons.mp hbefore
      obtain ⟨front, back, rfl, hfront, hback, hlabels⟩ := hsplit before l' later hlater
      rw [← lastNumber_cons previous f front] at hback
      refine ⟨f :: front, back, rfl, .frame hopening hf hbytes hfront, hback, fun name hname => ?_⟩
      rw [lastNumber_cons]
      exact hlabels name hname

end Survey

/-! ### References -/

section references

variable {o : Options} {constants symbols : Symbols} {previous : Option Nat}

theorem tokensBytes_value {first rest : List Token} {name bytes : Bytes}
    (h : tokensBytes o constants symbols (first ++ .reference name :: rest) = .ok bytes) :
    ∃ value number front back, Emission.valueOf? constants symbols name = some value ∧
      Emission.numberOfValue name value = .ok number ∧
      tokensBytes o constants symbols first = .ok front ∧
      tokensBytes o constants symbols rest = .ok back ∧ bytes = front ++ number.bytes ++ back := by
  obtain ⟨front, more, hfront, hmore, rfl⟩ := tokensBytes_append_eq_ok h
  rw [tokensBytes] at hmore
  obtain ⟨b, hb, hmore⟩ := bind_eq_ok_iff.mp hmore
  obtain ⟨back, hback, hmore⟩ := bind_eq_ok_iff.mp hmore
  cases hmore
  unfold Emission.tokenBytes at hb
  cases hvalue : Emission.valueOf? constants symbols name with
  | none => simp [hvalue] at hb
  | some value =>
    simp only [hvalue] at hb
    obtain ⟨number, hnumber, hb⟩ := bind_eq_ok_iff.mp hb
    cases hb
    exact ⟨value, number, front, back, rfl, hnumber, hfront, hback, (List.append_assoc _ _ _).symm⟩

theorem tokensBytes_reference {first rest : List Token} {name bytes : Bytes} {n : Nat}
    (h : tokensBytes o constants symbols (first ++ .reference name :: rest) = .ok bytes)
    (hconstant : constants.contains name = false)
    (hvalue : symbols.value? name = some (Bytes.decimal n)) (hn : n ≤ 65535) :
    ∃ front back, tokensBytes o constants symbols first = .ok front ∧
      tokensBytes o constants symbols rest = .ok back ∧
      bytes = front ++ (Bytes.decimal n ++ 0x0E :: (FiveByte.ofWord n).bytes) ++ back := by
  obtain ⟨value, number, front, back, hknown, hnumber, hfront, hback, rfl⟩ := tokensBytes_value h
  rw [Emission.valueOf?_symbol (Bool.eq_false_iff.mp hconstant), hvalue] at hknown
  cases hknown
  rw [Emission.numberOfValue_decimal name hn] at hnumber
  cases hnumber
  exact ⟨front, back, hfront, hback, rfl⟩

theorem Shaped.opening_isSome {op : Option Opening} {tokens : List Token} (h : Shaped op tokens)
    {t : Token} (ht : t ∈ tokens) (hfront : t.isFront = false) : op.isSome := by
  cases h with
  | front hall =>
    rw [hall t ht] at hfront
    cases hfront
  | opened hall hop hbody => rfl

theorem Framed.of_opening {l : LogicalLine} {ls : List LogicalLine} {frames : List Frame}
    (h : Framed o constants symbols previous (l :: ls) frames) (hl : l.opening.isSome) :
    ∃ f more, frames = f :: more ∧ tokensBytes o constants symbols l.tokens = .ok f.tokens := by
  cases h with
  | silent hopening hrest =>
    rw [hopening] at hl
    cases hl
  | frame hopening hnumber htokens hrest => exact ⟨_, _, rfl, htokens⟩

end references

/-! ### All tokens of a source -/

theorem Lexer.getLast?_lexFrom (v : Vocabulary) (mode : Mode) (line column : Nat) (here : Bytes)
    (later : List Bytes) :
    ∃ i, (lexFrom v mode line column here later).getLast? = some i ∧
      (i.token = .lineEnd ∨ ∃ cause, i.token = .fault cause) := by
  fun_induction lexFrom v mode line column here later with
  | case1 mode line column here later s hadvance hjoin hnew =>
    have hrest {items rest : List Item} (h : ∃ i, rest.getLast? = some i ∧
        (i.token = .lineEnd ∨ ∃ cause, i.token = .fault cause)) :
        ∃ i, (items ++ rest).getLast? = some i ∧
          (i.token = .lineEnd ∨ ∃ cause, i.token = .fault cause) := by
      obtain ⟨i, hi, hend⟩ := h
      exact ⟨i, by rw [List.getLast?_append, hi]; rfl, hend⟩
    rcases Lexer.step_orderly v mode here with ⟨offset, cause, h⟩ | h | ⟨mode', hnext, -⟩
    · rw [show s = _ from h]
      exact ⟨⟨line, column + offset, .fault cause⟩, rfl, Or.inr ⟨cause, rfl⟩⟩
    · rw [show s = _ from h]
      cases later with
      | nil => exact ⟨⟨line, column, .lineEnd⟩, rfl, Or.inl rfl⟩
      | cons next later => exact hrest hnew
    · refine hrest ?_
      rcases hnext with ⟨more, hnext⟩ | hnext
      · have hhere : here ≠ [] := by
          rintro rfl
          rw [step_nil] at hnext
          cases hnext
        rw [show s.next = _ from hnext]
        simp only [hhere, dite_false]
        exact hadvance more mode' hhere
      · rw [show s.next = _ from hnext]
        cases later with
        | nil => exact ⟨_, rfl, Or.inl rfl⟩
        | cons next later => exact hjoin mode'

theorem labelNames_logicalFrom (lines : List Bytes) (taken : Nat) (tokens : List Token)
    {items : List Item} {i : Item} (hlast : items.getLast? = some i) (hi : i.token = .lineEnd) :
    (logicalFrom lines taken tokens items).flatMap (fun l => labelNames l.tokens) =
      labelNames (tokens ++ items.map Item.token) := by
  induction items generalizing lines taken tokens with
  | nil => cases hlast
  | cons j items ih =>
    rw [logicalFrom]
    cases items with
    | nil =>
      obtain rfl : j = i := by simpa using hlast
      rw [if_pos hi]
      simp [logicalFrom, labelNames, hi, Token.label?]
    | cons k items =>
      rw [List.getLast?_cons_cons] at hlast
      split_ifs with hj
      · have htokens : (j :: k :: items).map Item.token =
            .lineEnd :: (k :: items).map Item.token := by rw [List.map_cons, hj]
        rw [List.flatMap_cons, ih _ _ _ hlast, htokens, labelNames_append tokens]
        rfl
      · rw [ih _ _ _ hlast]
        simp

theorem labelNames_lex (v : Vocabulary) (source : Bytes)
    (hfault : ∀ i ∈ lex v source, ∀ cause, i.token ≠ .fault cause) :
    (logicalLines v source).flatMap LogicalLine.labels =
      labelNames ((lex v source).map Item.token) := by
  have hfits := (grouped_logicalLines v source).fits
  rw [List.flatMap_def, List.map_congr_left fun l hl => (hfits l hl).labels, ← List.flatMap_def]
  cases hitems : lex v source with
  | nil => rw [logicalLines, hitems]; rfl
  | cons i items =>
    have hlast : ∃ j, (lex v source).getLast? = some j ∧ j.token = .lineEnd := by
      cases hlines : source.lines with
      | nil =>
        rw [lex, hlines] at hitems
        cases hitems
      | cons first later =>
        obtain ⟨j, hj, hend⟩ := Lexer.getLast?_lexFrom v (.statement true) 1 1 first later
        have hlex : lex v source = Lexer.lexFrom v (.statement true) 1 1 first later := by
          rw [lex, hlines]
        rw [← hlex] at hj
        refine ⟨j, hj, hend.resolve_right ?_⟩
        rintro ⟨cause, hcause⟩
        exact hfault j (List.mem_of_getLast? hj) cause hcause
    obtain ⟨j, hj, hend⟩ := hlast
    rw [logicalLines, ← hitems]
    exact labelNames_logicalFrom _ _ [] hj hend

/-! ### Compilations -/

/-- What both passes make of a source that compiles. -/
theorem compile_frames {o : Options} {dialect : Dialect} {constants : Symbols} {path source : Bytes}
    {p : Program} (h : (compile o dialect constants path source).result = .ok p) :
    let items := lex (Vocabulary.ofDialect dialect) source
    let ls := logicalLines (Vocabulary.ofDialect dialect) source
    ∃ s frames, Survey.run o constants path items = (s, none) ∧ s.unresolved = [] ∧
      (compile o dialect constants path source).symbols = s.symbols ∧
      ls.flatMap LogicalLine.text = source.lines ∧ p = frames.map Frame.line ∧
      Framed o constants s.symbols none ls frames ∧ Ascending 0 frames := by
  intro items ls
  obtain ⟨s, hsurvey, hresolved, hsymbols, e, hemission, rfl⟩ :=
    (compile_ends o dialect constants path source).survey_of_ok h
  have hgrouped := grouped_logicalLines (Vocabulary.ofDialect dialect) source
  obtain ⟨frames, hwritten, hframed, hascending⟩ :=
    Emission.run_framed ⟨rfl, Numbering.regular_start o 0⟩
      (fun l hl => (hgrouped.fits l hl).shaped) hemission
  exact ⟨s, frames, hsurvey, hresolved, hsymbols, hgrouped.text (Emission.run_ne_fault hemission),
    hwritten, hframed, hascending⟩

theorem Survey.mem_names_iff {o : Options} {constants : Symbols} {path : Bytes} {v : Vocabulary}
    {source : Bytes} {s : Survey} (hsurvey : Survey.run o constants path (lex v source) = (s, none))
    (hresolved : s.unresolved = []) (name : Bytes) :
    name ∈ s.symbols.names ↔ ∃ l ∈ logicalLines v source, name ∈ l.labels := by
  have hknows := Survey.run_knows hsurvey
  rw [← List.mem_flatMap, labelNames_lex v source (Survey.run_ne_fault hsurvey), mem_labelNames,
    Symbols.mem_names_iff, hknows.contains]
  refine ⟨fun h => ?_, Or.inl⟩
  rcases h with h | ⟨hconstant, hreference⟩
  · exact h
  · by_contra hlabel
    exact no_name_open hsurvey hresolved ⟨name, hreference, hlabel, hconstant⟩

/-- **A label stands for the number of the line that follows it.** The symbols of a source that
compiles are its labels, each once, in their order and with a value: the number of the first frame at
or behind the logical line of the label, or the next number if there is none. A reference to a label
is that number, as text and in its five byte form, wherever the label is defined. -/
theorem parse_labels (c : Compiler) (dialect : Dialect) (path source : Bytes) {p : Program}
    (h : (c.parse dialect path source).2.result = .ok p) :
    let after := (c.parse dialect path source).1
    let ls := logicalLines (Vocabulary.ofDialect dialect) source
    ls.flatMap LogicalLine.text = source.lines ∧
    (after.symbols.names.Pairwise (Bytes.lt · ·) ∧
      (∀ name, name ∈ after.symbols.names ↔ ∃ l ∈ ls, name ∈ l.labels) ∧
      ∀ v ∈ after.symbols.toList, v.isResolved) ∧
    ∃ (frames : List Frame) (parts : List Bytes), after.program = parts.flatten ∧
      List.Forall₂ Frame.Encodes frames parts ∧
      Framed c.options c.constants after.symbols none ls frames ∧
      ∀ before l later, ls = before ++ l :: later → ∃ front back, frames = front ++ back ∧
        Framed c.options c.constants after.symbols none before front ∧
        Framed c.options c.constants after.symbols (front.getLast?.map Frame.number) (l :: later)
          back ∧
        (∀ name ∈ l.labels, after.symbols.value? name = some (Bytes.decimal
          (labelNumber c.options (front.getLast?.map Frame.number) back))) ∧
        (∀ first name rest, l.tokens = first ++ .reference name :: rest →
          name ∈ after.symbols.names → ∃ n v f more firstBytes restBytes,
            after.symbols.value? name = some (Bytes.decimal n) ∧
            FiveByte.encode? (Binary.ofInt n) = some v ∧ back = f :: more ∧
            tokensBytes c.options c.constants after.symbols first = .ok firstBytes ∧
            tokensBytes c.options c.constants after.symbols rest = .ok restBytes ∧
            f.tokens = firstBytes ++ (Bytes.decimal n ++ 0x0E :: v.bytes) ++ restBytes) := by
  intro after ls
  have hcompile : (compile c.options dialect c.constants path source).result = .ok p := h
  obtain ⟨s, frames, hsurvey, hresolved, hsymbols, htext, rfl, hframed, hascending⟩ :=
    compile_frames hcompile
  have hprogram : after.program = Program.bytes (frames.map Frame.line) :=
    Compiler.program_parse h
  have hknows := Survey.run_knows hsurvey
  have hsound := Survey.run_sound (Survey.sound_start c.options) hsurvey
  have hnames := Survey.mem_names_iff hsurvey hresolved
  have hvalues := Survey.resolved_of_unresolved hresolved
  have hfits := (grouped_logicalLines (Vocabulary.ofDialect dialect) source).fits
  rw [show after.symbols = s.symbols from hsymbols]
  refine ⟨htext, ⟨hknows.ascending, hnames, hvalues⟩, frames, frames.map fun f => f.line.bytes, ?_,
    encodes_lines hascending.le, hframed, fun before l later hsplit => ?_⟩
  · rw [hprogram, Program.bytes, List.flatMap_map, List.flatMap_def]
  have hmem : l ∈ ls := by
    rw [hsplit]
    exact List.mem_append_right _ List.mem_cons_self
  have hprevious : Numbering.previous {} = none := rfl
  obtain ⟨-, hlabels⟩ := Survey.run_labels (Numbering.regular_start c.options 0) hprevious rfl
    (fun l hl => (hfits l hl).shaped) hsurvey hframed
  obtain ⟨front, back, hframes, hfront, hback, hlabels⟩ := hlabels before l later hsplit
  rw [lastNumber_none] at hback hlabels
  refine ⟨front, back, hframes, hfront, hback, fun name hname => hlabels name ?_, ?_⟩
  · rwa [(hfits l hmem).labels] at hname
  intro first name rest htokens hname
  -- A line with a reference has an opening, so it has a frame.
  have hopening : l.opening.isSome := by
    have hreference : .reference name ∈ l.tokens := by
      rw [htokens]
      exact List.mem_append_right _ List.mem_cons_self
    exact (hfits l hmem).shaped.opening_isSome hreference rfl
  obtain ⟨f, more, hcons, hbytes⟩ := hback.of_opening hopening
  obtain ⟨value, hvalue⟩ := Symbols.value?_isSome hvalues (Symbols.mem_names_iff.mp hname)
  obtain ⟨n, hn, rfl⟩ := hsound.values name value hvalue
  have hlabel : .label name ∈ (lex (Vocabulary.ofDialect dialect) source).map Item.token :=
    (hknows.resolved name).mp (by rw [hvalue]; rfl)
  have hword : n ≤ 65535 := hn.trans (by decide)
  rw [htokens] at hbytes
  obtain ⟨firstBytes, restBytes, hfirst, hrest, hf⟩ :=
    tokensBytes_reference hbytes (hknows.fresh name hlabel) hvalue hword
  exact ⟨n, _, f, more, firstBytes, restBytes, hvalue, FiveByte.encode?_ofInt hword, hcons, hfirst,
    hrest, hf⟩

/-- A source with a reference before its label, two labels of one line, a comment between a label and
its line, and a label behind the last line. -/
def labelledSource : Bytes :=
  "GO TO @far\n@loop: @again:\n# the line to come\nPRINT @top\n500 GO TO @loop: GO TO @again\n" ++
    "@far:"

/-- The program of that source. Each reference is the number of its label, as text and in the five byte
form behind the byte `0x0E`. -/
def labelledProgram : Bytes :=
  [0, 100, 11, 0, 0xEC] ++ utf8 "505" ++ [0x0E, 0, 0, 0xF9, 0x01, 0] ++ [0x0D] ++
    [0, 105, 9, 0, 0xF5] ++ utf8 "7" ++ [0x0E, 0, 0, 7, 0, 0] ++ [0x0D] ++
    [0x01, 0xF4, 22, 0, 0xEC] ++ utf8 "105" ++ [0x0E, 0, 0, 105, 0, 0] ++
      [0x3A, 0xEC] ++ utf8 "105" ++ [0x0E, 0, 0, 105, 0, 0] ++ [0x0D]

theorem parse_labelledSource :
    let parsed := countingCompiler.parse .k48 [] labelledSource
    parsed.2.result.toOption.isSome = true ∧
      parsed.1.symbols.names = [utf8 "again", utf8 "far", utf8 "loop"] ∧
      parsed.1.symbols.toList.map Variable.value =
        [some (utf8 "105"), some (utf8 "505"), some (utf8 "105")] ∧
      parsed.1.program = labelledProgram := by
  unfold Compiler.parse compile
  rw [Vocabulary.ofDialect_eq]
  decide +kernel

theorem parse_labels_labelledSource :
    let after := (countingCompiler.parse .k48 [] labelledSource).1
    let ls := logicalLines (Vocabulary.ofDialect .k48) labelledSource
    after.symbols.names = [utf8 "again", utf8 "far", utf8 "loop"] ∧
      (∀ name, name ∈ after.symbols.names ↔ ∃ l ∈ ls, name ∈ l.labels) ∧
      after.symbols.toList.map Variable.value =
        [some (utf8 "105"), some (utf8 "505"), some (utf8 "105")] ∧
      after.program = labelledProgram := by
  intro after ls
  obtain ⟨hok, hsymbols, hvalues, hprogram⟩ := parse_labelledSource
  cases hresult : (countingCompiler.parse .k48 [] labelledSource).2.result with
  | ok p =>
    obtain ⟨-, ⟨-, hnames, -⟩, -⟩ := parse_labels countingCompiler .k48 [] labelledSource hresult
    exact ⟨hsymbols, hnames, hvalues, hprogram⟩
  | error failure =>
    rw [hresult] at hok
    cases hok

end SpectrumTape.Basic
