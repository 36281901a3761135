import SpectrumTape.Basic.Emission
import SpectrumTape.Proofs.Basic.Numbering

/-!
# What the second pass writes

A step of the emission succeeds if the token has a number where it needs one and has bytes
(`Emission.step_eq_ok_iff`). From that follows what the tokens of one logical line do to a program
whose lines are all complete (`Emission.Between`): with an opening they add one line, which has the
number of the opening and the bytes of the tokens, and without one they add nothing
(`Emission.run_silent`, `Emission.run_opened`).
-/

namespace SpectrumTape.Basic

def tokensBytes (o : Options) (constants symbols : Symbols) : List Token → Except Cause Bytes
  | [] => .ok []
  | t :: rest => do
    let bytes ← Emission.tokenBytes o constants symbols t
    let more ← tokensBytes o constants symbols rest
    return bytes ++ more

section bytes

variable {o : Options} {constants symbols : Symbols}

theorem tokensBytes_cons {t : Token} {rest : List Token} {bytes more : Bytes}
    (ht : Emission.tokenBytes o constants symbols t = .ok bytes)
    (hrest : tokensBytes o constants symbols rest = .ok more) :
    tokensBytes o constants symbols (t :: rest) = .ok (bytes ++ more) := by
  rw [tokensBytes, ht, hrest]
  rfl

theorem tokensBytes_append {first rest : List Token} {bytes more : Bytes}
    (hfirst : tokensBytes o constants symbols first = .ok bytes)
    (hrest : tokensBytes o constants symbols rest = .ok more) :
    tokensBytes o constants symbols (first ++ rest) = .ok (bytes ++ more) := by
  induction first generalizing bytes with
  | nil =>
    cases hfirst
    exact hrest
  | cons t first ih =>
    rw [tokensBytes] at hfirst
    obtain ⟨b, ht, hfirst⟩ := bind_eq_ok_iff.mp hfirst
    obtain ⟨bs, hbs, hbytes⟩ := bind_eq_ok_iff.mp hfirst
    cases hbytes
    have htokens := tokensBytes_cons ht (ih hbs)
    rwa [← List.append_assoc] at htokens

theorem tokensBytes_append_eq_ok {first rest : List Token} {bytes : Bytes}
    (h : tokensBytes o constants symbols (first ++ rest) = .ok bytes) :
    ∃ front back, tokensBytes o constants symbols first = .ok front ∧
      tokensBytes o constants symbols rest = .ok back ∧ bytes = front ++ back := by
  induction first generalizing bytes with
  | nil => exact ⟨[], bytes, rfl, h, rfl⟩
  | cons t first ih =>
    rw [List.cons_append, tokensBytes] at h
    obtain ⟨b, ht, h⟩ := bind_eq_ok_iff.mp h
    obtain ⟨more, hmore, h⟩ := bind_eq_ok_iff.mp h
    cases h
    obtain ⟨front, back, hfront, hback, rfl⟩ := ih hmore
    exact ⟨b ++ front, back, tokensBytes_cons ht hfront, hback, (List.append_assoc _ _ _).symm⟩

theorem tokenBytes_front {t : Token} (ht : t.isFront) :
    Emission.tokenBytes o constants symbols t = .ok [] := by
  cases t with
  | label name => rfl
  | ignored => rfl
  | _ => simp [Token.isFront] at ht

theorem tokenBytes_opening {t : Token} {op : Opening} (hop : t.opening? = some op) :
    Emission.tokenBytes o constants symbols t = .ok [] := by
  cases t with
  | lineNumber n => rfl
  | statement => rfl
  | _ => simp [Token.opening?] at hop

theorem tokensBytes_front {tokens : List Token} (hfront : ∀ t ∈ tokens, t.isFront) :
    tokensBytes o constants symbols tokens = .ok [] := by
  induction tokens with
  | nil => rfl
  | cons t tokens ih =>
    obtain ⟨ht, hfront⟩ := List.forall_mem_cons.mp hfront
    exact tokensBytes_cons (tokenBytes_front ht) (ih hfront)

end bytes

namespace Emission

/-! ### Steps -/

/-- The emission behind a token, given the numbering behind it and its bytes. -/
def behind (e : Emission) (numbering : Numbering) (bytes : Bytes) : Token → Emission
  | .lineNumber _ => { e with numbering, current := some { number := numbering.last } }
  | .statement => { e with numbering, current := some { number := numbering.last } }
  | .lineEnd => closeLine { e with numbering }
  | _ => write { e with numbering } bytes

section steps

variable {o : Options} {constants symbols : Symbols} {path : Bytes} {e e' : Emission} {i : Item}

theorem step_eq :
    step o constants symbols path e i =
      Except.mapError (fun cause => ({ location := some (Survey.place path i), cause } : Fault Cause))
        (e.numbering.step o i.token >>= fun numbering =>
          tokenBytes o constants symbols i.token >>= fun bytes =>
            .ok (e.behind numbering bytes i.token)) := by
  obtain ⟨line, column, t⟩ := i
  cases t <;> rfl

theorem step_eq_ok_iff :
    step o constants symbols path e i = .ok e' ↔
      ∃ numbering bytes, e.numbering.step o i.token = .ok numbering ∧
        tokenBytes o constants symbols i.token = .ok bytes ∧
        e' = e.behind numbering bytes i.token := by
  simp only [step_eq, mapError_eq_ok_iff, bind_eq_ok_iff, Except.ok.injEq, eq_comm (a := e')]
  constructor
  · rintro ⟨numbering, hnumbering, bytes, hbytes, hbehind⟩
    exact ⟨numbering, bytes, hnumbering, hbytes, hbehind⟩
  · rintro ⟨numbering, bytes, hnumbering, hbytes, hbehind⟩
    exact ⟨numbering, hnumbering, bytes, hbytes, hbehind⟩

theorem step_eq_error_iff {fault : Fault Cause} :
    step o constants symbols path e i = .error fault ↔
      ∃ cause, (e.numbering.step o i.token = .error cause ∨
          ∃ numbering, e.numbering.step o i.token = .ok numbering ∧
            tokenBytes o constants symbols i.token = .error cause) ∧
        fault = { location := some (Survey.place path i), cause } := by
  simp only [step_eq, mapError_eq_error_iff, bind_eq_error_iff, reduceCtorEq, and_false, exists_false,
    or_false, eq_comm (a := fault)]

theorem behind_opening {t : Token} {op : Opening} (hop : t.opening? = some op)
    (numbering : Numbering) (bytes : Bytes) :
    e.behind numbering bytes t =
      { e with numbering, current := some { number := numbering.last } } := by
  cases t with
  | lineNumber n => rfl
  | statement => rfl
  | _ => simp [Token.opening?] at hop

theorem behind_front {t : Token} (ht : t.isFront) (numbering : Numbering) (bytes : Bytes) :
    e.behind numbering bytes t = write { e with numbering } bytes := by
  cases t with
  | label name => rfl
  | ignored => rfl
  | _ => simp [Token.isFront] at ht

theorem behind_body {t : Token} (ht : t.isBody) (numbering : Numbering) (bytes : Bytes) :
    e.behind numbering bytes t = write { e with numbering } bytes := by
  cases t with
  | lineNumber n => simp [Token.isBody] at ht
  | statement => simp [Token.isBody] at ht
  | lineEnd => simp [Token.isBody] at ht
  | _ => rfl

theorem behind_numbering (t : Token) (numbering : Numbering) (bytes : Bytes) :
    (e.behind numbering bytes t).numbering = numbering := by
  cases t with
  | lineEnd =>
    rw [behind, closeLine]
    split
    · rfl
    · rfl
  | _ => rfl

theorem step_numbering (hstep : step o constants symbols path e i = .ok e') :
    e.numbering.step o i.token = .ok e'.numbering := by
  obtain ⟨numbering, bytes, hnumbering, -, rfl⟩ := step_eq_ok_iff.mp hstep
  rw [behind_numbering, hnumbering]

/-- All lines are complete, and a number is held back only for the line to come. -/
structure Between (o : Options) (e : Emission) : Prop where
  closed : e.current = none
  regular : e.numbering.Regular o

theorem step_front (he : e.Between o) (hi : i.token.isFront)
    (hstep : step o constants symbols path e i = .ok e') :
    e'.Between o ∧ e'.lines = e.lines ∧ e'.numbering.last = e.numbering.last := by
  obtain ⟨numbering, bytes, hnumbering, hbytes, rfl⟩ := step_eq_ok_iff.mp hstep
  obtain ⟨hlast, hregular⟩ := Numbering.step_front he.regular hi hnumbering
  rw [behind_front hi]
  exact ⟨⟨by rw [write, he.closed]; rfl, hregular⟩, rfl, hlast⟩

theorem step_opening {op : Opening} (he : e.Between o) (hop : i.token.opening? = some op)
    (hstep : step o constants symbols path e i = .ok e') :
    let number := op.numberBehind o e.numbering.previous
    (1 ≤ number ∧ number ≤ 9999 ∧ e.numbering.last < number) ∧
      e' = { e with numbering := { last := number }, current := some { number } } := by
  obtain ⟨numbering, bytes, hnumbering, hbytes, rfl⟩ := step_eq_ok_iff.mp hstep
  obtain ⟨hrange, rfl⟩ := Numbering.step_opening he.regular hop hnumbering
  exact ⟨hrange, behind_opening hop _ _⟩

theorem step_body {l : OpenLine} (he : e.current = some l) (hi : i.token.isBody)
    (hstep : step o constants symbols path e i = .ok e') :
    ∃ bytes, tokenBytes o constants symbols i.token = .ok bytes ∧
      e' = { e with current := some ⟨l.number, bytes.reverse ++ l.written⟩ } := by
  obtain ⟨numbering, bytes, hnumbering, hbytes, rfl⟩ := step_eq_ok_iff.mp hstep
  obtain rfl := Numbering.step_body hi hnumbering
  refine ⟨bytes, hbytes, ?_⟩
  rw [behind_body hi, write, he]
  rfl

theorem step_lineEnd (hi : i.token = .lineEnd) :
    step o constants symbols path e i = .ok e.closeLine := by
  refine step_eq_ok_iff.mpr ⟨e.numbering, [], ?_, ?_, ?_⟩
  · rw [hi]
    rfl
  · rw [hi]
    rfl
  · rw [hi]
    rfl

/-! ### The tokens of a logical line -/

theorem run_front {items : List Item} (he : e.Between o) (hitems : ∀ i ∈ items, i.token.isFront)
    (hrun : runSteps (step o constants symbols path) e items = (e', none)) :
    e'.Between o ∧ e'.lines = e.lines ∧ e'.numbering.last = e.numbering.last := by
  induction items generalizing e with
  | nil =>
    cases hrun
    exact ⟨he, rfl, rfl⟩
  | cons i items ih =>
    obtain ⟨hi, hitems⟩ := List.forall_mem_cons.mp hitems
    obtain ⟨e₁, hstep, hrun⟩ := runSteps_cons_eq_none_iff.mp hrun
    obtain ⟨he₁, hlines, hlast⟩ := step_front he hi hstep
    obtain ⟨he', hlines', hlast'⟩ := ih he₁ hitems hrun
    exact ⟨he', hlines'.trans hlines, hlast'.trans hlast⟩

theorem run_body {items : List Item} {l : OpenLine} (he : e.current = some l)
    (hitems : ∀ i ∈ items, i.token.isBody)
    (hrun : runSteps (step o constants symbols path) e items = (e', none)) :
    ∃ bytes, tokensBytes o constants symbols (items.map Item.token) = .ok bytes ∧
      e' = { e with current := some ⟨l.number, bytes.reverse ++ l.written⟩ } := by
  induction items generalizing e l with
  | nil =>
    cases hrun
    exact ⟨[], rfl, by rw [List.reverse_nil, List.nil_append, ← he]⟩
  | cons i items ih =>
    obtain ⟨hi, hitems⟩ := List.forall_mem_cons.mp hitems
    obtain ⟨e₁, hstep, hrun⟩ := runSteps_cons_eq_none_iff.mp hrun
    obtain ⟨bytes, hbytes, rfl⟩ := step_body he hi hstep
    obtain ⟨more, hmore, rfl⟩ := ih rfl hitems hrun
    exact ⟨bytes ++ more, tokensBytes_cons hbytes hmore, by simp⟩

theorem run_silent {items : List Item} (he : e.Between o)
    (hshaped : Shaped none (items.map Item.token)) (hi : i.token = .lineEnd)
    (hrun : runSteps (step o constants symbols path) e (items ++ [i]) = (e', none)) :
    e'.Between o ∧ e'.lines = e.lines ∧ e'.numbering.last = e.numbering.last := by
  obtain ⟨e₁, hrun, hend⟩ := runSteps_append_eq_none_iff.mp hrun
  obtain ⟨e₂, hstep, hend⟩ := runSteps_cons_eq_none_iff.mp hend
  cases hend
  rw [step_lineEnd hi] at hstep
  cases hshaped with
  | front hfront =>
    obtain ⟨he₁, hlines, hlast⟩ := run_front he (fun i hi => hfront _ (List.mem_map_of_mem hi)) hrun
    have hclose : e₁.closeLine = e₁ := by rw [closeLine, he₁.closed]
    cases hstep
    rw [hclose]
    exact ⟨he₁, hlines, hlast⟩

theorem run_opened {items : List Item} {op : Opening} (he : e.Between o)
    (hshaped : Shaped (some op) (items.map Item.token)) (hi : i.token = .lineEnd)
    (hrun : runSteps (step o constants symbols path) e (items ++ [i]) = (e', none)) :
    let number := op.numberBehind o e.numbering.previous
    (1 ≤ number ∧ number ≤ 9999 ∧ e.numbering.last < number) ∧
      ∃ bytes, tokensBytes o constants symbols (items.map Item.token) = .ok bytes ∧
        e' = ⟨{ last := number }, ⟨number, bytes ++ [Code.endOfLine]⟩ :: e.lines, none⟩ := by
  obtain ⟨e₁, hline, hend⟩ := runSteps_append_eq_none_iff.mp hrun
  obtain ⟨e₂, hstep, hend⟩ := runSteps_cons_eq_none_iff.mp hend
  cases hend
  rw [step_lineEnd hi] at hstep
  cases hstep
  generalize htokens : items.map Item.token = tokens at hshaped ⊢
  cases hshaped with
  | opened hfront hop hbody =>
    -- The front writes nothing, the opening begins the line, and the body fills it.
    obtain ⟨front, rest, rfl, rfl, hrest⟩ := List.map_eq_append_iff.mp htokens
    obtain ⟨i', body, rfl, rfl, rfl⟩ := List.map_eq_cons_iff.mp hrest
    obtain ⟨e₂, hrunFront, hline⟩ := runSteps_append_eq_none_iff.mp hline
    obtain ⟨e₃, hstep, hrunBody⟩ := runSteps_cons_eq_none_iff.mp hline
    obtain ⟨he₂, hlines, hlast⟩ :=
      run_front he (fun i hi => hfront _ (List.mem_map_of_mem hi)) hrunFront
    obtain ⟨hrange, rfl⟩ := step_opening he₂ hop hstep
    obtain ⟨bytes, hbytes, rfl⟩ :=
      run_body rfl (fun i hi => hbody _ (List.mem_map_of_mem hi)) hrunBody
    have hprevious : e₂.numbering.previous = e.numbering.previous := by
      rw [Numbering.previous, Numbering.previous, hlast]
    rw [hprevious, hlast] at hrange
    refine ⟨hrange, bytes, ?_, ?_⟩
    · exact tokensBytes_append (tokensBytes_front hfront)
        (tokensBytes_cons (tokenBytes_opening hop) hbytes)
    · simp [closeLine, hlines, hprevious]

end steps

end Emission

end SpectrumTape.Basic
