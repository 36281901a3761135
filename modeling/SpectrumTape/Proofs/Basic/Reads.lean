import SpectrumTape.Proofs.Basic.Reading
import SpectrumTape.Proofs.Cursor.Place

/-!
# Parts of a walk

What a part of a walk does is told by the place it starts from and by the items that are yet to come.
`Gives` is for parts that hand over nothing: they lead from a place to a place. `Reads` is for the
others: either the pass fails, and this is how it fails on the items to come, or the walk goes on at a
place with items that the pass makes the same of. In both cases no text outside the source was taken.
A walk that never leaves the source and comes to an end is put together from such parts
(`Reads.bind`, `Reads.loop`).
-/

namespace SpectrumTape

def Place.item (p : Place) (t : Basic.Token) : Basic.Item := ⟨p.line, p.column, t⟩

namespace Basic

variable {σ α β γ : Type} {pass : Pass σ} {source : Bytes} {p p' p'' : Place} {items : List Item}

/-- All texts that were taken lie in the source. -/
def Reader.InRange (source : Bytes) (r : Reader σ) : Prop :=
  ∀ s ∈ r.taken, 0 ≤ s.start ∧ s.start ≤ s.stop ∧ s.stop ≤ source.length

/-- A walk is at a place. -/
structure Reader.At (source : Bytes) (r : Reader σ) (p : Place) : Prop where
  stands : r.cursor.Stands source p
  inRange : r.InRange source

/-- A part of a walk gives `a` and leads from a place to another one; no token is handed over. -/
def Gives (source : Bytes) (x : Reading σ α) (p : Place) (a : α) (p' : Place) : Prop :=
  ∀ r : Reader σ, r.At source p →
    ∃ r', x.run.run r = (.ok a, r') ∧ r'.At source p' ∧ r'.pass = r.pass

/-- How a part of a walk ends that starts with `r` and these items to come: it goes on with the rest
of them, or the pass fails on them. -/
inductive Proceeds (pass : Pass σ) (source : Bytes) (r : Reader σ) (items : List Item)
    (Q : α → Place → List Item → Prop) : Except Halt α × Reader σ → Prop where
  | on {a : α} {r' : Reader σ} {p' : Place} {rest : List Item} (hat : r'.At source p')
      (hsame : runSteps pass.step r.pass items = runSteps pass.step r'.pass rest)
      (hpost : Q a p' rest) : Proceeds pass source r items Q (.ok a, r')
  | fault {f : Fault Cause} {r' : Reader σ} (hrange : r'.InRange source)
      (hfault : runSteps pass.step r.pass items = (r'.pass, some f)) :
      Proceeds pass source r items Q (.error (.fault f), r')

/-- From a place and these items to come, a part of a walk hands over items up to where `Q` holds. -/
def Reads (pass : Pass σ) (source : Bytes) (x : Reading σ α) (p : Place) (items : List Item)
    (Q : α → Place → List Item → Prop) : Prop :=
  ∀ r : Reader σ, r.At source p → Proceeds pass source r items Q (x.run.run r)

theorem run_bind (x : Reading σ α) (f : α → Reading σ β) (r : Reader σ) :
    (x >>= f).run.run r =
      match x.run.run r with
      | (.ok a, r') => (f a).run.run r'
      | (.error halt, r') => (.error halt, r') := by
  rw [ExceptT.run_bind, StateT.run_bind]
  rcases x.run.run r with ⟨halt | a, r'⟩ <;> rfl

theorem run_bind_ok {x : Reading σ α} {f : α → Reading σ β} {r r' : Reader σ} {a : α}
    (h : x.run.run r = (.ok a, r')) : (x >>= f).run.run r = (f a).run.run r' := by
  rw [run_bind, h]

/-! ### Putting parts together -/

theorem gives_pure (a : α) : Gives source (pure a : Reading σ α) p a p :=
  fun r hr => ⟨r, rfl, hr, rfl⟩

theorem Gives.bind {x : Reading σ α} {f : α → Reading σ β} {a : α} {b : β}
    (hx : Gives source x p a p') (hf : Gives source (f a) p' b p'') :
    Gives source (x >>= f) p b p'' := by
  intro r hr
  obtain ⟨r₁, hrun, hat, hpass⟩ := hx r hr
  obtain ⟨r₂, hrun', hat', hpass'⟩ := hf r₁ hat
  exact ⟨r₂, (run_bind_ok hrun).trans hrun', hat', hpass'.trans hpass⟩

theorem reads_pure {Q : α → Place → List Item → Prop} {a : α} (h : Q a p items) :
    Reads pass source (pure a) p items Q :=
  fun _ hr => .on hr rfl h

theorem Proceeds.of_same {Q : α → Place → List Item → Prop} {r r' : Reader σ} {rest : List Item}
    {out : Except Halt α × Reader σ} (h : Proceeds pass source r' rest Q out)
    (hsame : runSteps pass.step r.pass items = runSteps pass.step r'.pass rest) :
    Proceeds pass source r items Q out := by
  cases h with
  | on hat hrest hpost => exact .on hat (hsame.trans hrest) hpost
  | fault hrange hfault => exact .fault hrange (hsame.trans hfault)

theorem Reads.bind {x : Reading σ α} {f : α → Reading σ β} {Q : α → Place → List Item → Prop}
    {Q' : β → Place → List Item → Prop} (hx : Reads pass source x p items Q)
    (hf : ∀ a q rest, Q a q rest → Reads pass source (f a) q rest Q') :
    Reads pass source (x >>= f) p items Q' := by
  intro r hr
  have hends := hx r hr
  rw [run_bind]
  generalize x.run.run r = out at hends ⊢
  cases hends with
  | on hat hsame hpost => exact (hf _ _ _ hpost _ hat).of_same hsame
  | fault hrange hfault => exact .fault hrange hfault

theorem Reads.mono {x : Reading σ α} {Q Q' : α → Place → List Item → Prop}
    (hx : Reads pass source x p items Q) (h : ∀ a q rest, Q a q rest → Q' a q rest) :
    Reads pass source x p items Q' := by
  rw [← bind_pure x]
  exact hx.bind fun a q rest hpost => reads_pure (h a q rest hpost)

theorem Gives.then {x : Reading σ α} {f : α → Reading σ β} {Q : β → Place → List Item → Prop} {a : α}
    (hx : Gives source x p a p') (hf : Reads pass source (f a) p' items Q) :
    Reads pass source (x >>= f) p items Q := by
  intro r hr
  obtain ⟨r', hrun, hat, hpass⟩ := hx r hr
  rw [run_bind_ok hrun]
  exact (hf r' hat).of_same (by rw [hpass])

/-! ### Loops -/

/-- After a round that began at `p` the loop goes on from a later place where `I` holds, or it is over
and `Q` holds. -/
def Round (I : β → Place → List Item → Prop) (Q : γ → Place → List Item → Prop) (p : Place) :
    β ⊕ γ → Place → List Item → Prop
  | .inl b, q, rest => I b q rest ∧ q.left < p.left
  | .inr c, q, rest => Q c q rest ∧ q.left ≤ p.left

theorem Round.of_left_le {I : β → Place → List Item → Prop} {Q : γ → Place → List Item → Prop}
    {out : β ⊕ γ} {q : Place} (hle : p'.left ≤ p.left) (h : Round I Q p' out q items) :
    Round I Q p out q items := by
  cases out with
  | inl b => exact ⟨h.1, Nat.lt_of_lt_of_le h.2 hle⟩
  | inr c => exact ⟨h.1, Nat.le_trans h.2 hle⟩

/-- A loop whose rounds keep `I` and get on comes to an end, where `Q` holds. -/
theorem Reads.rounds {body : β → Reading σ (β ⊕ γ)} {I : β → Place → List Item → Prop}
    {Q : γ → Place → List Item → Prop}
    (hbody : ∀ b p items, I b p items → Reads pass source (body b) p items (Round I Q p))
    (n : Nat) {b : β} (hn : p.left < n) (h : I b p items) :
    Reads pass source (Reading.rounds body n b) p items fun c q rest =>
      Q c q rest ∧ q.left ≤ p.left := by
  induction n generalizing b p items with
  | zero => exact absurd hn (Nat.not_lt_zero _)
  | succ n ih =>
    refine (hbody b p items h).bind fun out q rest hpost => ?_
    cases out with
    | inl b' =>
      obtain ⟨hI, hleft⟩ := hpost
      refine (ih (by omega) hI).mono fun c q' rest' h => ⟨h.1, ?_⟩
      have := h.2
      omega
    | inr c => exact reads_pure hpost

theorem Reads.loop {body : β → Reading σ (β ⊕ γ)} {I : β → Place → List Item → Prop}
    {Q : γ → Place → List Item → Prop}
    (hbody : ∀ b p items, I b p items → Reads pass source (body b) p items (Round I Q p))
    {b : β} (h : I b p items) :
    Reads pass source (Reading.loop body b) p items fun c q rest => Q c q rest ∧ q.left ≤ p.left := by
  intro r hr
  have hsize : r.cursor.source.size = source.length := by rw [hr.stands.bytes, List.size_toArray]
  have hleft := hr.stands.left_le
  exact Reads.rounds hbody (r.cursor.source.size + 1) (by omega) h r hr

/-! ### Operations of the cursor -/

theorem run_operate_some {f : Cursor → Option α × Cursor} {r : Reader σ} {a : α} {c' : Cursor}
    (h : f r.cursor.settle = (some a, c')) :
    (Reading.operate f).run.run r = (.ok a, { r with cursor := c' }) := by
  have hget : (get : Reading σ (Reader σ)).run.run r = (.ok r, r) := rfl
  rw [Reading.operate, run_bind_ok hget, h]
  rfl

theorem gives_operate {f : Cursor → Option α × Cursor} {a : α}
    (h : ∀ c : Cursor, c.Stands source p → ∃ c', f c = (some a, c') ∧ c'.Stands source p') :
    Gives source (Reading.operate f : Reading σ α) p a p' := by
  intro r hr
  obtain ⟨c', hf, hstands⟩ := h r.cursor hr.stands
  rw [← hr.stands.settle_eq] at hf
  exact ⟨_, run_operate_some hf, ⟨hstands, hr.inRange⟩, rfl⟩

theorem gives_isEnd : Gives source (Reading.isEnd : Reading σ Bool) p p.here.isEmpty p :=
  gives_operate fun c hc => ⟨c, by rw [hc.isEnd_eq], hc⟩

theorem gives_byteAt (n : Nat) :
    Gives source (Reading.byteAt n : Reading σ UInt8) p (p.here.getD n 0) p :=
  gives_operate fun c hc => ⟨c, by rw [hc.byteAt?_eq], hc⟩

theorem gives_move {n : Nat} (hn : n ≤ p.here.length) :
    Gives source (Reading.move n : Reading σ Unit) p () (p.forward n) :=
  gives_operate fun c hc => ⟨_, by rw [hc.move_eq hn], hc.moveTo hn⟩

theorem gives_take_cons {b : UInt8} {rest : Bytes} (hhere : p.here = b :: rest) :
    Gives source (Reading.take : Reading σ UInt8) p b (p.forward 1) :=
  gives_operate fun _ hc => ⟨_, hc.take_cons hhere, hc.moveTo (by simp [hhere])⟩

theorem gives_take_nil (hhere : p.here = []) :
    Gives source (Reading.take : Reading σ UInt8) p 0 p :=
  gives_operate fun c hc => ⟨c, hc.take_nil hhere, hc⟩

theorem gives_skipWhile (q : UInt8 → Bool) :
    Gives source (Reading.skipWhile q : Reading σ Unit) p ()
      (p.forward (Literal.runLength q p.here)) :=
  gives_operate fun c hc =>
    ⟨_, by rw [hc.skipWhile_eq]; rfl, hc.moveTo (List.takeWhile_prefix q).length_le⟩

theorem gives_nextLine {next : Bytes} {more : List Bytes} (hlater : p.later = next :: more) :
    Gives source (Reading.nextLine : Reading σ Bool) p true ⟨p.line + 1, 1, next, more, []⟩ :=
  gives_operate fun c hc => ⟨_, by rw [(hc.nextLine_cons hlater).1], (hc.nextLine_cons hlater).2⟩

theorem reads_nextLine (hlater : p.later = []) :
    Reads pass source Reading.nextLine p items fun more q rest =>
      more = false ∧ rest = items ∧ q.here = [] ∧ q.later = [] := by
  intro r hr
  obtain ⟨hmore, line, hstands⟩ := hr.stands.nextLine_nil hlater
  have hrun : (Reading.nextLine : Reading σ Bool).run.run r =
      (.ok false, { r with cursor := r.cursor.nextLine.2 }) := by
    refine run_operate_some ?_
    rw [hr.stands.settle_eq, hmore]
  have hat : ({ r with cursor := r.cursor.nextLine.2 } : Reader σ).At source ⟨line, 1, [], [], []⟩ :=
    ⟨hstands, hr.inRange⟩
  rw [hrun]
  exact (reads_pure ⟨rfl, rfl, rfl, rfl⟩ _ hat).of_same rfl

theorem gives_resetCapture : Gives source (Reading.resetCapture : Reading σ Unit) p () p.mark :=
  gives_operate fun _ hc => ⟨_, rfl, hc.resetCapture⟩

/-! ### Texts -/

theorem run_text_some {r : Reader σ} {s : Span} {text : Bytes} (hat : r.At source p)
    (h : r.cursor.text? s = some text) :
    ∃ r', (Reading.text s).run.run r = (.ok text, r') ∧ r'.At source p ∧ r'.pass = r.pass ∧
      r'.cursor = r.cursor := by
  have hsettle := hat.stands.settle_eq
  have hlength : r.cursor.source.size = source.length := by
    rw [hat.stands.bytes, List.size_toArray]
  have hrun : (Reading.text s).run.run r = (.ok text, { r with taken := s :: r.taken }) := by
    have hfirst : (Reading.text s).run.run r =
        (Reading.operate fun c => (c.text? s, c)).run.run { r with taken := s :: r.taken } := rfl
    rw [hfirst]
    refine run_operate_some ?_
    simp only [hsettle, h]
  refine ⟨_, hrun, ⟨hat.stands, ?_⟩, rfl, rfl⟩
  -- The range that was just taken is in the source because its text could be taken.
  have hbounds := Cursor.bounds_of_text? h
  rw [hlength] at hbounds
  exact List.forall_mem_cons.mpr ⟨hbounds, hat.inRange⟩

theorem run_capture {r : Reader σ} (hat : r.At source p) :
    (Reading.capture : Reading σ Span).run.run r =
      (.ok r.cursor.capture.captured, { r with cursor := r.cursor.capture }) := by
  refine run_operate_some ?_
  rw [hat.stands.settle_eq]

theorem gives_captured : Gives source (Reading.captured : Reading σ Bytes) p p.captured p := by
  intro r hr
  obtain ⟨r', htext, hat, hpass, -⟩ :=
    run_text_some (r := { r with cursor := r.cursor.capture }) ⟨hr.stands.capture, hr.inRange⟩
      hr.stands.text?_captured
  exact ⟨r', (run_bind_ok (run_capture hr)).trans htext, hat, hpass⟩

theorem gives_capturedBefore {b : UInt8} {before : Bytes} (h : p.captured = before ++ [b]) :
    Gives source (Reading.capturedBefore : Reading σ Bytes) p before p := by
  intro r hr
  obtain ⟨r', htext, hat, hpass, -⟩ :=
    run_text_some (r := { r with cursor := r.cursor.capture }) ⟨hr.stands.capture, hr.inRange⟩
      (hr.stands.text?_captured_dropLast h)
  exact ⟨r', (run_bind_ok (run_capture hr)).trans htext, hat, hpass⟩

theorem run_remaining {r : Reader σ} (hat : r.At source p) :
    (Reading.remaining : Reading σ Span).run.run r =
      (.ok ⟨r.cursor.state.pos, r.cursor.limitEnd⟩, r) := by
  have hsettle := hat.stands.settle_eq
  have hrun : (Reading.remaining : Reading σ Span).run.run r = (.ok _, { r with cursor := _ }) :=
    run_operate_some rfl
  rw [hrun, hsettle]

theorem gives_rest : Gives source (Reading.rest : Reading σ Bytes) p p.here p := by
  intro r hr
  obtain ⟨r', htext, hat, hpass, -⟩ := run_text_some hr hr.stands.rest?_eq
  exact ⟨r', (run_bind_ok (run_remaining hr)).trans htext, hat, hpass⟩

theorem gives_restBehind {b : UInt8} {rest : Bytes} (hhere : p.here = b :: rest) :
    Gives source (Reading.restBehind : Reading σ Bytes) p rest p := by
  intro r hr
  obtain ⟨r₁, hfirst, hat₁, hpass₁, hcursor⟩ := run_text_some hr hr.stands.rest?_eq
  have hbehind := hr.stands.text?_behind hhere
  rw [← hcursor] at hbehind
  obtain ⟨r₂, hsecond, hat₂, hpass₂, -⟩ := run_text_some hat₁ hbehind
  refine ⟨r₂, ?_, hat₂, hpass₂.trans hpass₁⟩
  refine (run_bind_ok (run_remaining hr)).trans ((run_bind_ok hfirst).trans ?_)
  rw [← hsecond, hcursor]
  rfl

/-! ### Tokens -/

theorem run_hand {r : Reader σ} (hr : r.At source p) (t : Token) :
    (Reading.hand pass t).run.run r =
      match pass.step r.pass (p.item t) with
      | .ok s => (.ok (), { r with pass := s })
      | .error f => (.error (.fault f), r) := by
  have hitem : (⟨r.cursor.location.1.toNat, r.cursor.location.2.toNat, t⟩ : Item) = p.item t := by
    rw [hr.stands.location_eq]
    rfl
  have hrun : (Reading.hand pass t).run.run r =
      (match pass.step r.pass ⟨r.cursor.location.1.toNat, r.cursor.location.2.toNat, t⟩ with
        | .ok s => (set { r with pass := s } : Reading σ Unit)
        | .error f => throw (Halt.fault f)).run.run r := rfl
  rw [hrun, hitem]
  cases pass.step r.pass (p.item t) <;> rfl

/-- A token is handed over where an item comes that the pass makes the same of. -/
theorem reads_hand_of {t : Token} {i : Item} (hi : ∀ s, pass.step s i = pass.step s (p.item t)) :
    Reads pass source (Reading.hand pass t) p (i :: items) fun _ q rest => q = p ∧ rest = items := by
  intro r hr
  rw [run_hand hr]
  cases hstep : pass.step r.pass (p.item t) with
  | ok s =>
    have hsame : runSteps pass.step r.pass (i :: items) = runSteps pass.step s items := by
      rw [runSteps, hi, hstep]
    exact .on ⟨hr.stands, hr.inRange⟩ hsame ⟨rfl, rfl⟩
  | error f =>
    refine .fault hr.inRange ?_
    rw [runSteps, hi, hstep]

theorem reads_hand {t : Token} :
    Reads pass source (Reading.hand pass t) p (p.item t :: items) fun _ q rest =>
      q = p ∧ rest = items :=
  reads_hand_of fun _ => rfl

theorem reads_hand_lineEnd {line column : Nat} :
    Reads pass source (Reading.hand pass .lineEnd) p (⟨line, column, .lineEnd⟩ :: items)
      fun _ q rest => q = p ∧ rest = items :=
  reads_hand_of fun s => pass.step_lineEnd s line column p.line p.column

theorem reads_fail {cause : Cause} {Q : α → Place → List Item → Prop} :
    Reads pass source (Reading.fail pass cause) p (p.item (.fault cause) :: items) Q := by
  intro r hr
  have hrun : (Reading.fail pass cause : Reading σ α).run.run r =
      (.error (.fault { location := some ⟨pass.path, p.line, p.column⟩, cause }), r) := by
    have hlocation := hr.stands.location_eq
    have hthrow : (Reading.fail pass cause : Reading σ α).run.run r =
        (.error (.fault { location := some ⟨pass.path, r.cursor.location.1.toNat,
          r.cursor.location.2.toNat⟩, cause }), r) := rfl
    rw [hthrow, hlocation]
    rfl
  rw [hrun]
  refine .fault hr.inRange ?_
  rw [runSteps, Place.item, pass.step_fault]

end Basic

end SpectrumTape
