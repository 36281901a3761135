import SpectrumTape.Proofs.Cursor.Bounds

/-!
# Operations of a session

A session that stops at line ends may go on by any operation that keeps to the source
(`Operation.Admitted`): by a command, or by a walk over bytes of any kind. Most of them stay on the line
of the cursor, as `Placed.perform_cases` says once for all; the others open a line or put a state back.
So every state of the session is placed in its source, and as long as nothing moves back, the captures
start where they should (`Session.Placed.reaches`, `Session.Placed.captures_reaches`).
-/

namespace SpectrumTape.Cursor

variable {source : Bytes} {c c' : Cursor}

/-! ### Operations that stay on the line -/

/-- A cursor on the same line of the same source. -/
structure Stays (c c' : Cursor) : Prop where
  bytes : c'.source = c.source
  stops : c'.stopAtLineEnd = c.stopAtLineEnd
  state : c.state.Stays c'.state

/-- A cursor on the same line that has not moved back. -/
def Onward (c c' : Cursor) : Prop := c.Stays c' ∧ c.state.pos ≤ c'.state.pos

namespace Placed

theorem onward_self (h : c.Placed source) : c.Onward c := ⟨⟨rfl, rfl, h.state.stays_self⟩, Nat.le_refl _⟩

theorem stays_moveTo {pos : Nat} (hstart : c.state.lineStart ≤ pos) (hend : pos ≤ c.state.lineEnd) :
    c.Stays (c.moveTo pos) :=
  ⟨rfl, rfl, rfl, rfl, rfl, rfl, hstart, hend, .inl rfl⟩

theorem onward_moveTo (h : c.Placed source) {pos : Nat} (hpos : c.state.pos ≤ pos)
    (hend : pos ≤ c.state.lineEnd) : c.Onward (c.moveTo pos) :=
  ⟨stays_moveTo (Nat.le_trans h.state.lineStart_le hpos) hend, hpos⟩

theorem onward_capture (h : c.Placed source) : c.Onward c.capture :=
  ⟨⟨rfl, rfl, rfl, rfl, rfl, rfl, h.state.lineStart_le, h.state.pos_le, .inl rfl⟩, Nat.le_refl _⟩

theorem onward_resetCapture (h : c.Placed source) : c.Onward c.resetCapture :=
  ⟨⟨rfl, rfl, rfl, rfl, rfl, rfl, h.state.lineStart_le, h.state.pos_le, .inr rfl⟩, Nat.le_refl _⟩

theorem onward_captureAndReset (h : c.Placed source) : c.Onward c.capture.resetCapture :=
  ⟨⟨rfl, rfl, rfl, rfl, rfl, rfl, h.state.lineStart_le, h.state.pos_le, .inr rfl⟩, Nat.le_refl _⟩

theorem stays_move (h : c.Placed source) (offset : Int) :
    c.Stays (c.move offset).2 ∧ (0 ≤ offset → c.state.pos ≤ (c.move offset).2.state.pos) := by
  simp only [move, h.limitStart_eq, h.limitEnd_eq, Bool.or_eq_true, decide_eq_true_eq]
  split_ifs with houtside
  · exact ⟨h.onward_self.1, fun _ => Nat.le_refl _⟩
  · refine ⟨stays_moveTo (by omega) (by omega), fun hforward => ?_⟩
    show c.state.pos ≤ ((c.state.pos : Int) + offset).toNat
    omega

theorem onward_take (h : c.Placed source) : c.Onward c.take.2 := by
  have hend := h.limitEnd_eq
  unfold take isEnd
  split_ifs with hleft
  · exact h.onward_self
  · rw [hend, decide_eq_true_eq] at hleft
    split
    · exact h.onward_moveTo (Nat.le_succ _) (by omega)
    · exact h.onward_self

theorem skipFrom_bounds (source : Array UInt8) (p : UInt8 → Bool) (start : Nat) {stop pos : Nat}
    (hpos : pos ≤ stop) :
    pos ≤ (skipFrom source p start stop pos).2 ∧ (skipFrom source p start stop pos).2 ≤ stop := by
  fun_induction skipFrom source p start stop pos with
  | case2 pos hlt b hb hp ih =>
    obtain ⟨hle, hstop⟩ := ih hlt
    exact ⟨Nat.le_trans (Nat.le_succ _) hle, hstop⟩
  | case1 | case3 | case4 => exact ⟨Nat.le_refl _, hpos⟩

theorem searchFrom_bounds (source : Array UInt8) (p : UInt8 → Bool) {stop pos : Nat}
    (hpos : pos ≤ stop) :
    pos ≤ (searchFrom source p stop pos).2 ∧ (searchFrom source p stop pos).2 ≤ stop := by
  fun_induction searchFrom source p stop pos with
  | case2 pos hlt => exact ⟨Nat.le_succ _, hlt⟩
  | case3 pos hlt b hb hp ih =>
    obtain ⟨hle, hstop⟩ := ih hlt
    exact ⟨Nat.le_trans (Nat.le_succ _) hle, hstop⟩
  | case1 | case4 => exact ⟨Nat.le_refl _, hpos⟩

theorem onward_skipWhile (h : c.Placed source) (p : UInt8 → Bool) : c.Onward (c.skipWhile p).2 := by
  have hbounds := skipFrom_bounds c.source p c.limitStart h.state.pos_le
  rw [skipWhile, h.limitEnd_eq]
  exact h.onward_moveTo hbounds.1 hbounds.2

theorem onward_searchFor (h : c.Placed source) (p : UInt8 → Bool) : c.Onward (c.searchFor p).2 := by
  have hbounds := searchFrom_bounds c.source p h.state.pos_le
  rw [searchFor, h.limitEnd_eq]
  exact h.onward_moveTo hbounds.1 hbounds.2

/-- A command other than the three that open a line stays on the line, and moves back only if it is
told to. -/
theorem perform_cases (h : c.Placed source) (command : Command) :
    (c.Stays (c.perform command).2 ∧
        ((∀ offset, command = .move offset → 0 ≤ offset) →
          c.state.pos ≤ (c.perform command).2.state.pos)) ∨
      command = .reset ∨ (∃ other, command = .resetTo other) ∨ (∃ stop, command = .setStop stop) ∨
        command = .nextLine := by
  have onward {c' : Cursor} (hc : c.Onward c') : c.Stays c' ∧
      ((∀ offset, command = .move offset → 0 ≤ offset) → c.state.pos ≤ c'.state.pos) :=
    ⟨hc.1, fun _ => hc.2⟩
  have hsettle := h.settle_eq
  cases command with
  | reset => exact .inr (.inl rfl)
  | resetTo other => exact .inr (.inr (.inl ⟨other, rfl⟩))
  | setStop stop => exact .inr (.inr (.inr (.inl ⟨stop, rfl⟩)))
  | nextLine => exact .inr (.inr (.inr (.inr rfl)))
  | move offset =>
    obtain ⟨hstays, hforward⟩ := h.stays_move offset
    refine .inl ?_
    rw [perform, hsettle]
    exact ⟨hstays, fun hoffset => hforward (hoffset offset rfl)⟩
  | skipWhile p =>
    refine .inl (onward ?_)
    rw [perform, hsettle]
    exact h.onward_skipWhile p.holds
  | searchFor p =>
    refine .inl (onward ?_)
    rw [perform, hsettle]
    exact h.onward_searchFor p.holds
  | take =>
    refine .inl (onward ?_)
    rw [perform, hsettle]
    exact h.onward_take
  | isByteAt b =>
    refine .inl (onward ?_)
    have hstill : (c.perform (.isByteAt b)).2 = c := by
      simp only [perform, hsettle]
      split_ifs <;> rfl
    rw [hstill]
    exact h.onward_self
  | resetCapture => exact .inl (onward h.onward_resetCapture)
  | captureText | capture => exact .inl (onward h.onward_capture)
  | captureAndReset => exact .inl (onward h.onward_captureAndReset)
  | isEnd | rest | byteAt | limit =>
    refine .inl (onward ?_)
    rw [perform, hsettle]
    exact h.onward_self
  | line =>
    refine .inl (onward ?_)
    rw [perform, h.findLineEnd_eq]
    exact h.onward_self
  | save | restore | stop | source | text | position | location | measure =>
    exact .inl (onward h.onward_self)

end Placed

/-! ### Sessions -/

/-- An operation on a session: a command, or a walk over bytes of any kind. -/
inductive Operation where
  | command (c : Command)
  | skipWhile (p : UInt8 → Bool)
  | searchFor (p : UInt8 → Bool)

def Session.after (s : Session) : Operation → Session
  | .command command => (s.step command).2
  | .skipWhile p => { s with cursor := (s.cursor.settle.skipWhile p).2 }
  | .searchFor p => { s with cursor := (s.cursor.settle.searchFor p).2 }

namespace Operation

/-- An operation that keeps to the source, goes on stopping at line ends, and puts back only what was
kept before. -/
def Admitted (source : Bytes) (s : Session) : Operation → Prop
  | .command (.resetTo other) => other = source
  | .command (.setStop stop) => stop = true
  | .command (.restore slot) => slot ∈ s.saved.map Prod.fst
  | _ => True

/-- An operation that does not move back. -/
def Forward : Operation → Prop
  | .command (.move offset) => 0 ≤ offset
  | _ => True

end Operation

namespace Session

variable {s s' : Session} {o : Operation} {P : State → Prop}

/-- Every state of a session, the present one and those kept, has a property. -/
def Keeps (P : State → Prop) (s : Session) : Prop :=
  P s.cursor.state ∧ ∀ kept ∈ s.saved, P kept.2

/-- A session over the source that stops at line ends and of which all states are placed. -/
structure Placed (source : Bytes) (s : Session) : Prop where
  bytes : s.cursor.source = source.toArray
  stops : s.cursor.stopAtLineEnd = true
  states : s.Keeps (State.Placed source)

theorem Placed.cursor (h : s.Placed source) : s.cursor.Placed source := ⟨h.bytes, h.stops, h.states.1⟩

theorem Keeps.savedAt (h : s.Keeps P) {slot : Int} (hslot : slot ∈ s.saved.map Prod.fst) :
    P (s.savedAt slot) := by
  unfold Session.savedAt
  cases hfind : s.saved.find? (·.1 == slot) with
  | some kept => exact h.2 kept (List.mem_of_find?_eq_some hfind)
  | none =>
    obtain ⟨kept, hkept, rfl⟩ := List.mem_map.mp hslot
    simpa using List.find?_eq_none.mp hfind kept hkept

theorem Keeps.after (h : s.Keeps P) (ho : o.Admitted source s)
    (hcursor : (∀ slot, o ≠ .command (.restore slot)) → P (s.after o).cursor.state) :
    (s.after o).Keeps P := by
  cases o with
  | skipWhile p => exact ⟨hcursor (fun _ => nofun), h.2⟩
  | searchFor p => exact ⟨hcursor (fun _ => nofun), h.2⟩
  | command command =>
    cases command with
    | restore slot => exact ⟨h.savedAt ho, h.2⟩
    | save slot =>
      refine ⟨h.1, fun kept hkept => ?_⟩
      rcases List.mem_cons.mp hkept with rfl | hkept
      · exact h.1
      · exact h.2 kept hkept
    | _ => exact ⟨hcursor (fun _ => nofun), h.2⟩

/-- An operation that puts no state back stays on the line, or opens a line where its capture starts. -/
theorem Placed.after_cases (h : s.Placed source) (ho : o.Admitted source s)
    (hrestore : ∀ slot, o ≠ .command (.restore slot)) :
    (s.cursor.Stays (s.after o).cursor ∧
        (o.Forward → s.cursor.state.pos ≤ (s.after o).cursor.state.pos)) ∨
      (s.after o).cursor.Placed source ∧
        (s.after o).cursor.state.lineStart = (s.after o).cursor.state.pos ∧
        (s.after o).cursor.state.captureStart = (s.after o).cursor.state.pos := by
  have hcursor := h.cursor
  have opened {c : Cursor} (hbytes : c.source = source.toArray) (hstops : c.stopAtLineEnd = true) :
      c.reset.Placed source ∧ c.reset.state.lineStart = c.reset.state.pos ∧
        c.reset.state.captureStart = c.reset.state.pos := by
    obtain ⟨hpos, hline, hcapture, -⟩ := settle_state { c with state := { lineEndKnown := false } }
    exact ⟨placed_reset hbytes hstops, hline.trans hpos.symm, hcapture.trans hpos.symm⟩
  cases o with
  | skipWhile p =>
    obtain ⟨hstays, hpos⟩ := hcursor.onward_skipWhile p
    refine .inl ?_
    rw [Session.after, hcursor.settle_eq]
    exact ⟨hstays, fun _ => hpos⟩
  | searchFor p =>
    obtain ⟨hstays, hpos⟩ := hcursor.onward_searchFor p
    refine .inl ?_
    rw [Session.after, hcursor.settle_eq]
    exact ⟨hstays, fun _ => hpos⟩
  | command command =>
    have hafter : (s.after (.command command)).cursor = (s.cursor.perform command).2 := by
      cases command with
      | restore slot => exact absurd rfl (hrestore slot)
      | _ => rfl
    rw [hafter]
    rcases hcursor.perform_cases command with
      ⟨hstays, hpos⟩ | rfl | ⟨other, rfl⟩ | ⟨stop, rfl⟩ | rfl
    · refine .inl ⟨hstays, fun hforward => hpos ?_⟩
      rintro offset rfl
      exact hforward
    · exact .inr (opened h.bytes h.stops)
    · obtain rfl : other = source := ho
      exact .inr (opened rfl h.stops)
    · obtain rfl : stop = true := ho
      have hstill : (s.cursor.perform (.setStop true)).2 = s.cursor := by
        have hstops : { s.cursor with stopAtLineEnd := true } = s.cursor := by rw [← h.stops]
        rw [perform, setStop, hstops, hcursor.settle_eq]
      rw [hstill]
      exact .inl ⟨hcursor.onward_self.1, fun _ => Nat.le_refl _⟩
    · obtain ⟨-, hplaced, hpos, hline, hcapture⟩ := hcursor.nextLine_eq
      exact .inr ⟨hplaced, hline.trans hpos.symm, hcapture.trans hpos.symm⟩

theorem Placed.after (h : s.Placed source) (ho : o.Admitted source s) :
    (s.after o).Placed source := by
  by_cases hrestore : ∃ slot, o = .command (.restore slot)
  · obtain ⟨slot, rfl⟩ := hrestore
    exact ⟨h.bytes, h.stops, h.states.savedAt ho, h.states.2⟩
  · have hcursor : (s.after o).cursor.Placed source := by
      rcases h.after_cases ho (not_exists.mp hrestore) with ⟨hstays, -⟩ | ⟨hplaced, -⟩
      · exact ⟨hstays.bytes.trans h.bytes, hstays.stops.trans h.stops, h.states.1.stays hstays.state⟩
      · exact hplaced
    exact ⟨hcursor.bytes, hcursor.stops, h.states.after ho fun _ => hcursor.state⟩

theorem Placed.captures_after (h : s.Placed source) (hcaptures : s.Keeps State.Captures)
    (ho : o.Admitted source s) (hforward : o.Forward) : (s.after o).Keeps State.Captures := by
  refine hcaptures.after ho fun hrestore => ?_
  rcases h.after_cases ho hrestore with ⟨hstays, hpos⟩ | ⟨-, hline, hcapture⟩
  · exact hcaptures.1.stays hstays.state (hpos hforward)
  · exact ⟨Nat.le_of_eq (hline.trans hcapture.symm), Nat.le_of_eq hcapture⟩

/-! ### Runs -/

/-- A session goes on to another by one operation. -/
def Step (source : Bytes) (s s' : Session) : Prop := ∃ o, o.Admitted source s ∧ s' = s.after o

/-- A session goes on to another by one operation that does not move back. -/
def ForwardStep (source : Bytes) (s s' : Session) : Prop :=
  ∃ o, o.Admitted source s ∧ o.Forward ∧ s' = s.after o

theorem ForwardStep.step (h : ForwardStep source s s') : Step source s s' := by
  obtain ⟨o, ho, -, rfl⟩ := h
  exact ⟨o, ho, rfl⟩

/-- The start of a session over a source that stops at line ends from the start. -/
def start (source : Bytes) : Session := { cursor := (Cursor.ofBytes source).setStop true }

theorem placed_start (source : Bytes) : (start source).Placed source := by
  have hplaced : (start source).cursor.Placed source :=
    placed_reset (c := { Cursor.ofBytes source with stopAtLineEnd := true }) rfl rfl
  exact ⟨hplaced.bytes, hplaced.stops, hplaced.state, nofun⟩

theorem captures_start (source : Bytes) : (start source).Keeps State.Captures := by
  obtain ⟨hpos, hline, hcapture, -⟩ := settle_state { Cursor.ofBytes source with stopAtLineEnd := true }
  exact ⟨⟨Nat.le_of_eq (hline.trans hcapture.symm), Nat.le_of_eq (hcapture.trans hpos.symm)⟩, nofun⟩

theorem Placed.reaches (h : s.Placed source)
    (hrun : Relation.ReflTransGen (Step source) s s') : s'.Placed source := by
  induction hrun with
  | refl => exact h
  | tail _ hstep ih =>
    obtain ⟨o, ho, rfl⟩ := hstep
    exact ih.after ho

theorem Placed.captures_reaches (h : s.Placed source) (hcaptures : s.Keeps State.Captures)
    (hrun : Relation.ReflTransGen (ForwardStep source) s s') : s'.Keeps State.Captures := by
  induction hrun with
  | refl => exact hcaptures
  | tail hrun hstep ih =>
    obtain ⟨o, ho, hforward, rfl⟩ := hstep
    have hplaced := h.reaches (hrun.lift id fun _ _ => ForwardStep.step)
    exact hplaced.captures_after ih ho hforward

end Session

end SpectrumTape.Cursor
