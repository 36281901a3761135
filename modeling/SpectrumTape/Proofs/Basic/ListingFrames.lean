import SpectrumTape.Proofs.Basic.Listing
import Mathlib.Data.List.Infix

/-!
# Listings of any bytes

A listing can be asked for any byte string. A frame is what a line looks like from outside: four bytes,
the last two of which say how many bytes follow (`IsFrame`). No frame begins another one
(`IsFrame.eq_of_append`), so a byte string begins with frames in one way only. The listing takes them
all (`exists_frames`), has one line for each of them, and ends without a problem exactly if nothing is
left (`list_frames`).
-/

namespace SpectrumTape.Basic.Listing

/-! ### Frames -/

/-- The bytes of a complete line: the number, high byte first, the size of the body, low byte first,
and the body. -/
def IsFrame (bytes : Bytes) : Prop :=
  ∃ (high low sizeLow sizeHigh : UInt8) (body : Bytes),
    bytes = high :: low :: sizeLow :: sizeHigh :: body ∧
      body.length = sizeLow.toNat + 256 * sizeHigh.toNat

/-- The number in the first two bytes of a frame. -/
def frameNumber (frame : Bytes) : Nat := 256 * (frame.getD 0 0).toNat + (frame.getD 1 0).toNat

def frameLine (frame : Bytes) : Line := ⟨frameNumber frame, frame.drop 4⟩

theorem IsFrame.eq_of_append {f g s t : Bytes} (hf : IsFrame f) (hg : IsFrame g)
    (h : f ++ s = g ++ t) : f = g ∧ s = t := by
  obtain ⟨a, b, c, d, body, rfl, hbody⟩ := hf
  obtain ⟨a', b', c', d', body', rfl, hbody'⟩ := hg
  simp only [List.cons_append, List.cons.injEq] at h
  obtain ⟨rfl, rfl, rfl, rfl, h⟩ := h
  obtain ⟨rfl, rfl⟩ := List.append_inj h (hbody.trans hbody'.symm)
  exact ⟨rfl, rfl⟩

theorem split_frame_append {f : Bytes} (hf : IsFrame f) (rest : Bytes) :
    split (f ++ rest) =
      ((frameNumber f, (frameLine f).body) :: (split rest).1, (split rest).2) := by
  obtain ⟨a, b, c, d, body, rfl, hbody⟩ := hf
  have hsize : c.toNat + d.toNat * 256 = body.length := by omega
  have hnumber : a.toNat * 256 + b.toNat = 256 * a.toNat + b.toNat := by omega
  simp only [List.cons_append]
  rw [split]
  simp only [hsize, List.take_left, List.drop_left, Nat.lt_irrefl, if_false, hnumber]
  rfl

theorem split_frames_append {frames : List Bytes} (hframes : ∀ f ∈ frames, IsFrame f)
    (rest : Bytes) :
    split (frames.flatten ++ rest) =
      (frames.map (fun f => (frameNumber f, (frameLine f).body)) ++ (split rest).1,
        (split rest).2) := by
  induction frames with
  | nil => rfl
  | cons f frames ih =>
    obtain ⟨hf, hframes⟩ := List.forall_mem_cons.mp hframes
    rw [List.flatten_cons, List.append_assoc, split_frame_append hf, ih hframes]
    rfl

/-! ### What a listing takes -/

/-- Whether a byte string does not begin with a frame. -/
def Stuck (rest : Bytes) : Prop := ∀ f, IsFrame f → ¬f <+: rest

theorem IsFrame.four_le_length {f : Bytes} (hf : IsFrame f) : 4 ≤ f.length := by
  obtain ⟨a, b, c, d, body, rfl, -⟩ := hf
  simp

theorem stuck_of_length {rest : Bytes} (hrest : rest.length < 4) : Stuck rest := by
  intro f hf hprefix
  have hle := hprefix.length_le
  have hfour := hf.four_le_length
  omega

theorem stuck_of_header (a b : UInt8) {c d : UInt8} {rest : Bytes}
    (hrest : rest.length < c.toNat + d.toNat * 256) : Stuck (a :: b :: c :: d :: rest) := by
  rintro f ⟨a', b', c', d', body, rfl, hbody⟩ hprefix
  simp only [List.cons_prefix_cons] at hprefix
  obtain ⟨rfl, rfl, rfl, rfl, hprefix⟩ := hprefix
  have hle := hprefix.length_le
  omega

/-- A listing takes frames as long as there are any, and it has a problem if anything is left. -/
theorem exists_frames (program : Bytes) :
    ∃ (frames : List Bytes) (rest : Bytes), (∀ f ∈ frames, IsFrame f) ∧
      program = frames.flatten ++ rest ∧ Stuck rest ∧ (split rest).1 = [] ∧
      ((split rest).2 = none ↔ rest = []) := by
  fun_induction split program with
  | case1 =>
    refine ⟨[], [], List.forall_mem_nil _, rfl, stuck_of_length (by decide), ?_⟩
    rw [split]
    exact ⟨rfl, iff_of_true rfl rfl⟩
  | case2 a b c d rest number size body hshort =>
    have hrest : rest.length < size := by
      rw [List.length_take] at hshort
      omega
    refine ⟨[], _, List.forall_mem_nil _, rfl, stuck_of_header a b hrest, ?_⟩
    rw [split]
    simp only
    rw [if_pos hshort]
    exact ⟨rfl, iff_of_false (Option.some_ne_none _) (List.cons_ne_nil _ _)⟩
  | case3 a b c d rest number size body hshort lines problem hsplit ih =>
    obtain ⟨frames, left, hframes, hdrop, hleft⟩ := ih
    have hbody : body.length = size := by
      have hle : body.length ≤ size := List.length_take_le _ _
      omega
    have hframe : IsFrame (a :: b :: c :: d :: body) :=
      ⟨a, b, c, d, body, rfl, by rw [hbody, Nat.mul_comm 256]⟩
    refine ⟨_ :: frames, left, List.forall_mem_cons.mpr ⟨hframe, hframes⟩, ?_, hleft⟩
    rw [List.flatten_cons, List.append_assoc, ← hdrop, List.cons_append, List.cons_append,
      List.cons_append, List.cons_append, List.take_append_drop]
  | case4 rest hne hfour =>
    have hlength : rest.length < 4 := by
      rcases rest with _ | ⟨a, _ | ⟨b, _ | ⟨c, _ | ⟨d, rest⟩⟩⟩⟩
      case cons.cons.cons.cons => exact absurd rfl (hfour a b c d rest)
      all_goals simp
    refine ⟨[], rest, List.forall_mem_nil _, rfl, stuck_of_length hlength, ?_⟩
    rw [split]
    · exact ⟨rfl, iff_of_false (Option.some_ne_none _) fun h => hne h⟩
    all_goals assumption

theorem isPrefix_of_flatten {frames others : List Bytes} {rest : Bytes}
    (hframes : ∀ f ∈ frames, IsFrame f) (hothers : ∀ f ∈ others, IsFrame f) (hrest : Stuck rest)
    (h : others.flatten <+: frames.flatten ++ rest) : others <+: frames := by
  induction others generalizing frames with
  | nil => exact List.nil_prefix
  | cons g others ih =>
    obtain ⟨hg, hothers⟩ := List.forall_mem_cons.mp hothers
    rw [List.flatten_cons] at h
    cases frames with
    | nil => exact absurd ((List.prefix_append g _).trans h) (hrest g hg)
    | cons f frames =>
      obtain ⟨hf, hlater⟩ := List.forall_mem_cons.mp hframes
      obtain ⟨behind, h⟩ := h
      rw [List.flatten_cons, List.append_assoc, List.append_assoc] at h
      obtain ⟨rfl, hbehind⟩ := hg.eq_of_append hf h
      exact List.cons_prefix_cons.mpr ⟨rfl, ih hlater hothers ⟨behind, hbehind⟩⟩

/-! ### The text -/

theorem text_frames_append (v : Vocabulary) {frames : List Bytes} (hframes : ∀ f ∈ frames, IsFrame f)
    {rest : Bytes} (hrest : (split rest).1 = []) :
    (list v (frames.flatten ++ rest)).text =
      (frames.map fun f => lineContent v (frameLine f)).flatMap (· ++ [Ascii.lf]) := by
  simp only [list, split_frames_append hframes, hrest, List.append_nil, List.flatMap_map]
  rfl

theorem count_lf_flatMap {texts : List Bytes} (htexts : ∀ text ∈ texts, Ascii.lf ∉ text) :
    (texts.flatMap (· ++ [Ascii.lf])).count Ascii.lf = texts.length := by
  induction texts with
  | nil => rfl
  | cons text texts ih =>
    obtain ⟨htext, htexts⟩ := List.forall_mem_cons.mp htexts
    rw [List.flatMap_cons, List.count_append, List.count_append, ih htexts,
      List.count_eq_zero_of_not_mem htext, List.count_singleton_self, List.length_cons]
    omega

theorem lf_notMem_lineContent (dialect : Dialect) (l : Line) :
    Ascii.lf ∉ lineContent (Vocabulary.ofDialect dialect) l := by
  intro h
  exact absurd (List.all_eq_true.mp (shown_lineContent dialect l) _ h) (by decide)

/-- **A listing has one line for each frame at the start of the bytes.** It has no problem exactly if
the bytes are frames and nothing else. Then every frame gives one line of text that begins with its
number. Otherwise the text is that of the longest part at the start that is made of frames. -/
theorem list_frames (dialect : Dialect) (program : Bytes) :
    let v := Vocabulary.ofDialect dialect
    ((list v program).problem = none ↔
      ∃ frames : List Bytes, (∀ f ∈ frames, IsFrame f) ∧ program = frames.flatten) ∧
    (∀ frames : List Bytes, (∀ f ∈ frames, IsFrame f) → program = frames.flatten →
      (list v program).text.count Ascii.lf = frames.length ∧
      ∃ texts : List Bytes, (list v program).text = texts.flatMap (· ++ [Ascii.lf]) ∧
        List.Forall₂ (fun f text => Bytes.decimal (frameNumber f) <+: text ∧ Ascii.lf ∉ text)
          frames texts) ∧
    ((list v program).problem ≠ none →
      ∃ (frames : List Bytes) (rest : Bytes), (∀ f ∈ frames, IsFrame f) ∧
        program = frames.flatten ++ rest ∧
        (∀ others : List Bytes, (∀ f ∈ others, IsFrame f) → others.flatten <+: program →
          others <+: frames) ∧
        (list v program).text = (list v frames.flatten).text) := by
  intro v
  have hwhole {frames : List Bytes} (hframes : ∀ f ∈ frames, IsFrame f) :
      (list v frames.flatten).problem = none ∧ (list v frames.flatten).text =
        (frames.map fun f => lineContent v (frameLine f)).flatMap (· ++ [Ascii.lf]) := by
    have hnil : split [] = ([], none) := by rw [split]
    rw [← List.append_nil frames.flatten, text_frames_append v hframes (by rw [hnil])]
    simp only [list, split_frames_append hframes, hnil, and_self]
  obtain ⟨frames, rest, hframes, rfl, hstuck, hnone, hproblem⟩ := exists_frames program
  have hlisted : (list v (frames.flatten ++ rest)).problem = none ↔ rest = [] := by
    rw [← hproblem]
    simp only [list, split_frames_append hframes]
  refine ⟨⟨fun h => ?_, ?_⟩, ?_, fun _ => ?_⟩
  · rw [hlisted.mp h, List.append_nil]
    exact ⟨frames, hframes, rfl⟩
  · rintro ⟨others, hothers, heq⟩
    rw [heq]
    exact (hwhole hothers).1
  · intro others hothers heq
    rw [heq, (hwhole hothers).2, count_lf_flatMap, List.length_map]
    · refine ⟨rfl, _, rfl, ?_⟩
      rw [List.forall₂_map_right_iff, List.forall₂_same]
      exact fun f _ => ⟨List.prefix_append _ _, lf_notMem_lineContent dialect _⟩
    · rw [List.forall_mem_map]
      exact fun f _ => lf_notMem_lineContent dialect _
  · refine ⟨frames, rest, hframes, rfl, fun others hothers h => ?_, ?_⟩
    · exact isPrefix_of_flatten hframes hothers hstuck h
    · rw [text_frames_append v hframes hnone, (hwhole hframes).2]

/-- A line that ends within the five bytes of a number, and a line without a body. -/
def endingFrames : List Bytes := [[0x00, 0x0A, 3, 0, 0xF5, 0x0E, 0x01], [0x27, 0x0F, 0, 0]]

theorem list_frames_endingFrames :
    let v := Vocabulary.ofDialect .k48
    let whole := endingFrames.flatten
    let cut := whole ++ [0x00, 0x1E, 2, 0, 0x0D]
    (∀ f ∈ endingFrames, IsFrame f) ∧ (list v whole).problem = none ∧
      (list v whole).text.count Ascii.lf = 2 ∧ (list v cut).problem = some (.shortBody 30 2) ∧
      ∃ (frames : List Bytes) (rest : Bytes), cut = frames.flatten ++ rest ∧
        endingFrames <+: frames ∧ (list v cut).text = (list v frames.flatten).text := by
  intro v whole cut
  have hframes : ∀ f ∈ endingFrames, IsFrame f := by
    refine List.forall_mem_cons.mpr ⟨?_, List.forall_mem_singleton.mpr ?_⟩
    · exact ⟨_, _, _, _, _, rfl, rfl⟩
    · exact ⟨_, _, _, _, _, rfl, rfl⟩
  have hproblem : (list v cut).problem = some (.shortBody 30 2) := by
    have hrest : (split [0x00, 0x1E, 2, 0, 0x0D]).2 = some (.shortBody 30 2) := by
      rw [split]
      decide
    simp only [list, cut, whole, split_frames_append hframes, hrest]
  obtain ⟨hnone, htext, -⟩ := list_frames .k48 whole
  obtain ⟨-, -, hcut⟩ := list_frames .k48 cut
  obtain ⟨frames, rest, -, hsplit, hlongest, hsame⟩ := hcut (by rw [hproblem]; exact Option.some_ne_none _)
  exact ⟨hframes, hnone.mpr ⟨_, hframes, rfl⟩, (htext _ hframes rfl).1, hproblem, frames, rest, hsplit,
    hlongest _ hframes (List.prefix_append _ _), hsame⟩

end SpectrumTape.Basic.Listing
