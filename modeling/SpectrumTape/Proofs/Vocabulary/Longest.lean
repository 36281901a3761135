import SpectrumTape.Proofs.Text.Folding
import SpectrumTape.Proofs.Vocabulary

/-!
# The longest keyword

A keyword may be the beginning of another one, and a word may begin with a keyword. The spellings are
looked through from the longest to the shortest, so the first that fits is the longest that does
(`Spelling.firstFound_longest`), also if longer ones failed only because the word goes on. No two
spellings are alike, so there is one longest (`Vocabulary.findKeyword?_longest`).
-/

namespace SpectrumTape

namespace Spelling

/-- The text begins with the spelling, as `same` compares them, and if that is made of letters only,
the word ends there. -/
def Opens (same : Bytes → Bytes → Prop) (s : Spelling) (text : Bytes) : Prop :=
  s.text.length ≤ text.length ∧ same (text.take s.text.length) s.text ∧
    ((∀ c ∈ s.text, Ascii.isAlpha c = true) →
      ∀ c ∈ (text.drop s.text.length).head?, Ascii.isWord c = false)

/-! ### Spellings that fit -/

theorem afterFolded?_eq_some_iff {a s rest : Bytes} :
    afterFolded? a s = some rest ↔
      a.length ≤ s.length ∧ Bytes.EqualCase (s.take a.length) a ∧ rest = s.drop a.length := by
  unfold Bytes.EqualCase
  fun_induction afterFolded? a s with
  | case1 s => simp [eq_comm]
  | case2 => simp
  | case3 a as b bs hab ih =>
    have hbyte : Ascii.toLower b = Ascii.toLower a := (beq_iff_eq.mp hab).symm
    rw [ih]
    simp [hbyte]
  | case4 a as b bs hab =>
    have hbyte : Ascii.toLower b ≠ Ascii.toLower a := fun h => hab (beq_iff_eq.mpr h.symm)
    simp [hbyte]

theorem keywordRest?_eq_some_iff {s : Spelling} {text rest : Bytes} :
    s.keywordRest? text = some rest ↔
      s.Opens Bytes.EqualCase text ∧ rest = text.drop s.text.length := by
  unfold keywordRest? Opens
  rw [show (∀ c ∈ s.text, Ascii.isAlpha c = true) ↔ s.isWord = true from List.all_eq_true.symm]
  cases hafter : afterFolded? s.text text with
  | none =>
    refine iff_of_false (by simp) ?_
    rintro ⟨⟨hlength, hequal, -⟩, -⟩
    rw [afterFolded?_eq_some_iff.mpr ⟨hlength, hequal, rfl⟩] at hafter
    cases hafter
  | some after =>
    obtain ⟨hlength, hequal, hdrop⟩ := afterFolded?_eq_some_iff.mp hafter
    rw [← hdrop]
    cases after with
    | nil =>
      refine ⟨fun h => ⟨⟨hlength, hequal, by simp⟩, by cases h; rfl⟩, ?_⟩
      rintro ⟨-, rfl⟩
      rfl
    | cons c after =>
      dsimp only
      split_ifs with hends
      · rw [Bool.and_eq_true] at hends
        refine iff_of_false (by simp) ?_
        rintro ⟨⟨-, -, hword⟩, -⟩
        rw [hword hends.1 c rfl] at hends
        cases hends.2
      · refine ⟨fun h => ⟨⟨hlength, hequal, ?_⟩, by cases h; rfl⟩, ?_⟩
        · rintro hword d hd
          cases hd
          simpa [hword] using hends
        · rintro ⟨-, rfl⟩
          rfl

theorem keywordRest?_eq_none_iff {s : Spelling} {text : Bytes} :
    s.keywordRest? text = none ↔ ¬s.Opens Bytes.EqualCase text := by
  rw [Option.eq_none_iff_forall_ne_some]
  constructor
  · intro h hopens
    exact h _ (keywordRest?_eq_some_iff.mpr ⟨hopens, rfl⟩)
  · intro h rest hrest
    exact h (keywordRest?_eq_some_iff.mp hrest).1

/-- Of spellings from the longest to the shortest the first that fits is found: no other one that
fits is longer. -/
theorem firstFound_longest {text : Bytes} {spellings : List Spelling} {found : Found}
    (hsorted : spellings.Pairwise fun s t => t.text.length ≤ s.text.length)
    (hfound : firstFound keywordRest? text spellings = some found) :
    ∃ s ∈ spellings, s.Opens Bytes.EqualCase text ∧
      found = ⟨s.code, s.text.length, text.drop s.text.length⟩ ∧
      ∀ t ∈ spellings, t.Opens Bytes.EqualCase text → t.text.length ≤ s.text.length := by
  induction spellings with
  | nil => cases hfound
  | cons s spellings ih =>
    obtain ⟨hs, hsorted⟩ := List.pairwise_cons.mp hsorted
    rw [firstFound] at hfound
    cases hrest : keywordRest? s text with
    | some rest =>
      rw [hrest] at hfound
      cases hfound
      obtain ⟨hopens, rfl⟩ := keywordRest?_eq_some_iff.mp hrest
      refine ⟨s, List.mem_cons_self, hopens, rfl, ?_⟩
      intro t ht _
      rcases List.mem_cons.mp ht with rfl | ht
      · exact Nat.le_refl _
      · exact hs t ht
    | none =>
      rw [hrest] at hfound
      obtain ⟨t, ht, hopens, heq, hmax⟩ := ih hsorted hfound
      refine ⟨t, List.mem_cons_of_mem s ht, hopens, heq, ?_⟩
      exact List.forall_mem_cons.mpr ⟨fun h => absurd h (keywordRest?_eq_none_iff.mp hrest), hmax⟩

theorem not_opens_of_firstFound {text : Bytes} {spellings : List Spelling}
    (hnone : firstFound keywordRest? text spellings = none) :
    ∀ s ∈ spellings, ¬s.Opens Bytes.EqualCase text := by
  induction spellings with
  | nil => intro s hs; cases hs
  | cons s spellings ih =>
    rw [firstFound] at hnone
    cases hrest : keywordRest? s text with
    | some rest =>
      rw [hrest] at hnone
      cases hnone
    | none =>
      rw [hrest] at hnone
      exact List.forall_mem_cons.mpr ⟨keywordRest?_eq_none_iff.mp hrest, ih hnone⟩

end Spelling

namespace Vocabulary

/-- The spelling is the first or the second one of a keyword. -/
def Spells (v : Vocabulary) (s : Spelling) : Prop := ∃ k ∈ v.keywords, s ∈ k.spellings

/-- All spellings, those of the larger machine among them. -/
def allSpellings : List Spelling := (commonKeywords ++ extraKeywords).flatMap Keyword.spellings

theorem mem_allSpellings {dialect : Dialect} {s : Spelling} (hs : (ofDialect dialect).Spells s) :
    s ∈ allSpellings := by
  obtain ⟨k, hk, hsk⟩ := hs
  refine List.mem_flatMap.mpr ⟨k, ?_, hsk⟩
  rcases List.mem_append.mp hk with hk | hk
  · exact List.mem_append_left _ hk
  · split_ifs at hk
    · exact List.mem_append_right _ hk
    · cases hk

theorem mem_keywordSpellings {dialect : Dialect} {s : Spelling} :
    s ∈ (ofDialect dialect).keywordSpellings ↔ (ofDialect dialect).Spells s :=
  List.mem_mergeSort.trans List.mem_flatMap

theorem pairwise_keywordSpellings (dialect : Dialect) :
    (ofDialect dialect).keywordSpellings.Pairwise fun s t => t.text.length ≤ s.text.length := by
  refine (List.pairwise_mergeSort Spelling.before_trans Spelling.before_total _).imp ?_
  intro s t h
  simp only [Spelling.before, Bool.or_eq_true, Bool.and_eq_true, decide_eq_true_eq, beq_iff_eq] at h
  omega

theorem ascii_of_mem_allSpellings {s : Spelling} (hs : s ∈ allSpellings) :
    s.text.map Ascii.toLower = s.text ∧ ∀ c ∈ s.text, c < 0x80 := by
  have hall : allSpellings.all
      fun s => s.text.map Ascii.toLower == s.text && s.text.all (· < 0x80) := by
    decide +kernel
  simpa using List.all_eq_true.mp hall s hs

/-- Whether a word is the only spelling of a keyword. -/
def isOnlySpelling (word : Bytes) (code : UInt8) : Bool :=
  allSpellings.all fun s => s.code != code || s.text == word

theorem isOnlySpelling_bin : isOnlySpelling [0x62, 0x69, 0x6E] Code.bin := by decide +kernel

theorem isOnlySpelling_rem : isOnlySpelling [0x72, 0x65, 0x6D] Code.rem := by decide +kernel

theorem found_of_spelled {dialect : Dialect} {text word : Bytes} {code : UInt8}
    {found : Spelling.Found} (hword : isOnlySpelling word code)
    (hfound : (ofDialect dialect).findKeyword? text = some found) (hcode : found.code = code) :
    word.length ≤ text.length ∧ Bytes.EqualCase (text.take word.length) word ∧
      found = ⟨code, word.length, text.drop word.length⟩ := by
  obtain ⟨s, hs, ⟨hlength, hequal, -⟩, rfl, -⟩ :=
    Spelling.firstFound_longest (pairwise_keywordSpellings dialect) hfound
  obtain rfl : s.code = code := hcode
  obtain rfl : s.text = word := by
    simpa using List.all_eq_true.mp hword s (mem_allSpellings (mem_keywordSpellings.mp hs))
  exact ⟨hlength, hequal, rfl⟩

theorem length_lt_of_mem_allSpellings {s : Spelling} (hs : s ∈ allSpellings) : s.text.length < 10 := by
  obtain ⟨k, hk, hsk⟩ := List.mem_flatMap.mp hs
  exact (length_of_mem_keywordsOf (show k ∈ keywordsOf .k128 from hk) s hsk).2

theorem eq_of_equalCase {s t : Spelling} (hs : s ∈ allSpellings) (ht : t ∈ allSpellings)
    (h : Bytes.EqualCase s.text t.text) : s = t := by
  -- A test for each length apart is evaluated far faster than a decidable proposition.
  have hall : (List.range 10).all fun n =>
      let spellings := allSpellings.filter (·.text.length == n)
      spellings.all fun s => spellings.all fun t => !(s.text == t.text) || s == t := by
    decide +kernel
  have htext : s.text = t.text :=
    calc s.text = s.text.map Ascii.toLower := (ascii_of_mem_allSpellings hs).1.symm
      _ = t.text.map Ascii.toLower := h
      _ = t.text := (ascii_of_mem_allSpellings ht).1
  have hlength := List.all_eq_true.mp hall s.text.length
    (List.mem_range.mpr (length_lt_of_mem_allSpellings hs))
  have hs' : s ∈ allSpellings.filter (·.text.length == s.text.length) :=
    List.mem_filter.mpr ⟨hs, beq_self_eq_true _⟩
  have ht' : t ∈ allSpellings.filter (·.text.length == s.text.length) :=
    List.mem_filter.mpr ⟨ht, by rw [htext, beq_self_eq_true]⟩
  simpa [htext] using List.all_eq_true.mp (List.all_eq_true.mp hlength s hs') t ht'

theorem eq_of_opens {dialect : Dialect} {s t : Spelling} {text : Bytes}
    (hs : (ofDialect dialect).Spells s) (ht : (ofDialect dialect).Spells t)
    (hs_opens : s.Opens Bytes.EqualCase text) (ht_opens : t.Opens Bytes.EqualCase text)
    (hlength : t.text.length = s.text.length) : t = s := by
  apply eq_of_equalCase (mem_allSpellings ht) (mem_allSpellings hs)
  have hsame := ht_opens.2.1
  rw [hlength] at hsame
  exact hsame.symm.trans hs_opens.2.1

theorem opens_equal_iff (fold : CaseFolding) {dialect : Dialect} {s : Spelling}
    (hs : (ofDialect dialect).Spells s) (text : Bytes) :
    s.Opens fold.Equal text ↔ s.Opens Bytes.EqualCase text := by
  refine and_congr_right fun hlength => and_congr_left fun _ => ?_
  apply fold.equal_iff
  · rw [List.length_take, Nat.min_eq_left hlength]
  · exact (ascii_of_mem_allSpellings (mem_allSpellings hs)).2

/-- **The keyword at the start of a text is the one with the longest spelling that fits**: that
begins the text up to the case of ASCII letters and, if it is made of letters only, is not followed
by a letter, a digit or an underscore. Nothing is found, neither code nor size, exactly if no
spelling fits. Comparing characters by a case folding makes no difference. -/
theorem findKeyword?_longest (fold : CaseFolding) (dialect : Dialect) (text : Bytes) :
    let v := ofDialect dialect
    (∀ found, v.findKeyword? text = some found ↔
      ∃ s, v.Spells s ∧ s.Opens Bytes.EqualCase text ∧
        (∀ t, v.Spells t → t.Opens Bytes.EqualCase text → t ≠ s → t.text.length < s.text.length) ∧
        found = ⟨s.code, s.text.length, text.drop s.text.length⟩) ∧
    (((v.findKeyword? text).elim (0, 0) fun found => (found.code, found.size)) = (0, 0) ↔
      ∀ s, v.Spells s → ¬s.Opens Bytes.EqualCase text) ∧
    ∀ s, v.Spells s → (s.Opens fold.Equal text ↔ s.Opens Bytes.EqualCase text) := by
  intro v
  have hlongest : ∀ found, v.findKeyword? text = some found →
      ∃ s, v.Spells s ∧ s.Opens Bytes.EqualCase text ∧
        (∀ t, v.Spells t → t.Opens Bytes.EqualCase text → t ≠ s → t.text.length < s.text.length) ∧
        found = ⟨s.code, s.text.length, text.drop s.text.length⟩ := by
    intro found hfound
    obtain ⟨s, hs, hopens, heq, hmax⟩ :=
      Spelling.firstFound_longest (pairwise_keywordSpellings dialect) hfound
    rw [mem_keywordSpellings] at hs
    refine ⟨s, hs, hopens, ?_, heq⟩
    intro t ht ht_opens hne
    apply Nat.lt_of_le_of_ne (hmax t (mem_keywordSpellings.mpr ht) ht_opens)
    exact fun hlength => hne (eq_of_opens hs ht hopens ht_opens hlength)
  have hnone : v.findKeyword? text = none → ∀ s, v.Spells s → ¬s.Opens Bytes.EqualCase text :=
    fun h s hs => Spelling.not_opens_of_firstFound h s (mem_keywordSpellings.mpr hs)
  refine ⟨fun found => ⟨hlongest found, ?_⟩, ?_, fun s hs => opens_equal_iff fold hs text⟩
  · rintro ⟨s, hs, hopens, hmax, rfl⟩
    cases hfound : v.findKeyword? text with
    | none => exact absurd hopens (hnone hfound s hs)
    | some found =>
      obtain ⟨t, ht, ht_opens, hmax_t, rfl⟩ := hlongest found hfound
      by_cases hts : t = s
      · rw [hts]
      · have := hmax t ht ht_opens hts
        have := hmax_t s hs hopens (Ne.symm hts)
        omega
  · cases hfound : v.findKeyword? text with
    | none => exact iff_of_true rfl (hnone hfound)
    | some found =>
      have hsize := findKeyword?_pos hfound
      obtain ⟨s, hs, hopens, -, rfl⟩ := hlongest found hfound
      refine iff_of_false ?_ fun h => h s hs hopens
      intro hzero
      exact Nat.ne_of_gt hsize (congrArg Prod.snd hzero)

end Vocabulary

end SpectrumTape
