import SpectrumTape.Proofs.Basic.Labels
import SpectrumTape.Proofs.Basic.StepTokens

/-!
# How a logical line is read

The tokens of a logical line come from one step after the other, through all lines that are joined to
it (`ReadsLine`). So what the tokens of a line are like is shown by induction over its reading, one
line at a time (`readsLine_logicalLines`).

A program has one line for each logical line with an opening, and its body are the bytes of the tokens
of that line (`compile_written`).
-/

namespace SpectrumTape.Basic

/-! ### Readings -/

/-- The reading of a logical line from `here` on, `joined` being the lines that are joined to it. -/
inductive ReadsLine (v : Vocabulary) : Mode → Bytes → List Bytes → List Token → Prop where
  | ends {mode : Mode} {here : Bytes} (hstep : Lexer.step v mode here = Lexer.endLine) :
      ReadsLine v mode here [] []
  | advance {mode mode' : Mode} {here : Bytes} {more : Nat} {joined : List Bytes}
      {tokens : List Token} (hnext : (Lexer.step v mode here).next = .advance more mode')
      (hrest : ReadsLine v mode' (here.drop (more + 1)) joined tokens) :
      ReadsLine v mode here joined ((Lexer.step v mode here).tokens.map Prod.snd ++ tokens)
  | join {mode mode' : Mode} {here next : Bytes} {joined : List Bytes} {tokens : List Token}
      (hnext : (Lexer.step v mode here).next = .join mode')
      (hrest : ReadsLine v mode' next joined tokens) :
      ReadsLine v mode here (next :: joined)
        ((Lexer.step v mode here).tokens.map Prod.snd ++ tokens)
  | last {mode mode' : Mode} {here : Bytes}
      (hnext : (Lexer.step v mode here).next = .join mode') :
      ReadsLine v mode here [] ((Lexer.step v mode here).tokens.map Prod.snd)

theorem ReadsLine.stems {v : Vocabulary} {mode : Mode} {here : Bytes} {joined : List Bytes}
    {tokens : List Token} (h : ReadsLine v mode here joined tokens) :
    ∀ t ∈ tokens, ∃ mode rest row, row ∈ here :: joined ∧ rest <:+ row ∧ Stems v mode rest t := by
  have hstep (mode : Mode) (here : Bytes) (joined : List Bytes) :
      ∀ t ∈ (Lexer.step v mode here).tokens.map Prod.snd,
        ∃ mode rest row, row ∈ here :: joined ∧ rest <:+ row ∧ Stems v mode rest t := by
    intro t ht
    obtain ⟨⟨offset, t⟩, hmem, rfl⟩ := List.mem_map.mp ht
    exact ⟨mode, here, here, List.mem_cons_self, List.suffix_rfl, Lexer.stems_step hmem⟩
  induction h with
  | ends => exact List.forall_mem_nil _
  | @advance mode mode' here more joined tokens hnext hrest ih =>
    refine List.forall_mem_append.mpr ⟨hstep mode here joined, fun t ht => ?_⟩
    obtain ⟨mode, rest, row, hrow, hsuffix, hstems⟩ := ih t ht
    rcases List.mem_cons.mp hrow with rfl | hrow
    · exact ⟨mode, rest, here, List.mem_cons_self, hsuffix.trans (List.drop_suffix _ _), hstems⟩
    · exact ⟨mode, rest, row, List.mem_cons_of_mem _ hrow, hsuffix, hstems⟩
  | @join mode mode' here next joined tokens hnext hrest ih =>
    refine List.forall_mem_append.mpr ⟨hstep mode here (next :: joined), fun t ht => ?_⟩
    obtain ⟨mode, rest, row, hrow, hsuffix, hstems⟩ := ih t ht
    exact ⟨mode, rest, row, List.mem_cons_of_mem _ hrow, hsuffix, hstems⟩
  | @last mode mode' here hnext => exact hstep mode here []

/-- The tokens of a logical line were read from its lines. -/
def LogicalLine.IsRead (v : Vocabulary) (l : LogicalLine) : Prop :=
  ∃ first joined, l.text = first :: joined ∧ ReadsLine v (.statement true) first joined l.tokens

theorem isRead_lexFrom (v : Vocabulary) (mode : Mode) (line column : Nat) (here : Bytes)
    (later text : List Bytes) {tokens : List Token} {taken : Nat}
    (hline : taken + text.length = line)
    (hway : ∀ joined more, ReadsLine v mode here joined more →
      LogicalLine.IsRead v ⟨text ++ joined, tokens ++ more⟩) :
    ∀ l ∈ logicalFrom (text ++ later) taken tokens (Lexer.lexFrom v mode line column here later),
      l.IsRead v := by
  fun_induction Lexer.lexFrom v mode line column here later generalizing text tokens taken with
  | case1 mode line column here later s hadvance hjoin =>
    rcases Lexer.step_orderly v mode here with ⟨offset, cause, h⟩ | h | ⟨mode', hnext, hend, -⟩
    · rw [show s = _ from h]
      exact List.forall_mem_nil _
    · -- The logical line is complete, and the next one starts with the next line.
      have hsize : line - taken = text.length := by omega
      have hdone : LogicalLine.IsRead v ⟨text, tokens⟩ := by
        simpa using hway [] [] (.ends h)
      have hlogical (rest : List Item) :
          logicalFrom (text ++ later) taken tokens (⟨line, column, .lineEnd⟩ :: rest) =
            ⟨text, tokens⟩ :: logicalFrom later line [] rest := by
        rw [logicalFrom, if_pos rfl]
        simp only [hsize, List.take_left, List.drop_left]
      rw [show s = _ from h]
      refine (hlogical _).symm ▸ List.forall_mem_cons.mpr ⟨hdone, ?_⟩
      cases later with
      | nil => exact List.forall_mem_nil _
      | cons next later =>
        exact hjoin (.statement true) [next] rfl fun joined more hread =>
          ⟨next, joined, rfl, hread⟩
    · have hitems : ∀ i ∈ Lexer.Step.items s line column, i.token ≠ .lineEnd := by
        intro i hi
        obtain ⟨p, hp, rfl⟩ := List.mem_map.mp hi
        exact hend p hp
      rw [logicalFrom_append _ _ _ hitems, Lexer.map_token_items]
      rcases hnext with ⟨more, hnext⟩ | hnext
      · have hhere : here ≠ [] := by
          rintro rfl
          rw [Lexer.step_nil] at hnext
          cases hnext
        rw [show s.next = _ from hnext]
        simp only [hhere, dite_false]
        refine hadvance more mode' hhere _ hline fun joined rest hread => ?_
        rw [List.append_assoc]
        exact hway _ _ (.advance hnext hread)
      · rw [show s.next = _ from hnext]
        cases later with
        | nil =>
          have hsize : line - taken = text.length := by omega
          have hdone := hway _ _ (.last hnext)
          rw [List.append_nil] at hdone ⊢
          simp only [logicalFrom, if_true, hsize, List.take_length]
          exact List.forall_mem_singleton.mpr hdone
        | cons next later =>
          have htaken : taken + (text ++ [next]).length = line + 1 := by
            rw [List.length_append, List.length_singleton]
            omega
          have hrest := hjoin mode' _ htaken fun joined rest hread => by
            rw [List.append_assoc, List.append_assoc, List.singleton_append]
            exact hway _ _ (.join hnext hread)
          rwa [List.append_assoc, List.singleton_append] at hrest

/-- **Every logical line is read step by step.** -/
theorem readsLine_logicalLines (v : Vocabulary) (source : Bytes) :
    ∀ l ∈ logicalLines v source, l.IsRead v := by
  unfold logicalLines lex
  cases source.lines with
  | nil => exact List.forall_mem_nil _
  | cons first later =>
    exact isRead_lexFrom v _ 1 1 first later [first] rfl fun joined more hread =>
      ⟨first, joined, rfl, hread⟩

/-! ### Lines of programs -/

/-- The body of a line are the bytes of the tokens of a logical line, and the byte that ends it. -/
def LogicalLine.Writes (o : Options) (constants symbols : Symbols) (l : LogicalLine) (line : Line) :
    Prop :=
  ∃ bytes, tokensBytes o constants symbols l.tokens = .ok bytes ∧ line.body = bytes ++ [0x0D]

/-- The logical lines of which a program has lines. -/
def openedLines (v : Vocabulary) (source : Bytes) : List LogicalLine :=
  (logicalLines v source).filter (·.opening.isSome)

theorem Framed.written {o : Options} {constants symbols : Symbols} {previous : Option Nat}
    {ls : List LogicalLine} {frames : List Frame}
    (h : Framed o constants symbols previous ls frames) :
    List.Forall₂ (LogicalLine.Writes o constants symbols) (ls.filter (·.opening.isSome))
      (frames.map Frame.line) := by
  induction h with
  | nil => exact .nil
  | silent hopening hrest ih =>
    rw [List.filter_cons_of_neg (by simp [hopening])]
    exact ih
  | frame hopening hnumber htokens hrest ih =>
    rw [List.filter_cons_of_pos (by simp [hopening]), List.map_cons]
    exact .cons ⟨_, htokens, rfl⟩ ih

/-- **The lines of a program are written from the logical lines with an opening.** -/
theorem compile_written {o : Options} {dialect : Dialect} {constants : Symbols} {path source : Bytes}
    {p : Program} (h : (compile o dialect constants path source).result = .ok p) :
    List.Forall₂ (LogicalLine.Writes o constants (compile o dialect constants path source).symbols)
      (openedLines (Vocabulary.ofDialect dialect) source) p := by
  obtain ⟨s, frames, -, -, hsymbols, -, rfl, hframed, -⟩ := compile_frames h
  rw [hsymbols]
  exact hframed.written

theorem forall₂_written {o : Options} {dialect : Dialect} {constants : Symbols} {path source : Bytes}
    {p : Program} (h : (compile o dialect constants path source).result = .ok p)
    {R : LogicalLine → Line → Prop}
    (hR : ∀ l line, l.IsRead (Vocabulary.ofDialect dialect) → (∀ row ∈ l.text, row ∈ source.lines) →
      l.Writes o constants (compile o dialect constants path source).symbols line → R l line) :
    List.Forall₂ R (openedLines (Vocabulary.ofDialect dialect) source) p := by
  obtain ⟨s, frames, -, -, -, htext, -⟩ := compile_frames h
  have hread : ∀ l ∈ openedLines (Vocabulary.ofDialect dialect) source,
      l.IsRead (Vocabulary.ofDialect dialect) ∧ ∀ row ∈ l.text, row ∈ source.lines := by
    intro l hl
    have hmem := (List.mem_filter.mp hl).1
    refine ⟨readsLine_logicalLines _ source l hmem, fun row hrow => ?_⟩
    rw [← htext]
    exact List.mem_flatMap.mpr ⟨l, hmem, hrow⟩
  refine ((List.forall₂_and_left _ _).mpr ⟨hread, compile_written h⟩).imp fun l line hl => ?_
  exact hR l line hl.1.1 hl.1.2 hl.2

end SpectrumTape.Basic
