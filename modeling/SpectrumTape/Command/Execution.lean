import SpectrumTape.Command.Store

/-!
# Execution of commands

Words are read from the left. A word calls a command, which takes as many of the words behind it as
it has arguments. The commands that it makes known are known from then on, until all words are
read; none of them may have the name of a command that is already known. They are bound in a copy of the
table at hand, so the table of an executor stays as it is.
-/

namespace SpectrumTape.Command

/-- Why words are not executed to their end. -/
inductive Cause where
  | unknown (word : Bytes)
  | argument (error : ArgError)
  | failed (message : Bytes)
  | clash (word name : Bytes)
  deriving DecidableEq, Repr, Inhabited

def Cause.message : Cause → Bytes
  | .unknown word => "unknown command: " ++ word
  | .argument error => error.message
  | .failed message => message
  | .clash word name => "duplicated sub command: " ++ word ++ " " ++ name

/-- How the execution of words ended. -/
inductive Outcome where
  | done
  | stopped (cause : Cause)
  /-- An action ended the program. -/
  | exited
  deriving DecidableEq, Repr, Inhabited

abbrev Call (α : Type) := α × List ArgValue

/-- What was done, in its order, and how it ended. -/
structure Execution (α : Type) where
  calls : List (Call α)
  outcome : Outcome
  deriving DecidableEq, Repr, Inhabited

/-- What commands leave open: how the doing of something ends, which may depend on all that was done
before, and the order in which the names of a table are gone through. -/
structure Course (α : Type) where
  ends : List (Call α) → Action α → List ArgValue → Ending
  order : Table α → List (Bytes × Cmd α)
  mem_order {t : Table α} {name : Bytes} {c : Cmd α} :
    (name, c) ∈ order t ↔ t.find? name = some c
  nodup_order (t : Table α) : ((order t).map Prod.fst).Nodup

variable {α : Type}

/-- Actions end as they say, and names are in their order. -/
def Course.standard : Course α where
  ends _ action _ := action.ending
  order t := t.entries.sorted
  mem_order := (List.mergeSort_perm _ _).mem_iff.trans Table.mem_entries
  nodup_order t := ((List.mergeSort_perm _ _).map Prod.fst).nodup_iff.mpr (Table.nodup_entries t)

def Execution.after (calls : List (Call α)) (e : Execution α) : Execution α :=
  { e with calls := calls ++ e.calls }

/-- What becomes of an execution whose action ends in some way. -/
def Ending.outcome : Ending → Outcome
  | .returns => .done
  | .fails message => .stopped (.failed message)
  | .exits => .exited

/-- What a command does with the words behind it, and how it ends. -/
def perform (course : Course α) (before : List (Call α)) (c : Cmd α) (words : List Bytes) :
    List (Call α) × Outcome :=
  match c.action with
  | none => ([], .done)
  | some action =>
    match readArguments action.types words with
    | .error e => ([], .stopped (.argument e))
    | .ok values => ([(action.label, values)], (course.ends before action values).outcome)

/-- Executes words, the commands of the table at an address being known. -/
def executeFrom (course : Course α) (before : List (Call α)) (store : Store α) (known : Nat) :
    List Bytes → Execution α × Store α
  | [] => (⟨[], .done⟩, store)
  | word :: words =>
    match (store.read known).find? word.trimBlank with
    | none => (⟨[], .stopped (.unknown word.trimBlank)⟩, store)
    | some c =>
      match perform course before c words with
      | (calls, .done) =>
        if c.subs.isEmpty then
          let (e, store) :=
            executeFrom course (before ++ calls) store known (words.drop c.types.length)
          (e.after calls, store)
        else
          let (fresh, store) := store.copy known
          match store.extend fresh (course.order c.subs) with
          | (store, some sub) => (⟨calls, .stopped (.clash word.trimBlank sub)⟩, store)
          | (store, none) =>
            let (e, store) :=
              executeFrom course (before ++ calls) store fresh (words.drop c.types.length)
            (e.after calls, store)
      | (calls, outcome) => (⟨calls, outcome⟩, store)
termination_by words => words.length
decreasing_by all_goals simp only [List.length_drop, List.length_cons]; omega

theorem size_le_executeFrom (course : Course α) (before : List (Call α)) (store : Store α)
    (known : Nat) (words : List Bytes) :
    store.size ≤ (executeFrom course before store known words).2.size := by
  fun_induction executeFrom course before store known words with
  | case1 | case2 | case6 => exact Nat.le_refl _
  | case3 before store known word words c hfind calls hperform hsubs e after hrest ih =>
    rw [hrest] at ih
    exact ih
  | case4 before store known word words c hfind calls hperform hsubs fresh copied hcopy extended
      sub hextend =>
    have hsize := store.size_extend_copy known (course.order c.subs)
    rw [hcopy, hextend] at hsize
    exact Nat.le_of_lt (Nat.lt_of_lt_of_eq (Nat.lt_succ_self _) hsize.symm)
  | case5 before store known word words c hfind calls hperform hsubs fresh copied hcopy
      extended hextend e after hrest ih =>
    have hsize := store.size_extend_copy known (course.order c.subs)
    rw [hcopy, hextend] at hsize
    rw [hrest] at ih
    exact Nat.le_trans (Nat.le_of_lt (Nat.lt_of_lt_of_eq (Nat.lt_succ_self _) hsize.symm)) ih

/-! ## Executors -/

/-- An executor has a table of its own, which is one of those that are stored. -/
structure Executor (α : Type) where
  store : Store α
  own : Nat
  own_lt : own < store.size

namespace Executor

def ofTable (t : Table α) : Executor α :=
  { store := { tables := [t] }, own := 0, own_lt := Nat.zero_lt_one }

def table (e : Executor α) : Table α := e.store.read e.own

/-- Executes words with the commands of an executor. -/
def execute (course : Course α) (before : List (Call α)) (e : Executor α) (words : List Bytes) :
    Execution α × Executor α :=
  let r := executeFrom course before e.store e.own words
  (r.1,
    { store := r.2, own := e.own
      own_lt := Nat.lt_of_lt_of_le e.own_lt (size_le_executeFrom course before e.store e.own words) })

end Executor

def Table.execute (t : Table α) (words : List Bytes) : Execution α :=
  ((Executor.ofTable t).execute .standard [] words).1

end SpectrumTape.Command
