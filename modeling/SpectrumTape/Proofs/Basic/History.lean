import SpectrumTape.Basic.Compiler
import SpectrumTape.Proofs.Basic.Survey

/-!
# Compilers with a past

A compiler is used again and again, and keeps its path, its symbols and its program from one use to
the next. None of that reaches a later compilation: of all calls before it only the options that were
accepted last and the constants that were given last matter (`Call.essence`, `parse_calls`).

The constants that were given last stand as they were given, each name with its first value, however
often was compiled since (`constants_calls`, `get?_injected`). A survey that adds its names to the
constants where it finds them there would not change that (`Survey.runSteps_stepAdding`).
-/

namespace SpectrumTape.Basic

/-- A call on a compiler. -/
inductive Call where
  | setOptions (settings : Settings)
  | setDialect (dialect : Dialect)
  | setConstants (constants : Constants)
  | parse (dialect : Dialect) (path source : Bytes)

namespace Call

def accepted? : Call → Option Options
  | .setOptions settings => settings.options.toOption
  | _ => none

def injected? : Call → Option Constants
  | .setConstants constants => some constants
  | _ => none

/-- The options that were accepted last. -/
def lastAccepted : List Call → Option Options
  | [] => none
  | call :: later => (lastAccepted later).or call.accepted?

/-- The constants that were given last. -/
def lastInjected : List Call → Option Constants
  | [] => none
  | call :: later => (lastInjected later).or call.injected?

/-- What matters of some calls: one call for the options that were accepted last, and one for the
constants that were given last. -/
def essence (calls : List Call) : List Call :=
  ((lastAccepted calls).map fun o => .setOptions o.settings).toList ++
    ((lastInjected calls).map .setConstants).toList

end Call

namespace Compiler

def fresh (dialect : Dialect) : Compiler := { dialect }

/-- The compiler behind a call. Settings that are not usable change nothing. -/
def call (c : Compiler) : Call → Compiler
  | .setOptions settings => (c.setOptions settings).toOption.getD c
  | .setDialect dialect => { c with dialect }
  | .setConstants constants => (c.setConstants constants).1
  | .parse dialect path source => (c.parse dialect path source).1

def calls (c : Compiler) (history : List Call) : Compiler := history.foldl call c

theorem calls_cons (c : Compiler) (a : Call) (history : List Call) :
    c.calls (a :: history) = (c.call a).calls history := rfl

/-- The constants that are given in one call, as the compiler keeps them. -/
def injected (constants : Constants) : Symbols := ((fresh .k48).setConstants constants).1.constants

/-! ### What a call leaves behind -/

theorem options_call (c : Compiler) (a : Call) :
    (c.call a).options = a.accepted?.getD c.options := by
  cases a with
  | setOptions settings =>
    show ((c.setOptions settings).toOption.getD c).options = settings.options.toOption.getD c.options
    unfold setOptions
    cases settings.options with
    | ok options => rfl
    | error e => rfl
  | setDialect dialect => rfl
  | setConstants constants => rfl
  | parse dialect path source => rfl

-- The path is only used in the warnings about constants that are given twice.
theorem fst_foldl_addConstant (path path' : Bytes) (constants : Constants)
    (acc acc' : Symbols × List Diagnostic) (h : acc.1 = acc'.1) :
    (constants.foldl (addConstant path) acc).1 = (constants.foldl (addConstant path') acc').1 := by
  induction constants generalizing acc acc' with
  | nil => exact h
  | cons v constants ih =>
    apply ih
    unfold addConstant
    rw [h]
    by_cases hthere : acc'.1.contains v.name = true
    · rw [if_pos hthere, if_pos hthere]
    · rw [if_neg hthere, if_neg hthere]

theorem constants_call (c : Compiler) (a : Call) :
    (c.call a).constants = (a.injected?.map injected).getD c.constants := by
  cases a with
  | setOptions settings =>
    show ((c.setOptions settings).toOption.getD c).constants = c.constants
    unfold setOptions
    cases settings.options with
    | ok options => rfl
    | error e => rfl
  | setDialect dialect => rfl
  | setConstants constants => exact fst_foldl_addConstant c.path [] constants _ _ rfl
  | parse dialect path source => rfl

theorem options_calls (c : Compiler) (history : List Call) :
    (c.calls history).options = (Call.lastAccepted history).getD c.options := by
  induction history generalizing c with
  | nil => rfl
  | cons a history ih =>
    rw [calls_cons, ih, options_call, Call.lastAccepted]
    cases Call.lastAccepted history with
    | none => rfl
    | some options => rfl

theorem constants_calls (c : Compiler) (history : List Call) :
    (c.calls history).constants = ((Call.lastInjected history).map injected).getD c.constants := by
  induction history generalizing c with
  | nil => rfl
  | cons a history ih =>
    rw [calls_cons, ih, constants_call, Call.lastInjected]
    cases Call.lastInjected history with
    | none => rfl
    | some constants => rfl

/-! ### The values of constants -/

theorem get?_addConstant (path : Bytes) (acc : Symbols × List Diagnostic) (v : Variable)
    (name : Bytes) :
    (addConstant path acc v).1.get? name =
      (acc.1.get? name).or (if v.name = name then some v else none) := by
  unfold addConstant
  by_cases hthere : acc.1.contains v.name = true
  · rw [if_pos hthere]
    by_cases hname : v.name = name
    · obtain ⟨w, hw⟩ := Option.isSome_iff_exists.mp hthere
      rw [← hname, hw]
      rfl
    · rw [if_neg hname, Option.or_none]
  · rw [if_neg hthere, Symbols.get?_set]
    by_cases hname : v.name = name
    · have hnone : acc.1.get? v.name = none := by simpa [Symbols.contains] using hthere
      rw [if_pos hname, if_pos hname, ← hname, hnone]
      rfl
    · rw [if_neg hname, if_neg hname, Option.or_none]

theorem get?_foldl_addConstant (path : Bytes) (constants : Constants)
    (acc : Symbols × List Diagnostic) (name : Bytes) :
    (constants.foldl (addConstant path) acc).1.get? name =
      (acc.1.get? name).or (constants.find? (·.name == name)) := by
  induction constants generalizing acc with
  | nil => simp
  | cons v constants ih =>
    rw [List.foldl_cons, ih, get?_addConstant, Option.or_assoc, List.find?_cons]
    by_cases hname : v.name = name
    · rw [if_pos hname, beq_iff_eq.mpr hname]
      rfl
    · rw [if_neg hname, beq_eq_false_iff_ne.mpr hname]
      rfl

theorem get?_injected (constants : Constants) (name : Bytes) :
    (injected constants).get? name = constants.find? (·.name == name) :=
  (get?_foldl_addConstant [] constants ({}, []) name).trans Option.none_or

theorem get?_constants_calls (dialect : Dialect) (history : List Call) (name : Bytes) :
    ((fresh dialect).calls history).constants.get? name =
      ((Call.lastInjected history).getD []).find? (·.name == name) := by
  rw [constants_calls]
  cases Call.lastInjected history with
  | none => rfl
  | some constants => exact get?_injected constants name

end Compiler

/-! ### Variables that are added

The names of a source could be added to the constants and the symbols alike, wherever they are found
first. As all constants have values by then, that never reaches a constant.
-/

namespace Survey

/-- Adds a variable to two tables. The name is looked up in the constants first. If it is there, or
among the symbols, it gets the value unless it has one, and a second value is at fault. -/
def addVariable (constants symbols : Symbols) (v : Variable) : Except Cause (Symbols × Symbols) :=
  match constants.get? v.name, symbols.get? v.name with
  | none, none => .ok (constants, symbols.set v)
  | some current, _ =>
    if !v.isResolved then .ok (constants, symbols)
    else if current.isResolved then .error (.duplicateLabel v.name)
    else .ok (constants.set v, symbols)
  | none, some current =>
    if !v.isResolved then .ok (constants, symbols)
    else if current.isResolved then .error (.duplicateLabel v.name)
    else .ok (constants, symbols.set v)

/-- The constants and the survey behind a token, with the names of both added where they are found. -/
def stepAdding (o : Options) (path : Bytes) (t : Symbols × Survey) (i : Item) :
    Except (Fault Cause) (Symbols × Survey) :=
  let add (v : Variable) : Except (Fault Cause) (Symbols × Survey) :=
    Except.mapError (fun cause => { location := some (place path i), cause }) do
      let numbering ← t.2.numbering.step o i.token
      let (constants, symbols) ← addVariable t.1 t.2.symbols v
      return (constants, { t.2 with numbering, symbols })
  match i.token with
  | .label name => add (.constant name (Bytes.decimal (t.2.numbering.next o)))
  | .reference name => add ⟨name, none⟩
  | _ => (step o t.1 path t.2 i).map fun s => (t.1, s)

section adding

variable {o : Options} {path : Bytes} {constants symbols : Symbols}

theorem addVariable_label (hconstants : ∀ v ∈ constants.toList, v.isResolved) (name : Bytes)
    (number : Nat) :
    addVariable constants symbols (.constant name (Bytes.decimal number)) =
      (bindLabel constants symbols name number).map fun s => (constants, s) := by
  unfold addVariable bindLabel Symbols.contains Symbols.value?
  simp only [Variable.constant, Variable.isResolved, Option.isSome_some, Bool.not_true]
  cases hconstant : constants.get? name with
  | some current =>
    have hresolved : current.value.isSome := hconstants current (List.mem_of_find?_eq_some hconstant)
    simp [hresolved, Except.map]
  | none =>
    cases symbols.get? name with
    | none => rfl
    | some current => cases hvalue : current.value <;> simp [hvalue, Except.map]

theorem addVariable_reference (constants symbols : Symbols) (name : Bytes) :
    addVariable constants symbols ⟨name, none⟩ =
      .ok (constants, noteReference constants symbols name) := by
  unfold addVariable noteReference Symbols.contains
  cases constants.get? name with
  | some current => rfl
  | none =>
    cases symbols.get? name with
    | none => rfl
    | some current => rfl

theorem stepAdding_eq (hconstants : ∀ v ∈ constants.toList, v.isResolved) (s : Survey) (i : Item) :
    stepAdding o path (constants, s) i =
      (step o constants path s i).map fun s => (constants, s) := by
  unfold stepAdding
  cases hi : i.token with
  | label name =>
    simp only [step, hi, addVariable_label hconstants]
    cases s.numbering.step o (.label name) with
    | error cause => rfl
    | ok numbering =>
      cases bindLabel constants s.symbols name (s.numbering.next o) with
      | error cause => rfl
      | ok symbols => rfl
  | reference name =>
    simp only [step, hi, addVariable_reference]
    cases s.numbering.step o (.reference name) with
    | error cause => rfl
    | ok numbering => rfl
  | _ => rfl

/-- A survey that adds names to the constants too leaves all of them as they are. -/
theorem runSteps_stepAdding (hconstants : ∀ v ∈ constants.toList, v.isResolved) (s : Survey)
    (items : List Item) :
    runSteps (stepAdding o path) (constants, s) items =
      ((constants, (runSteps (step o constants path) s items).1),
        (runSteps (step o constants path) s items).2) := by
  induction items generalizing s with
  | nil => rfl
  | cons i items ih =>
    rw [runSteps, runSteps, stepAdding_eq hconstants]
    cases step o constants path s i with
    | error f => rfl
    | ok s' => exact ih s'

end adding

end Survey

/-! ### Compilations -/

theorem Options.options_settings (o : Options) : o.settings.options = .ok o := by
  have hstart : minLineNumber ≤ (o.start : Int).toNat ∧ (o.start : Int).toNat ≤ maxLineNumber :=
    ⟨o.start_pos, o.start_le⟩
  have hstep : 1 ≤ (o.step : Int).toNat ∧ (o.step : Int).toNat ≤ maxLineNumber :=
    ⟨o.step_pos, o.step_le⟩
  rw [settings, Settings.options, dif_pos hstart, dif_pos hstep]
  rfl

namespace Call

theorem lastAccepted_essence (history : List Call) :
    lastAccepted (essence history) = lastAccepted history := by
  unfold essence
  cases hinjected : lastInjected history with
  | none =>
    cases hlast : lastAccepted history with
    | none => rfl
    | some o => simp [lastAccepted, accepted?, o.options_settings, Except.toOption]
  | some constants =>
    cases hlast : lastAccepted history with
    | none => rfl
    | some o => simp [lastAccepted, accepted?, o.options_settings, Except.toOption]

theorem lastInjected_essence (history : List Call) :
    lastInjected (essence history) = lastInjected history := by
  unfold essence
  cases lastAccepted history with
  | none => cases lastInjected history <;> rfl
  | some o => cases lastInjected history <;> rfl

end Call

/-- **What a compiler did before is of no account.** Whatever was called on a compiler, it compiles a
source as one does that was only given the options that were accepted last and the constants that were
given last: the failure, the diagnostics, the program and the symbols are the same. No compilation
changes a constant: before and after it, each name has the first value that it was given last. -/
theorem parse_calls (made remade : Dialect) (history : List Call) (dialect : Dialect)
    (path source : Bytes) :
    let used := (Compiler.fresh made).calls history
    let unused := (Compiler.fresh remade).calls (Call.essence history)
    let given := (Call.lastInjected history).getD []
    used.parse dialect path source = unused.parse dialect path source ∧
      ∀ name, used.constants.get? name = given.find? (·.name == name) ∧
        (used.parse dialect path source).1.constants.get? name = given.find? (·.name == name) := by
  intro used unused given
  have hoptions : used.options = unused.options := by
    rw [Compiler.options_calls, Compiler.options_calls, Call.lastAccepted_essence]
    rfl
  have hconstants : used.constants = unused.constants := by
    rw [Compiler.constants_calls, Compiler.constants_calls, Call.lastInjected_essence]
    rfl
  constructor
  · unfold Compiler.parse
    rw [hoptions, hconstants]
  · intro name
    have hget := Compiler.get?_constants_calls made history name
    exact ⟨hget, hget⟩

end SpectrumTape.Basic
