import SpectrumTape.Basic.Options
import SpectrumTape.Basic.Symbols
import SpectrumTape.Config.Reader
import SpectrumTape.Setting

/-!
# Preferences

A configuration file may say which dialect programs have, how their lines are numbered, whether
string literals keep their quotes, and which constants there are. Nothing else may be in it. Of
several files the first one that says something about a matter counts, and a choice of the user
counts more than all files; constants of all of them are put together.
-/

namespace SpectrumTape.Config

/-- Configurations are not usable: one of them is malformed or says something it may not. -/
inductive Unusable where
  | file
  /-- A constant has a number that no float can have. -/
  | constant
  deriving DecidableEq, Repr, Inhabited

/-- What a configuration file says. -/
structure Preferences where
  dialect : Option Bytes := none
  lineStart : Option Int := none
  lineStep : Option Int := none
  quotedStrings : Option Bool := none
  constants : Option (List (Bytes × Value)) := none
  deriving Repr, Inhabited

def dialectNames : List Bytes :=
  [utf8 "48", utf8 "48k", utf8 "48K", utf8 "128", utf8 "128k", utf8 "128K"]

def intWithin? (least most : Int) : Value → Option Int
  | .int n => if least ≤ n && n ≤ most then some n else none
  | _ => none

/-- The constants of a structure, each a text or a number, in the order of their names. -/
def constantsOf? : Value → Option (List (Bytes × Value))
  | .struct fields =>
    let fits := fields.all fun f =>
      match f.2 with
      | .text _ => true
      | v => v.isNumber
    if fits then some (fields.mergeSort fun a b => Bytes.le a.1 b.1) else none
  | _ => none

/-- Preferences with a further field of a file, if that is a known one with a value it may have. -/
def Preferences.with? (p : Preferences) (name : Bytes) (v : Value) : Option Preferences :=
  if name == utf8 "dialect" then
    match v with
    | .text s => if dialectNames.contains s then some { p with dialect := some s } else none
    | _ => none
  else if name == utf8 "line_start" then
    (intWithin? 0 9999 v).map fun n => { p with lineStart := some n }
  else if name == utf8 "line_step" then
    (intWithin? 1 9999 v).map fun n => { p with lineStep := some n }
  else if name == utf8 "quoted_strings" then
    match v with
    | .bool b => some { p with quotedStrings := some b }
    | _ => none
  else if name == utf8 "constants" then
    (constantsOf? v).map fun cs => { p with constants := some cs }
  else none

/-- What the source of a configuration file says. -/
def Preferences.ofSource? (source : Bytes) : Option Preferences := do
  let fields ← fieldsOf? source
  fields.foldlM (fun p f => p.with? f.1 f.2) {}

/-- What all files say, the first one counting most. -/
def load (sources : List Bytes) : Except Unusable (List Preferences) :=
  match sources.mapM Preferences.ofSource? with
  | some ps => .ok ps
  | none => .error .file

/-- What the user chose on the command line: numbers of zero stand for no choice. -/
structure Choices where
  dialect : Option Dialect := none
  lineStart : Int := 0
  lineStep : Int := 0
  quotedStrings : Bool := false
  /-- Definitions of constants, `NAME=VALUE`. -/
  definitions : List Bytes := []
  deriving DecidableEq, Repr, Inhabited

/-- The dialect of programs. A choice counts whatever the files say. -/
def Choices.dialectWith (c : Choices) (files : Except Unusable (List Preferences)) :
    Except Unusable Dialect :=
  match c.dialect with
  | some d => .ok d
  | none => do
    let ps ← files
    match ps.findSome? Preferences.dialect with
    | none => return .k48
    | some name =>
      match Dialect.parse name with
      | .ok d => return d
      | .error _ => throw .file

def Choices.settingsWith (c : Choices) (ps : List Preferences) : Basic.Settings :=
  let number (chosen : Int) (said : Option Int) (otherwise : Int) : Int :=
    Setting.firstSet [chosen, said.getD 0, otherwise]
  { start := number c.lineStart (ps.findSome? Preferences.lineStart) ({} : Basic.Settings).start
    step := number c.lineStep (ps.findSome? Preferences.lineStep) ({} : Basic.Settings).step
    quoted := c.quotedStrings || (ps.findSome? Preferences.quotedStrings).getD false }

/-- The constant of a definition, if it has a name. -/
def definition? (d : Bytes) : Option Basic.Variable := do
  let (name, value) ← Bytes.cut? 0x3D d
  if name.trimBlank.isEmpty then none else some (.constant name.trimBlank value.trimBlank)

def Preferences.namedConstants (p : Preferences) : Except Unusable Basic.Constants :=
  (p.constants.getD []).mapM fun (name, v) =>
    match v.datum? with
    | some d => .ok (.constant name d.constantText)
    | none => .error .constant

/-- The constants of all programs: those that the user defined, then those of the files. -/
def Choices.constantsWith (c : Choices) (ps : List Preferences) :
    Except Unusable Basic.Constants := do
  let given ← ps.mapM Preferences.namedConstants
  return given.foldl Basic.Constants.merge (c.definitions.filterMap definition?)

end SpectrumTape.Config
