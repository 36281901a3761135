import SpectrumTape.Basic.Emission

/-!
# The compiler

`compile` turns a source into a program in two passes over its tokens. `Compiler` keeps what was
set up between compilations, and the program and symbols of the last one.
-/

namespace SpectrumTape.Basic

/-- What became of a source: what was reported, the names that were found, and the program or why
there is none. -/
structure Compiled where
  diagnostics : List Diagnostic
  symbols : Symbols
  result : Except (Failure Cause) Program

def report (f : Fault Cause) : Diagnostic :=
  ⟨.error, f.location.getD {}, f.cause.message⟩

def fileFault (path : Bytes) (cause : Cause) : Fault Cause :=
  { location := some (.ofPath path), cause }

def Compiled.failed (warnings : List Diagnostic) (symbols : Symbols) (f : Failure Cause) :
    Compiled :=
  { diagnostics := warnings ++ f.faults.map report, symbols, result := .error f }

/-- The second pass: writes the program of tokens whose survey found no fault. -/
def emit (o : Options) (constants : Symbols) (path : Bytes) (items : List Item)
    (warnings : List Diagnostic) (symbols : Symbols) : Compiled :=
  match Emission.run o constants symbols path items with
  | (_, some fault) => .failed warnings symbols { first := fault }
  | (e, none) =>
    if e.program.isEmpty then .failed warnings symbols { first := fileFault path .emptyProgram }
    else if (Program.bytes e.program).isEmpty then
      .failed warnings symbols { first := fileFault path .noBytes }
    else { diagnostics := warnings, symbols, result := .ok e.program }

/-- Both passes over the tokens of a source. -/
def compileItems (o : Options) (constants : Symbols) (path : Bytes) (items : List Item) :
    Compiled :=
  let (survey, fault) := Survey.run o constants path items
  let warnings := survey.warnings.reverse
  match fault with
  | some fault => .failed warnings survey.symbols { first := fault }
  | none =>
    match Failure.ofFaults? (survey.unresolved.map (fileFault path ∘ .unresolvedVariable)) with
    | some failure => .failed warnings survey.symbols failure
    | none => emit o constants path items warnings survey.symbols

/-- Compiles a source. The constants need values before anything is read. -/
def compile (o : Options) (dialect : Dialect) (constants : Symbols) (path source : Bytes) :
    Compiled :=
  match constants.toList.find? (!·.isResolved) with
  | some v =>
    .failed [] {} { first := fileFault path (.unresolvedConstant v.name) }
  | none => compileItems o constants path (lex (Vocabulary.ofDialect dialect) source)

/-! ## Compilers -/

/-- A compiler with its set up and the outcome of its last compilation. -/
structure Compiler where
  options : Options := .standard
  dialect : Dialect := .k48
  constants : Symbols := {}
  /-- The path of the last source. -/
  path : Bytes := []
  symbols : Symbols := {}
  program : Bytes := []
  deriving Inhabited

namespace Compiler

/-- A compiler for a dialect. Settings that are not usable give a warning and the standard
options. -/
def create (dialect : Dialect) (settings : Settings) : Compiler × List Diagnostic :=
  match settings.options with
  | .ok options => ({ dialect, options }, [])
  | .error e => ({ dialect }, [⟨.warning, {}, e.message ++ "; using defaults"⟩])

/-- Takes over settings, unless they are not usable. -/
def setOptions (c : Compiler) (settings : Settings) : Except SettingsError Compiler :=
  settings.options.map fun options => { c with options }

/-- The warning about a constant that is given twice. -/
def repeatedConstant (path name : Bytes) : Diagnostic :=
  ⟨.warning, .ofPath path,
    "Constant `" ++ name ++ "` injected into BASIC source already exists. Ignoring new value."⟩

/-- Adds a constant, or warns if its name is taken. -/
def addConstant (path : Bytes) (acc : Symbols × List Diagnostic) (v : Variable) :
    Symbols × List Diagnostic :=
  if acc.1.contains v.name then (acc.1, acc.2 ++ [repeatedConstant path v.name])
  else (acc.1.set v, acc.2)

/-- Replaces the constants. A name that is given twice keeps its first value. -/
def setConstants (c : Compiler) (constants : Constants) : Compiler × List Diagnostic :=
  let (symbols, warnings) := constants.foldl (addConstant c.path) ({}, [])
  ({ c with constants := symbols }, warnings)

/-- Compiles a source in a dialect, which the compiler keeps. -/
def parse (c : Compiler) (dialect : Dialect) (path source : Bytes) : Compiler × Compiled :=
  let compiled := compile c.options dialect c.constants path source
  let program :=
    match compiled.result with
    | .ok p => Program.bytes p
    | .error _ => []
  ({ c with dialect, path, symbols := compiled.symbols, program }, compiled)

/-- The value of a name: of a constant, or else of a label of the last source. -/
def valueOf? (c : Compiler) (name : Bytes) : Option Bytes :=
  Emission.valueOf? c.constants c.symbols name

end Compiler

end SpectrumTape.Basic
