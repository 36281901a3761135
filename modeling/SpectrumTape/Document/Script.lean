import SpectrumTape.Script.Grammar
import SpectrumTape.Script.Run

/-!
# Script documents

A script adds files by calling functions. When it has come to its end the archive is built.
-/

namespace SpectrumTape.Document

/-- A message behind its place in the script at a path. -/
def atScript (path : Bytes) (pos : Script.Position) (message : Bytes) : Bytes :=
  path ++ ":" ++ Bytes.decimal pos.line ++ ":" ++ Bytes.decimal pos.column ++ ": " ++ message

/-- The place of a position in the script at a path. -/
def scriptLocation (path : Bytes) (pos : Script.Position) : Location :=
  ⟨path, pos.line, pos.column⟩

def runScript (setting : Script.Setting) (script : List Script.Stmt) : Work Unit := do
  let document ← get
  let (result, machine) := (Script.runAll setting script).run.run { document }
  set machine.document
  match result with
  | .ok () => pure ()
  | .error (.raised pos message) =>
    fail (scriptLocation setting.path pos) (.script message)
  | .error (.failed failure) => throw failure

/-- Builds the archive of a script. Faults of its form are at their place; faults of its names
belong to the script as a whole. -/
def processScript (env : Environment) (c : Journal.Context) (path source : Bytes) : Work Bytes :=
  inDocument c path fun c => do
    match Script.Grammar.parse source with
    | .error f => fail (scriptLocation path f.pos) (.script (atScript path f.pos f.message))
    | .ok script =>
      match Script.Scope.ofScript Script.Value.givenNames script with
      | .error f => fail (.ofPath path) (.script (atScript path f.pos f.message))
      | .ok scope =>
        runScript { environment := env, context := c, path, scope } script
        build c

end SpectrumTape.Document
