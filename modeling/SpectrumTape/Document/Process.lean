import SpectrumTape.Document.Text
import SpectrumTape.Document.Script

/-!
# Documents

A document is a text document or, if its name ends in `.star`, a script.
-/

namespace SpectrumTape.Document

/-- Builds the archive of the document at a path. A document that cannot be read is no document, so
nothing is reported. -/
def processFile (env : Environment) (c : Journal.Context) (path : Bytes) : Work Bytes :=
  match env.files.read path with
  | .error problem =>
    throw (.one none (.unreadable path problem (problem.message env.files.wording path)))
  | .ok source =>
    if Path.extension path == utf8 ".star" then processScript env c path source
    else processText env c path source

end SpectrumTape.Document
