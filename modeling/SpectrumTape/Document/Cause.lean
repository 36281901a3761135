import SpectrumTape.Files
import SpectrumTape.Basic.Cause
import SpectrumTape.Tape.Builder

/-!
# Why a document gives no archive
-/

namespace SpectrumTape.Document

/-- A cause of failure of a document. -/
inductive Cause where
  | unexpectedCharacter
  | unknownCommand (name : Bytes)
  | stringExpected
  | stringEndExpected
  | hexadecimalExpected
  | decimalExpected
  | addressOutOfRange (text : Bytes)
  | cannotOpenBasic (path : Bytes)
  | cannotOpenCode (path : Bytes)
  | invalidAutostart (value : Bytes)
  | noFiles
  | basic (cause : Basic.Cause)
  | tape (cause : Tape.Cause)
  /-- A script failed; the text is its own. -/
  | script (message : Bytes)
  /-- The document itself cannot be read; the text is that of the file system. -/
  | unreadable (path : Bytes) (problem : ReadProblem) (message : Bytes)
  /-- The document that the other faults belong to. -/
  | inDocument (path : Bytes)
  deriving DecidableEq, Repr, Inhabited

def Cause.message : Cause → Bytes
  | .unexpectedCharacter => "Unexpected character in document."
  | .unknownCommand name => "Unknown command `" ++ name ++ "`"
  | .stringExpected => "A double quoted string is expected."
  | .stringEndExpected => "End of double quoted string is expected."
  | .hexadecimalExpected => "Hexadecimal number is expected."
  | .decimalExpected => "Decimal number is expected."
  | .addressOutOfRange text => "Address `" ++ text ++ "` is out of range."
  | .cannotOpenBasic path => "Unable to open BASIC program file: " ++ path
  | .cannotOpenCode path => "Unable to open CODE bytes file: " ++ path
  | .invalidAutostart value => "Invalid autostart line `" ++ value ++ "`."
  | .noFiles => "document contains no files"
  | .basic cause => cause.message
  | .tape cause => cause.message
  | .script message => message
  | .unreadable _ _ message => message
  | .inDocument path => "document: " ++ path

/-- The text of a cause in a diagnostic, which is a sentence. -/
def Cause.report : Cause → Bytes
  | .noFiles => "Document contains no files."
  | cause => cause.message

/-- The path of the file that could not be read, if this is the cause. -/
def Cause.wanted? : Cause → Option Bytes
  | .cannotOpenBasic path | .cannotOpenCode path | .unreadable path _ _ => some path
  | _ => none

end SpectrumTape.Document
