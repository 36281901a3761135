import SpectrumTape.Tool

/-!
# The command line

Gives the tool the files of the machine and does what it reports. A run of the tool ends at the
first file it does not know; such a file is read from the machine, and the tool runs again with it.
-/

open SpectrumTape

def SpectrumTape.Bytes.toByteArray (b : Bytes) : ByteArray := ⟨b.toArray⟩

def SpectrumTape.Bytes.toPathString (b : Bytes) : String :=
  (String.fromUTF8? b.toByteArray).getD ""

namespace SpectrumTape.Main

/-- The surroundings with the file at a path, or with the directory that is there. -/
def look (h : Tool.Host) (path : Bytes) : IO (Option Tool.Host) := do
  try
    let content ← IO.FS.readBinFile path.toPathString
    return some { h with files := h.files.add h.working path content.data.toList }
  catch
    | .inappropriateType .. =>
      return some { h with files := h.files.addFolders h.working (path ++ "/") }
    | _ => return none

/-- Runs the tool until it has all files it needs. -/
partial def run (h : Tool.Host) (words : List Bytes) (seen : List Bytes) : IO Tool.Ending := do
  match Tool.run h words with
  | .reported r =>
    match r.wanted with
    | some path =>
      if seen.contains path then return .reported r
      match ← look h path with
      | some h => run h words (path :: seen)
      | none => return .reported r
    | none => return .reported r
  | .broken why => return .broken why

def userConfigDirectory : IO (List Bytes) := do
  match ← IO.getEnv "XDG_CONFIG_HOME" with
  | some "" | none =>
    match ← IO.getEnv "HOME" with
    | some "" | none => return []
    | some home => return [utf8 home ++ "/.config"]
  | some d => return if (utf8 d).head? == some Path.separator then [utf8 d] else []

/-- The surroundings before any file but the configurations was looked at. -/
def host (words : List Bytes) : IO Tool.Host := do
  let working := utf8 (← IO.currentDir).toString
  let program := utf8 (← IO.appPath).toString
  let mut h : Tool.Host :=
    { program := Path.withoutExtension (Path.base program)
      files := { wording := .host }
      working := (Path.elements working).foldl (Path.push true) []
      configDirectories := [utf8 "."] ++ (← userConfigDirectory) ++ [utf8 "/etc"] }
  for path in h.configPaths do
    h := (← look h path).getD h
  match (Tool.requestOf words).target? with
  | some path => return { h with files := h.files.addFolders h.working path }
  | none => return h

end SpectrumTape.Main

/-- Runs the tool on the words of the command line. -/
def main (args : List String) : IO UInt32 := do
  let words := args.map utf8
  let h ← Main.host words
  match ← Main.run h words [] with
  | .reported r =>
    let out ← IO.getStdout
    let err ← IO.getStderr
    out.write r.output.toByteArray
    out.flush
    match r.written with
    | some (path, archive) =>
      try
        IO.FS.writeBinFile (Bytes.toPathString ("/" ++ path)) archive.toByteArray
      catch e =>
        err.putStrLn (toString e)
        return 1
    | none => pure ()
    err.write r.errors.toByteArray
    return UInt32.ofNat r.exit
  | .broken _ =>
    (← IO.getStderr).putStrLn "unusable configuration"
    return 2
