import SpectrumTape.Basic.Listing
import SpectrumTape.Command.Flag
import SpectrumTape.Config.Preferences
import SpectrumTape.Document.Process
import SpectrumTape.Tape.Reader

/-!
# The tool

The words of a command line set flags and name a task: to build an archive from a document, to
compile one program into an archive, or to list an archive. What the tool does is a function of
these words and of the files it finds.
-/

namespace SpectrumTape.Tool

open Command (ArgType ArgValue Change Cmd FlagKind FlagValue Table)

/-- The flags of the tool. -/
inductive Flag where
  | output
  | listing
  | lineStart
  | lineStep
  | quotedStrings
  | constants
  deriving DecidableEq, Repr, Inhabited

namespace Flag

def all : List Flag := [.output, .listing, .lineStart, .lineStep, .quotedStrings, .constants]

def name : Flag → Bytes
  | .output => "-o"
  | .listing => "-listing"
  | .lineStart => "-line-start"
  | .lineStep => "-line-step"
  | .quotedStrings => "-quoted-strings"
  | .constants => "-const"

def description : Flag → Bytes
  | .output => "output file"
  | .listing => "print BASIC program listings"
  | .lineStart => "first automatic BASIC line number"
  | .lineStep => "automatic BASIC line number increment"
  | .quotedStrings => "keep quotes of BASIC string literals"
  | .constants => "inject a BASIC constant, NAME=VALUE"

def kind : Flag → FlagKind
  | .output => .variable .string
  | .listing | .quotedStrings => .switch
  | .lineStart | .lineStep => .variable (.int none)
  | .constants => .collect .string

end Flag

/-- What the tool can do with a file. -/
inductive Task where
  | build
  | compile
  | list
  deriving DecidableEq, Repr, Inhabited

/-- What the commands of the tool do. -/
inductive Label where
  | change (flag : Flag) (change : Change)
  | dialect
  | task (t : Task)
  | level
  | help
  deriving DecidableEq, Repr, Inhabited

def command (label : Label) (types : List ArgType) (argNames : List String)
    (description : String) : Cmd Label :=
  Command.changing label types argNames (utf8 description)

/-- The commands that set how important a record of the journal has to be. -/
def levelCommands : Table Label :=
  ["debug", "info", "warn", "error"].map fun l =>
    (utf8 ("-log-" ++ l), command .level [] [] ("set log level to " ++ l))

def taskCommands : Table Label :=
  [(utf8 "build", command (.task .build) [.string] ["DOC"]
      "build a tape archive from a document or a .star script"),
    (utf8 "basic", command (.task .compile) [.string] ["FILE"]
      "compile one BASIC program into a tape archive"),
    (utf8 "list", command (.task .list) [.string] ["FILE"] "list the files of a tape archive")]

def table : Table Label :=
  let dialect := command .dialect [.dialect] ["DIALECT"] "BASIC dialect, 48k or 128k"
  let flags := Flag.all.flatMap fun f => f.kind.commands (.change f) f.name f.description
  (Table.defineAll []
    ((Command.helpName, Command.help .help) :: (utf8 "-dialect", dialect) ::
      (levelCommands ++ flags ++ taskCommands))).1

/-! ## What the words ask for -/

/-- What the words of a command line ask for. -/
structure Request where
  values : Flag → FlagValue := fun f => f.kind.start
  dialect : Option Dialect := none
  task : Option (Task × Bytes) := none

namespace Request

def apply (r : Request) (call : Label × List ArgValue) : Request :=
  match call.1, call.2 with
  | .change flag change, arguments =>
    { r with
      values := fun f => if f = flag then (r.values f).change change arguments else r.values f }
  | .dialect, .dialect d :: _ => { r with dialect := some d }
  | .task t, .string path :: _ => { r with task := some (t, path) }
  | _, _ => r

def text (r : Request) (f : Flag) : Bytes :=
  match r.values f with
  | .one (.string s) => s
  | _ => []

def number (r : Request) (f : Flag) : Int :=
  match r.values f with
  | .one (.int n) => n
  | _ => 0

def isOn (r : Request) (f : Flag) : Bool :=
  match r.values f with
  | .one (.bool b) => b
  | _ => false

def texts (r : Request) (f : Flag) : List Bytes :=
  match r.values f with
  | .many vs => vs.filterMap fun
    | .string s => some s
    | _ => none
  | _ => []

/-- What the user chose instead of what configuration files say. -/
def choices (r : Request) : Config.Choices where
  dialect := r.dialect
  lineStart := r.number .lineStart
  lineStep := r.number .lineStep
  quotedStrings := r.isOn .quotedStrings
  definitions := r.texts .constants

/-- The path of the archive that is made from a file. -/
def outputPath (r : Request) (input : Bytes) : Bytes :=
  let chosen := r.text .output
  if chosen.isEmpty then Path.withoutExtension input ++ ".tap" else chosen

def target? (r : Request) : Option Bytes :=
  r.task.bind fun (task, path) => if task = .list then none else some (r.outputPath path)

end Request

/-- What words ask for, as far as they are commands. -/
def requestOf (words : List Bytes) : Request :=
  (table.execute words).calls.foldl Request.apply {}

/-! ## What the tool finds and leaves -/

/-- What surrounds the tool: its name, the files there are, the directory it works in, and the
directories in which configurations are looked for, the first one counting most. -/
structure Host where
  program : Bytes
  files : Files
  /-- The elements of the path of the directory, the last one first. -/
  working : List Bytes
  configDirectories : List Bytes

namespace Host

/-- The paths at which configurations are looked for, each directory having a plain and a hidden
one. -/
def configPaths (h : Host) : List Bytes :=
  h.configDirectories.flatMap fun d =>
    [d ++ "/" ++ h.program ++ ".cue", d ++ "/." ++ h.program ++ ".cue"]

/-- What the configurations say. One that is there and cannot be read is not usable. -/
def preferences (h : Host) : Except Config.Unusable (List Config.Preferences) := do
  let sources ← h.configPaths.filterMapM fun path =>
    match h.files.find h.working path with
    | .ok (.file _ content) => .ok (some content)
    | .ok (.directory _) => .error .file
    | .error _ => .ok none
  Config.load sources

end Host

/-- What the tool leaves: the code it ends with, what it printed, what it said about its work, the
file it wrote, and the path of a file that it needed and did not find. -/
structure Report where
  exit : Nat := 0
  output : Bytes := []
  errors : Bytes := []
  written : Option (Bytes × Bytes) := none
  wanted : Option Bytes := none
  deriving DecidableEq, Repr, Inhabited

/-- The end of the tool. -/
inductive Ending where
  | reported (r : Report)
  /-- The configurations are not usable, and the tool breaks off. -/
  | broken (why : Config.Unusable)
  deriving DecidableEq, Repr, Inhabited

/-- The report of a task that failed after printing something. -/
def failed (output message : Bytes) : Report :=
  { exit := 1, output, errors := message ++ "\n" }

def write (h : Host) (path archive output : Bytes) : Report :=
  match h.files.place h.working path with
  | .ok target => { output, written := some (target, archive) }
  | .error p => failed output (p.writeMessage h.files.wording path)

/-- The surroundings of documents in a directory, if the configurations are usable. -/
def environment (h : Host) (r : Request) (directory : Bytes) :
    Except Config.Unusable Document.Environment := do
  let ps ← h.preferences
  return {
    files := h.files.below h.working directory
    dialect := ← r.choices.dialectWith (.ok ps)
    settings := r.choices.settingsWith ps
    constants := ← r.choices.constantsWith ps }

/-- The report of a failure of work on documents in a directory. -/
def failedWork (directory output : Bytes) (f : Failure Document.Cause) : Report :=
  let wanted := (f.faults.findSome? fun fault => fault.cause.wanted?).map fun path =>
    directory ++ "/" ++ path
  { failed output (f.message Document.Cause.message) with wanted }

def build (h : Host) (r : Request) (env : Document.Environment) (path : Bytes) : Report :=
  match ((Document.processFile env {} (Path.base path)).run.run {}).1 with
  | .ok archive => write h (r.outputPath path) archive []
  | .error f => failedWork (Path.directory path) [] f

def compile (h : Host) (r : Request) (env : Document.Environment) (path : Bytes) : Report :=
  let context : Journal.Context := ⟨path⟩
  let file : Document.BasicFile := { path := Path.base path }
  match (Document.addBasic env context (.ofPath path) file).run.run {} with
  | (.error f, _) => failedWork (Path.directory path) [] f
  | (.ok entry, state) =>
    let listed : Basic.Listing.Listed :=
      if r.isOn .listing then Basic.Listing.list (.ofDialect env.dialect) entry.payload
      else { text := [] }
    match listed.problem with
    | some p => failed [] p.message
    | none =>
      match ((Document.build context).run.run state).1 with
      | .ok archive => write h (r.outputPath path) archive listed.text
      | .error f => failedWork (Path.directory path) listed.text f

/-! ## Lists of archives -/

/-- A text filled up with blanks to a number of characters. -/
def padTo (width : Nat) (s : Bytes) : Bytes :=
  s ++ List.replicate (width - s.runes.length) 0x20

def parametersText : Option Tape.Params → Bytes
  | none => []
  | some (.program autostart variableArea) =>
    let area := "variables=" ++ Bytes.decimalInt variableArea
    if autostart == Tape.noAutostart then area
    else "autostart=" ++ Bytes.decimalInt autostart ++ " " ++ area
  | some (.code address _) => "address=" ++ Bytes.decimalInt address
  | some (.generic a b) => "param1=" ++ Bytes.decimal a.toNat ++ " param2=" ++ Bytes.decimal b.toNat

/-- The line of a file: its type, its name, its size and its parameters. -/
def entryLine (e : Tape.Entry) : Bytes :=
  padTo 15 e.type.name ++ " " ++ padTo 12 e.name.quoted ++ " " ++
    Bytes.padLeft 6 0x20 (Bytes.decimal e.payload.length) ++ "  " ++ parametersText e.params ++ "\n"

/-- The lines of files, with the listings of programs if they are asked for, up to one that cannot
be listed. -/
def entryLines (listing : Bool) (v : Vocabulary) (printed : Bytes) : List Tape.Entry → Report
  | [] => { output := printed }
  | e :: rest =>
    let printed := printed ++ entryLine e
    if listing && e.type == .program then
      let l := Basic.Listing.list v e.payload
      match l.problem with
      | some p => failed printed p.message
      | none => entryLines listing v (printed ++ l.text) rest
    else entryLines listing v printed rest

/-- Lists the files of an archive. The configurations are looked at only when the archive was
read. -/
def list (h : Host) (r : Request) (path : Bytes) : Ending :=
  match h.files.readAlong h.working path with
  | .error p =>
    .reported { failed [] (p.message h.files.wording path) with wanted := some path }
  | .ok data =>
    match Tape.read data with
    | .error p => .reported (failed [] p.message)
    | .ok entries =>
      match r.choices.dialectWith h.preferences with
      | .error why => .broken why
      | .ok d => .reported (entryLines (r.isOn .listing) (.ofDialect d) [] entries)

/-! ## The whole -/

def perform (h : Host) (r : Request) (task : Task) (path : Bytes) : Ending :=
  let withEnvironment (f : Document.Environment → Report) : Ending :=
    match environment h r (Path.directory path) with
    | .ok env => .reported (f env)
    | .error why => .broken why
  match task with
  | .build => withEnvironment fun env => build h r env path
  | .compile => withEnvironment fun env => compile h r env path
  | .list => list h r path

/-- What the tool does for the words of a command line. Without a task it tells how it is used. -/
def run (h : Host) (words : List Bytes) : Ending :=
  match (table.execute words).outcome with
  | .exited => .reported { errors := table.usage }
  | .stopped cause => .reported { exit := 2, errors := cause.message ++ "\n" }
  | .done =>
    let r := requestOf words
    match r.task with
    | none => .reported { exit := 2, errors := table.usage }
    | some (task, path) => perform h r task path

end SpectrumTape.Tool
