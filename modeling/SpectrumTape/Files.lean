import SpectrumTape.Text.Rune

/-!
# Paths and files

Paths are byte strings with slashes between their elements. Files are looked up by path, either as
it stands or by going through it element by element. Every path that a file is below is a
directory, and a directory cannot be read.
-/

namespace SpectrumTape

namespace Path

def separator : UInt8 := 0x2F

/-- The elements of a path, the element under way being `done` in reverse. -/
def elementsFrom : Bytes → Bytes → List Bytes
  | done, [] => [done.reverse]
  | done, c :: rest =>
    if c == separator then done.reverse :: elementsFrom [] rest else elementsFrom (c :: done) rest

def elements (path : Bytes) : List Bytes := elementsFrom [] path

/-- Takes an element to the elements before it, the last one first: nothing and a dot stay where
they are, and two dots go one element up, at the root nowhere. -/
def push (rooted : Bool) (done : List Bytes) (element : Bytes) : List Bytes :=
  if element.isEmpty || element == utf8 "." then done
  else if element == utf8 ".." then
    match done with
    | last :: before => if last == utf8 ".." then element :: done else before
    | [] => if rooted then [] else [element]
  else element :: done

/-- The shortest path to the same place, found without looking at any file. -/
def clean (path : Bytes) : Bytes :=
  let rooted := path.head? == some separator
  let kept := ((elements path).foldl (push rooted) []).reverse
  let joined := Bytes.join [separator] kept
  if rooted then separator :: joined else if joined.isEmpty then "." else joined

/-- The last element of a path, slashes at its end not counting. -/
def base (path : Bytes) : Bytes :=
  if path.isEmpty then "."
  else
    let trimmed := path.reverse.dropWhile (· == separator)
    if trimmed.isEmpty then [separator] else (trimmed.takeWhile (· != separator)).reverse

def directory (path : Bytes) : Bytes := clean (path.reverse.dropWhile (· != separator)).reverse

/-- The end of a path from the last dot of its last element on. -/
def extension (path : Bytes) : Bytes :=
  let last := path.reverse.takeWhile (· != separator)
  match last.dropWhile (· != 0x2E) with
  | [] => []
  | _ => (0x2E :: (last.takeWhile (· != 0x2E)).reverse)

def withoutExtension (path : Bytes) : Bytes := Bytes.dropEnding (extension path) path

/-- Whether a path can be looked up: it is a single dot, or all of its elements are names. -/
def isValid (path : Bytes) : Bool :=
  path.isUtf8 &&
    (path == utf8 "." ||
      (elements path).all fun e => !e.isEmpty && e != utf8 "." && e != utf8 "..")

end Path

/-- Why a file cannot be read. -/
inductive ReadProblem where
  | missing
  | invalid
  | directory
  /-- The path goes through a file as if it were a directory. -/
  | notDirectory
  deriving DecidableEq, Repr, Inhabited

/-- The words for a problem: what was tried, and why it failed. -/
structure ReadProblem.Phrase where
  verb : Bytes
  reason : Bytes
  deriving DecidableEq, Repr, Inhabited

/-- The words that a file system has for the problems of reading. -/
structure ReadProblem.Wording where
  missing : Phrase
  invalid : Phrase
  directory : Phrase
  notDirectory : Phrase
  deriving DecidableEq, Repr, Inhabited

namespace ReadProblem

def Wording.memory : Wording where
  missing := ⟨"open", "file does not exist"⟩
  invalid := ⟨"open", "file does not exist"⟩
  directory := ⟨"read", "invalid argument"⟩
  notDirectory := ⟨"open", "file does not exist"⟩

def Wording.host : Wording where
  missing := ⟨"open", "no such file or directory"⟩
  invalid := ⟨"readfile", "invalid argument"⟩
  directory := ⟨"read", "is a directory"⟩
  notDirectory := ⟨"open", "not a directory"⟩

def phrase (w : Wording) : ReadProblem → Phrase
  | .missing => w.missing
  | .invalid => w.invalid
  | .directory => w.directory
  | .notDirectory => w.notDirectory

/-- The text of a problem of reading the file at a path. -/
def message (w : Wording) (path : Bytes) (p : ReadProblem) : Bytes :=
  (p.phrase w).verb ++ " " ++ path ++ ": " ++ (p.phrase w).reason

/-- The text of a problem of writing the file at a path. -/
def writeMessage (w : Wording) (path : Bytes) (p : ReadProblem) : Bytes :=
  "open " ++ path ++ ": " ++ (p.phrase w).reason

end ReadProblem

/-- Files by their paths from a root, directories that are there even if no file is below them, and
the words for the problems of reading. -/
structure Files where
  entries : List (Bytes × Bytes) := []
  folders : List Bytes := []
  wording : ReadProblem.Wording := .memory
  deriving DecidableEq, Repr, Inhabited

/-- What is at a path. The elements of a directory are given the last one first. -/
inductive Node where
  | file (path content : Bytes)
  | directory (elements : List Bytes)
  deriving DecidableEq, Repr, Inhabited

namespace Files

/-- The path from a directory to what is below it. -/
def below? (directory path : Bytes) : Option Bytes :=
  Bytes.dropPrefix? (directory ++ [Path.separator]) path

def isDirectory (f : Files) (path : Bytes) : Bool :=
  path == utf8 "." || f.folders.contains path ||
    f.entries.any fun e => (below? path e.1).isSome

def read (f : Files) (path : Bytes) : Except ReadProblem Bytes :=
  if !Path.isValid path then .error .invalid
  else
    match f.entries.lookup path with
    | some content => .ok content
    | none => if f.isDirectory path then .error .directory else .error .missing

/-! ## Going through directories

A path with a slash in front starts at the root, every other one at a directory that is given by
its elements, the last one first.
-/

/-- The path with these elements, the last one first. -/
def pathOf (elements : List Bytes) : Bytes :=
  if elements.isEmpty then "." else Bytes.join [Path.separator] elements.reverse

/-- Follows elements of a path from a directory. Above the root there is nothing but itself. -/
def walk (f : Files) : List Bytes → List Bytes → Except ReadProblem Node
  | done, [] => .ok (.directory done)
  | done, e :: rest =>
    if e.isEmpty || e == utf8 "." then walk f done rest
    else if e == utf8 ".." then walk f done.tail rest
    else
      let path := pathOf (e :: done)
      match f.entries.lookup path with
      | some content => if rest.isEmpty then .ok (.file path content) else .error .notDirectory
      | none => if f.isDirectory path then walk f (e :: done) rest else .error .missing

def origin (start : List Bytes) (path : Bytes) : List Bytes :=
  if path.head? == some Path.separator then [] else start

def find (f : Files) (start : List Bytes) (path : Bytes) : Except ReadProblem Node :=
  if path.isEmpty then .error .missing else walk f (origin start path) (Path.elements path)

/-- The content of the file that a path leads to. -/
def readAlong (f : Files) (start : List Bytes) (path : Bytes) : Except ReadProblem Bytes :=
  match f.find start path with
  | .ok (.file _ content) => .ok content
  | .ok (.directory _) => .error .directory
  | .error p => .error p

/-- The place at which a file is written when a path is given. The directory has to be there, and
a path with a slash at its end can only be that of a directory. -/
def place (f : Files) (start : List Bytes) (path : Bytes) : Except ReadProblem Bytes :=
  let elements := (Path.elements path).reverse
  match elements.dropWhile List.isEmpty with
  | [] => .error (if path.isEmpty then .missing else .directory)
  | name :: above =>
    match walk f (origin start path) above.reverse with
    | .error p => .error p
    | .ok (.file _ _) => .error .notDirectory
    | .ok (.directory d) =>
      let target := pathOf (name :: d)
      if name == utf8 "." || name == utf8 ".." || elements.head? == some [] ||
          (f.entries.lookup target).isNone && f.isDirectory target then
        .error .directory
      else .ok target

/-- The files below a directory, by their paths from there. Below a file there are none, and what is
looked for there is said to be in no directory. -/
def below (f : Files) (start : List Bytes) (directory : Bytes) : Files :=
  match f.find start directory with
  | .ok (.directory []) => f
  | .ok (.directory d) =>
    { f with
      entries := f.entries.filterMap fun e => (below? (pathOf d) e.1).map (·, e.2)
      folders := f.folders.filterMap (below? (pathOf d)) }
  | .ok (.file _ _) | .error .notDirectory =>
    { wording := { f.wording with missing := f.wording.notDirectory } }
  | .error _ => { wording := f.wording }

/-- The directories that elements of a path go through from a directory. -/
def passed : List Bytes → List Bytes → List Bytes
  | done, [] => [pathOf done]
  | done, e :: rest => pathOf done :: passed (Path.push true done e) rest

/-- The files with the directories that a path goes through before its last element. -/
def addFolders (f : Files) (start : List Bytes) (path : Bytes) : Files :=
  { f with folders := passed (origin start path) (Path.elements path).dropLast ++ f.folders }

/-- The files with one more, which a path leads to. -/
def add (f : Files) (start : List Bytes) (path content : Bytes) : Files :=
  let target := (Path.elements path).foldl (Path.push true) (origin start path)
  let f := f.addFolders start path
  { f with entries := (pathOf target, content) :: f.entries }

end Files

end SpectrumTape
