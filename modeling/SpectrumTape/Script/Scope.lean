import SpectrumTape.Text.Nearest
import SpectrumTape.Script.Tree

/-!
# Names of scripts

Before a script runs, every name in it is looked up. A name that is bound anywhere in a function is
local to the function, one bound by a collected list is local to that list, and one bound outside
of functions is global. Outside of functions a name has to be bound before it is used; in functions
also later globals are seen. A name that nothing in the script binds is one of the given names.
-/

namespace SpectrumTape.Script

/-- A fault of the names of a script. -/
structure NameFault where
  pos : Position
  message : Bytes
  deriving DecidableEq, Repr, Inhabited

/-- What the lookup found: all globals, and the places outside of functions where a name stands for
a given one. -/
structure Scope where
  globals : List Bytes := []
  givenUses : List Position := []
  deriving DecidableEq, Repr, Inhabited

/-- The names that a target of an assignment binds. -/
def Expr.boundNames : Expr → List Bytes
  | .name _ id => [id]
  | .paren _ inner => inner.boundNames
  | _ => []

def Clause.boundNames : Clause → List Bytes
  | .each _ target _ => target.boundNames
  | .only _ => []

mutual

/-- The names that a statement binds, functions in it apart. -/
def Stmt.boundNames : Stmt → List Bytes
  | .assign target _ => target.boundNames
  | .add target _ _ => target.boundNames
  | .choose _ yes no => boundNamesOf yes ++ boundNamesOf no
  | .each _ target _ body => target.boundNames ++ boundNamesOf body
  | .repeat _ body => boundNamesOf body
  | .define _ name _ _ => [name]
  | .expr _ | .give _ _ | .pass | .leave _ | .next _ => []

/-- The names that statements bind, functions in them apart. -/
def boundNamesOf : List Stmt → List Bytes
  | [] => []
  | s :: rest => s.boundNames ++ boundNamesOf rest

end

namespace Scope

/-- A use of a name in a function or a collected list, with the names bound around it. -/
structure Use where
  pos : Position
  name : Bytes
  locals : List Bytes
  deriving DecidableEq, Repr, Inhabited

/-- The lookup as far as it has come. Uses that have to wait for later globals are kept, those of
inner functions apart. -/
structure Survey where
  globals : List Bytes := []
  givenUses : List Position := []
  faults : List NameFault := []
  inner : List Use := []
  own : List Use := []
  deriving DecidableEq, Repr, Inhabited

/-- What surrounds a part of a script: the names given to every script and those bound around it,
if it is in a function or a collected list. -/
structure Around where
  given : List Bytes
  locals : Option (List Bytes) := none
  inFunction : Bool := false
  inLoop : Bool := false

abbrev Lookup := StateM Survey

def fault (pos : Position) (message : Bytes) : Lookup Unit :=
  modify fun s => { s with faults := s.faults ++ [⟨pos, message⟩] }

def undefined (known : List Bytes) (pos : Position) (name : Bytes) : NameFault :=
  ⟨pos, "undefined: " ++ name ++ Nearest.hint name (known.mergeSort Bytes.le)⟩

def use (a : Around) (pos : Position) (name : Bytes) : Lookup Unit := do
  match a.locals with
  | some locals => modify fun s => { s with own := s.own ++ [⟨pos, name, locals⟩] }
  | none =>
    let s ← get
    if s.globals.contains name then pure ()
    else if a.given.contains name then set { s with givenUses := pos :: s.givenUses }
    else set { s with faults := s.faults ++ [undefined s.globals pos name] }

def bind (a : Around) (name : Bytes) : Lookup Unit :=
  if a.locals.isSome then pure ()
  else modify fun s => if s.globals.contains name then s else { s with globals := s.globals ++ [name] }

/-- What an expression is called that cannot be assigned to. -/
def kindName : Expr → Bytes
  | .constant .. => "literal"
  | .dict .. => "dictexpr"
  | .collected .. => "comprehension"
  | .unary .. => "unaryexpr"
  | .binary .. => "binaryexpr"
  | .choice .. => "condexpr"
  | .call .. => "callexpr"
  | .list .. => "listexpr"
  | .name .. => "ident"
  | .paren .. => "parenexpr"
  | .subscript .. => "indexexpr"

mutual

def expr (a : Around) : Expr → Lookup Unit
  | .name pos id => use a pos id
  | .constant _ _ => pure ()
  | .paren _ inner => expr a inner
  | .list _ items => exprs a items
  | .dict _ es => entries a es
  | .collected _ body cs => do
    let names := cs.flatMap Clause.boundNames
    let inside := { a with locals := some (names ++ a.locals.getD []) }
    clauses a inside cs
    expr inside body
  | .unary _ _ operand => expr a operand
  | .binary left _ _ right => do
    expr a left
    expr a right
  | .choice condition yes no => do
    expr a condition
    expr a yes
    expr a no
  | .subscript container _ key => do
    expr a container
    expr a key
  | .call function _ arguments => do
    expr a function
    args a [] arguments

def exprs (a : Around) : List Expr → Lookup Unit
  | [] => pure ()
  | e :: rest => do
    expr a e
    exprs a rest

def entries (a : Around) : List Entry → Lookup Unit
  | [] => pure ()
  | .mk key _ value :: rest => do
    expr a key
    expr a value
    entries a rest

/-- Looks up the names of clauses. What the first clause goes through is looked up outside. -/
def clauses (outside inside : Around) : List Clause → Lookup Unit
  | [] => pure ()
  | .each _ target container :: rest => do
    expr outside container
    target' inside target
    clauses inside inside rest
  | .only condition :: rest => do
    expr inside condition
    clauses inside inside rest

/-- Looks up the names of arguments behind those with the given names. -/
def args (a : Around) (named : List Bytes) : List Argument → Lookup Unit
  | [] => pure ()
  | .positional value :: rest => do
    if !named.isEmpty then fault value.start "positional argument may not follow named"
    expr a value
    args a named rest
  | .named pos name value :: rest => do
    if named.contains name then
      fault pos ("keyword argument " ++ name.quoted ++ " is repeated")
    expr a value
    args a (name :: named) rest

/-- Looks up the names of a target of an assignment. -/
def target' (a : Around) : Expr → Lookup Unit
  | .name _ id => bind a id
  | .paren _ inner => target' a inner
  | .subscript container _ key => do
    expr a container
    expr a key
  | e => fault e.start ("can't assign to " ++ kindName e)

end

def defaults (a : Around) : List Parameter → Lookup Unit
  | [] => pure ()
  | p :: rest => do
    match p.default? with
    | some e => expr a e
    | none => pure ()
    defaults a rest

/-- Checks the parameters of a function behind those with the given names. -/
def parameters (seen : List Bytes) (optional : Bool) : List Parameter → Lookup Unit
  | [] => pure ()
  | p :: rest => do
    if p.default?.isNone && optional then
      fault p.pos "required parameter may not follow optional"
    if seen.contains p.name then fault p.pos ("duplicate parameter: " ++ p.name)
    parameters (p.name :: seen) (optional || p.default?.isSome) rest

mutual

def stmt (a : Around) : Stmt → Lookup Unit
  | .expr e => expr a e
  | .assign target value => do
    expr a value
    target' a target
  | .add target _ value => do
    expr a value
    target' a target
  | .choose condition yes no => do
    expr a condition
    stmts a yes
    stmts a no
  | .each _ target container body => do
    expr a container
    target' a target
    stmts { a with inLoop := true } body
  | .repeat condition body => do
    expr a condition
    stmts { a with inLoop := true } body
  | .define _ name ps body => do
    bind a name
    defaults a ps
    let outer ← get
    set { outer with inner := [], own := [] }
    parameters [] false ps
    let locals := ps.map Parameter.name ++ boundNamesOf body ++ a.locals.getD []
    stmts { a with locals := some locals, inFunction := true, inLoop := false } body
    modify fun s => { s with inner := outer.inner ++ s.inner ++ s.own, own := outer.own }
  | .give pos value => do
    if !a.inFunction then fault pos "return statement not within a function"
    match value with
    | some e => expr a e
    | none => pure ()
  | .leave pos => if a.inLoop then pure () else fault pos "break not in a loop"
  | .next pos => if a.inLoop then pure () else fault pos "continue not in a loop"
  | .pass => pure ()

def stmts (a : Around) : List Stmt → Lookup Unit
  | [] => pure ()
  | s :: rest => do
    stmt a s
    stmts a rest

end

/-- Looks up all names of a script; of several faults the first counts. -/
def ofScript (given : List Bytes) (script : List Stmt) : Except NameFault Scope :=
  let (_, s) := (stmts { given } script).run {}
  let later := (s.inner ++ s.own).filterMap fun u =>
    if u.locals.contains u.name || s.globals.contains u.name || given.contains u.name then none
    else some (undefined (u.locals ++ s.globals) u.pos u.name)
  match s.faults ++ later with
  | f :: _ => .error f
  | [] => .ok { globals := s.globals, givenUses := s.givenUses }

end Scope

end SpectrumTape.Script
