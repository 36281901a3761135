import SpectrumTape.Document.Work
import SpectrumTape.Script.Arguments
import SpectrumTape.Script.Scope

/-!
# Running scripts

A script works on a document. What goes wrong in the script itself is raised at a place; on its way
out of a function it moves to the call of the function, so in the end it is at a place outside of
all functions. What goes wrong in adding a file has its own place and stays as it is.
-/

namespace SpectrumTape.Script

/-- Why a script stopped early. -/
inductive Stop where
  | raised (pos : Position) (message : Bytes)
  | failed (failure : Failure Document.Cause)
  deriving Repr, Inhabited

/-- What a running script has: its values, and the document. -/
structure Machine where
  store : Store := {}
  document : Document.State := {}
  deriving Inhabited

abbrev Run := ExceptT Stop (StateM Machine)

/-- What stays the same while a script runs. -/
structure Setting where
  environment : Document.Environment
  context : Journal.Context
  path : Bytes
  scope : Scope

/-- Where in its functions a script is: the frames that are seen, the innermost first, and the
functions that are under way. -/
structure Place where
  frames : List Nat := []
  active : List Position := []
  deriving Inhabited

def raise {α : Type} (pos : Position) (message : Bytes) : Run α := throw (.raised pos message)

/-- A result at a place, where a fault is raised. -/
def orRaise {α : Type} (pos : Position) : Except Bytes α → Run α
  | .ok a => pure a
  | .error message => raise pos message

def store : Run Store := return (← get).store

def update (f : Store → Store) : Run Unit := modify fun m => { m with store := f m.store }

def allocate {α : Type} (f : Store → α × Store) : Run α :=
  modifyGet fun m =>
    let (a, s) := f m.store
    (a, { m with store := s })

def view (v : Value) : Run Data := return (← store).view v

def onDocument {α : Type} (work : Document.Work α) : Run α := do
  let m ← get
  let (result, document) := work.run m.document
  set { m with document }
  match result with
  | .ok a => return a
  | .error failure => throw (.failed failure)

/-! ## Names -/

def lookup (s : Setting) (p : Place) (pos : Position) (name : Bytes) : Run Value := do
  let st ← store
  match p.frames.findSome? (st.inFrame? name) with
  | some (some v) => return v
  | some none => raise pos ("local variable " ++ name ++ " referenced before assignment")
  | none =>
    let isGiven := p.frames.isEmpty && s.scope.givenUses.contains pos
    if s.scope.globals.contains name && !isGiven then
      match st.inFrame? name 0 with
      | some (some v) => return v
      | _ => raise pos ("global variable " ++ name ++ " referenced before assignment")
    else
      match Value.given? name with
      | some v => return v
      | none => raise pos ("undefined: " ++ name)

/-- Gives a value to a name of the innermost frame. -/
def setName (p : Place) (name : Bytes) (v : Value) : Run Unit :=
  update fun st => st.setName (p.frames.head?.getD 0) name v

/-! ## Operations -/

/-- A number as a float, if a float can be as large. -/
def floatOf (n : Int) : Except Bytes Binary64 :=
  match Binary.ofInt n with
  | .infinite _ => .error "int too large to convert to float"
  | x => .ok x

/-- The sum of two values: of numbers, or of two strings or two lists put together. -/
def sum (pos : Position) (a b : Value) : Run Value := do
  match a, b with
  | .int m, .int n => return .int (m + n)
  | .int m, .float y => return .float ((← orRaise pos (floatOf m)).add y)
  | .float x, .int n => return .float (x.add (← orRaise pos (floatOf n)))
  | .float x, .float y => return .float (x.add y)
  | .string s, .string t => return .string (s ++ t)
  | .bytes s, .bytes t => return .bytes (s ++ t)
  | .list i, .list j =>
    let st ← store
    allocate (·.newList (st.items i ++ st.items j))
  | _, _ => raise pos ("unknown binary op: " ++ a.typeName ++ " + " ++ b.typeName)

def unary (pos : Position) (op : UnaryOp) (v : Value) : Run Value := do
  match op, v with
  | .not, v => return .bool !(← view v).truth
  | .minus, .int n => return .int (-n)
  | .minus, .float x => return .float x.negate
  | .plus, .int n => return .int n
  | .plus, .float x => return .float x
  | .minus, v => raise pos ("unknown unary op: - " ++ v.typeName)
  | .plus, v => raise pos ("unknown unary op: + " ++ v.typeName)

def elements? (st : Store) : Value → Option (List Value)
  | .list i => some (st.items i)
  | .dict i => some ((st.entries i).map Prod.fst)
  | .range start stop step => some ((rangeItems start stop step).map .int)
  | _ => none

def elements (pos : Position) (v : Value) : Run (List Value) := do
  match elements? (← store) v with
  | some vs => return vs
  | none => raise pos (v.typeName ++ " value is not iterable")

/-- A whole number of at most 32 bits. -/
def smallInt (v : Value) : Except Bytes Int :=
  match v with
  | .int n =>
    if -2147483648 ≤ n && n ≤ 2147483647 then .ok n
    else .error (Bytes.decimalInt n ++ " out of range")
  | _ => .error ("got " ++ v.typeName ++ ", want int")

/-- The place in a sequence that an index means; one below zero counts from the end. -/
def indexIn (typeName : Bytes) (size : Nat) (i : Int) : Except Bytes Nat :=
  let j := if i < 0 then i + (size : Nat) else i
  if 0 ≤ j && j < (size : Nat) then .ok j.toNat
  else if size == 0 then
    .error ("index " ++ Bytes.decimalInt i ++ " out of range: empty " ++ typeName)
  else
    .error (typeName ++ " index " ++ Bytes.decimalInt i ++ " out of range [" ++
      Bytes.decimalInt (-(size : Nat)) ++ ":" ++ Bytes.decimal (size - 1) ++ "]")

def part {α : Type} [Inhabited α] (pos : Position) (typeName : Bytes) (parts : List α)
    (index : Value) : Run α := do
  match smallInt index with
  | .error why => raise pos (typeName ++ " index: " ++ why)
  | .ok i => return parts.getD (← orRaise pos (indexIn typeName parts.length i)) default

def subscript (pos : Position) (container key : Value) : Run Value := do
  let st ← store
  match container with
  | .dict i =>
    let k := st.view key
    if !k.isKey then raise pos ("unhashable type: " ++ key.typeName)
    else
      match (st.entries i).find? fun e => k.equalParts (st.view e.1) with
      | some (_, v) => return v
      | none => raise pos ("key " ++ k.literal ++ " not in dict")
  | .list i => part pos "list" (st.items i) key
  | .string s => return .string [← part pos "string" s key]
  | .bytes s => return .int (← part pos "bytes" s key).toNat
  | .range start stop step =>
    return .int (← part pos "range" (rangeItems start stop step) key)
  | _ => raise pos ("unhandled index operation " ++ container.typeName ++ "[" ++ key.typeName ++ "]")

/-- Entries with a value at a key, which keeps its place if it is already there. -/
def entriesWith (st : Store) (k : Data) (key v : Value) :
    List (Value × Value) → List (Value × Value)
  | [] => [(key, v)]
  | e :: rest =>
    if k.equalParts (st.view e.1) then (e.1, v) :: rest else e :: entriesWith st k key v rest

def setKey (pos : Position) (place : Nat) (key v : Value) : Run Unit := do
  let st ← store
  let k := st.view key
  if !k.isKey then raise pos ("unhashable type: " ++ key.typeName)
  else if 0 < (st.dicts[place]?.map DictCell.readers).getD 0 then
    raise pos "cannot insert into hash table during iteration"
  else update (·.setEntries place (entriesWith st k key v (st.entries place)))

def setPart (pos : Position) (container key v : Value) : Run Unit := do
  match container with
  | .dict i => setKey pos i key v
  | .list i =>
    let st ← store
    let parts := st.items i
    let at' ← orRaise pos (smallInt key)
    let index ← orRaise pos (indexIn "list" parts.length at')
    if 0 < (st.lists[i]?.map ListCell.readers).getD 0 then
      raise pos "cannot assign to element of list during iteration"
    else update (·.setItems i (parts.set index v))
  | _ => raise pos (container.typeName ++ " value does not support item assignment")

/-- The sum of a value with another that replaces it: a list is made longer in its place. -/
def addTo (pos : Position) (a b : Value) : Run Value := do
  let st ← store
  match a, elements? st b with
  | .list i, some more =>
    if 0 < (st.lists[i]?.map ListCell.readers).getD 0 then
      raise pos "cannot apply += to list during iteration"
    else
      update (·.setItems i (st.items i ++ more))
      return a
  | _, _ => sum pos a b

/-! ## Given functions -/

/-- The texts of values one after the other, with a separator given by name. -/
def displayed (function : Bytes) (call : Call) : Run (Except Bytes Bytes) := do
  let st ← store
  return do
    let bound ← Call.unpack function [⟨"sep", .string, true⟩] { named := call.named }
    let separator : Bytes :=
      match bound.lookup (utf8 "sep") with
      | some (.string s) => s
      | _ => " "
    return Bytes.join separator (call.positional.map fun v => (st.view v).display)

def stringOf (bound : Bound) (name : String) : Bytes :=
  match bound.lookup (utf8 name) with
  | some (.string s) => s
  | _ => []

/-- The constants that a dictionary stands for: a string is its own value, anything else is written
as in the script. -/
def constantsOf (st : Store) : List (Value × Value) → Except Bytes Basic.Constants
  | [] => .ok []
  | (.string name, v) :: rest => do
    return .constant name (st.view v).display :: (← constantsOf st rest)
  | (key, _) :: _ => .error ("basic: constant name must be a string, got " ++ key.typeName)

def basicFile (st : Store) (call : Call) : Except Bytes Document.BasicFile := do
  let bound ← call.unpack "basic"
    [⟨"path", .string, false⟩, ⟨"name", .string, true⟩, ⟨"constants", .dict, true⟩,
      ⟨"autostart", .any, true⟩]
  let constants ←
    match bound.lookup (utf8 "constants") with
    | some (.dict i) => constantsOf st (st.entries i)
    | _ => .ok []
  let autostart ←
    match bound.lookup (utf8 "autostart") with
    | none | some .none => .ok 0
    | some v => (smallInt v).mapError fun why => "basic: autostart: " ++ why
  return { path := stringOf bound "path", name := stringOf bound "name", constants, autostart }

def codeFile (call : Call) : Except Bytes Document.CodeFile := do
  let bound ← call.unpack "code"
    [⟨"path", .string, false⟩, ⟨"address", .int, false⟩, ⟨"name", .string, true⟩]
  let address :=
    match bound.lookup (utf8 "address") with
    | some (.int n) => n
    | _ => 0
  if address < 0 || 0xFFFF < address then
    throw ("code: address " ++ Bytes.decimalInt address ++ " is out of range")
  return { path := stringOf bound "path", name := stringOf bound "name", address }

def describe (e : Tape.Entry) : Run Value :=
  allocate (·.newDict
    [(.string "length", .int e.payload.length),
      (.string "name", .string e.name),
      (.string "param1", .int e.words.1.toNat),
      (.string "param2", .int e.words.2.toNat),
      (.string "type", .string e.type.name)])

/-- The text of a number in hexadecimal, with at least four characters behind the mark. -/
def hexText (n : Int) : Bytes :=
  if n < 0 then "0x-" ++ Bytes.hexUpper 3 n.natAbs else "0x" ++ Bytes.hexUpper 4 n.natAbs

def rangeOf (call : Call) : Except Bytes Value := do
  match ← call.unpackPositional "range" 1 [.int, .int, .int] with
  | [.int stop] => return .range 0 stop 1
  | [.int start, .int stop] => return .range start stop 1
  | [.int start, .int stop, .int step] =>
    if step == 0 then throw (utf8 "range: step argument must not be zero")
    return .range start stop step
  | _ => return .none

def callGiven (s : Setting) (pos : Position) (b : Builtin) (call : Call) : Run Value := do
  let location : Location := ⟨s.path, pos.line, pos.column⟩
  match b with
  | .print =>
    let message ← orRaise pos (← displayed "print" call)
    onDocument (Document.note (s.context.note .info message []))
    return .none
  | .fail =>
    let message ← orRaise pos (← displayed "fail" call)
    raise pos ("fail: " ++ message)
  | .range => orRaise pos (rangeOf call)
  | .str =>
    if !call.named.isEmpty then raise pos "str does not accept keyword arguments"
    else
      match call.positional with
      | [v] => return .string (← view v).display
      | vs => raise pos ("str: got " ++ Bytes.decimal vs.length ++ " arguments, want exactly 1")
  | .fileName =>
    match ← orRaise pos (call.unpackPositional "file_name" 1 [.string]) with
    | [.string path] => return .string (Document.entryName [] path)
    | _ => return .none
  | .hex =>
    match ← orRaise pos (call.unpackPositional "hex" 1 [.int]) with
    | [.int n] => return .string (hexText n)
    | _ => return .none
  | .basic =>
    let file ← orRaise pos (basicFile (← store) call)
    describe (← onDocument (Document.addBasic s.environment s.context location file))
  | .code =>
    let file ← orRaise pos (codeFile call)
    describe (← onDocument (Document.addCode s.environment s.context location file))

/-! ## Expressions and statements -/

/-- How a statement ends: the next one follows, a loop is left or goes on, or the function gives a
value. -/
inductive Flow where
  | onward
  | leave
  | next
  | give (v : Value)
  deriving Repr, Inhabited

/-- What happens when the budget of a script is used up. -/
def exhausted {α : Type} (pos : Position) : Run α :=
  raise pos "script takes too many steps"

def constantValue : Data → Value
  | .int n => .int n
  | .float x => .float x
  | .string s => .string s
  | .bytes s => .bytes s
  | .bool b => .bool b
  | _ => .none

mutual

def eval (s : Setting) : Nat → Place → Expr → Run Value
  | 0, _, e => exhausted e.start
  | fuel + 1, p, e => do
    match e with
    | .name pos id => lookup s p pos id
    | .constant _ value => return constantValue value
    | .paren _ inner => eval s fuel p inner
    | .list _ items =>
      let values ← evalAll s fuel p items
      allocate (·.newList values)
    | .dict _ entries =>
      let d ← allocate (·.newDict [])
      evalEntries s fuel p d entries
      return d
    | .collected _ body clauses =>
      let result ← allocate (·.newList [])
      match clauses with
      | .each pos target container :: rest =>
        let source ← eval s fuel p container
        let vs ← elements pos source
        let names := clauses.flatMap Clause.boundNames
        let frame ← allocate (·.newFrame (names.map (·, none)))
        let inside := { p with frames := frame :: p.frames }
        update (·.countReaders (· + 1) source)
        collectEach s fuel inside result target vs rest body
        update (·.countReaders (· - 1) source)
        return result
      | _ => return result
    | .unary pos op operand =>
      let v ← eval s fuel p operand
      unary pos op v
    | .binary left pos op right =>
      let a ← eval s fuel p left
      match op with
      | .or => if (← view a).truth then return a else eval s fuel p right
      | .and => if (← view a).truth then eval s fuel p right else return a
      | .compare c =>
        let b ← eval s fuel p right
        return .bool (← orRaise pos (c.apply (← view a) (← view b)))
      | .add =>
        let b ← eval s fuel p right
        sum pos a b
    | .choice condition yes no =>
      let c ← eval s fuel p condition
      if (← view c).truth then eval s fuel p yes else eval s fuel p no
    | .subscript container pos key =>
      let c ← eval s fuel p container
      let k ← eval s fuel p key
      subscript pos c k
    | .call function pos arguments =>
      let f ← eval s fuel p function
      let call ← evalArguments s fuel p {} arguments
      match f with
      | .builtin b => callGiven s pos b call
      | .function i =>
        let st ← store
        match st.closures[i]? with
        | some c => callClosure s fuel p pos c call
        | none => return .none
      | v => raise pos ("invalid call of non-function (" ++ v.typeName ++ ")")

def evalAll (s : Setting) : Nat → Place → List Expr → Run (List Value)
  | _, _, [] => return []
  | 0, _, e :: _ => exhausted e.start
  | fuel + 1, p, e :: rest => do
    let v ← eval s fuel p e
    let vs ← evalAll s fuel p rest
    return v :: vs

/-- Puts entries into a dictionary, of which no two have the same key. -/
def evalEntries (s : Setting) : Nat → Place → Value → List Entry → Run Unit
  | _, _, _, [] => return
  | 0, _, _, .mk _ pos _ :: _ => exhausted pos
  | fuel + 1, p, d, .mk key pos value :: rest => do
    let k ← eval s fuel p key
    let v ← eval s fuel p value
    match d with
    | .dict i =>
      let before := ((← store).entries i).length
      setKey pos i k v
      if ((← store).entries i).length == before then
        raise pos ("duplicate key: " ++ (← view k).literal)
      evalEntries s fuel p d rest
    | _ => return

/-- The values of arguments behind those already found. -/
def evalArguments (s : Setting) : Nat → Place → Call → List Argument → Run Call
  | _, _, call, [] => return call
  | 0, _, _, .positional e :: _ => exhausted e.start
  | 0, _, _, .named pos _ _ :: _ => exhausted pos
  | fuel + 1, p, call, .positional e :: rest => do
    let v ← eval s fuel p e
    evalArguments s fuel p { call with positional := call.positional ++ [v] } rest
  | fuel + 1, p, call, .named _ name e :: rest => do
    let v ← eval s fuel p e
    evalArguments s fuel p { call with named := call.named ++ [(name, v)] } rest

/-- Collects what the body gives for each of the values, under further clauses. -/
def collectEach (s : Setting) : Nat → Place → Value → Expr → List Value → List Clause → Expr →
    Run Unit
  | _, _, _, _, [], _, _ => return
  | 0, _, _, target, _ :: _, _, _ => exhausted target.start
  | fuel + 1, p, result, target, v :: vs, clauses, body => do
    assign s fuel p target v
    collect s fuel p result clauses body
    collectEach s fuel p result target vs clauses body

def collect (s : Setting) : Nat → Place → Value → List Clause → Expr → Run Unit
  | 0, _, _, _, body => exhausted body.start
  | fuel + 1, p, result, clauses, body => do
    match clauses with
    | [] =>
      let v ← eval s fuel p body
      match result with
      | .list i => update fun st => st.setItems i (st.items i ++ [v])
      | _ => return
    | .only condition :: rest =>
      let c ← eval s fuel p condition
      if (← view c).truth then collect s fuel p result rest body
    | .each pos target container :: rest =>
      let source ← eval s fuel p container
      let vs ← elements pos source
      update (·.countReaders (· + 1) source)
      collectEach s fuel p result target vs rest body
      update (·.countReaders (· - 1) source)

def assign (s : Setting) : Nat → Place → Expr → Value → Run Unit
  | 0, _, target, _ => exhausted target.start
  | fuel + 1, p, target, v => do
    match target with
    | .name _ id => setName p id v
    | .paren _ inner => assign s fuel p inner v
    | .subscript container pos key =>
      let c ← eval s fuel p container
      let k ← eval s fuel p key
      setPart pos c k v
    | _ => return

def callClosure (s : Setting) : Nat → Place → Position → Closure → Call → Run Value
  | 0, _, pos, _, _ => exhausted pos
  | fuel + 1, p, pos, c, call => do
    if p.active.contains c.pos then
      raise pos ("function " ++ c.name ++ " called recursively")
    let bound ← orRaise pos (call.bind c)
    let unset := (boundNamesOf c.body).filter fun n => !c.parameters.contains n
    let frame ← allocate
      (·.newFrame (bound.map (fun b => (b.1, some b.2)) ++ unset.map (·, none)))
    let inside : Place := { frames := frame :: c.frames, active := c.pos :: p.active }
    let flow ← tryCatch (execAll s fuel inside c.body) fun
      | .raised _ message => raise pos message
      | .failed failure => throw (.failed failure)
    match flow with
    | .give v => return v
    | _ => return .none

def exec (s : Setting) : Nat → Place → Stmt → Run Flow
  | 0, _, _ => exhausted {}
  | fuel + 1, p, statement => do
    match statement with
    | .expr e =>
      let _ ← eval s fuel p e
      return .onward
    | .assign target value =>
      let v ← eval s fuel p value
      assign s fuel p target v
      return .onward
    | .add target pos value =>
      match target.bare with
      | .name at' id =>
        let old ← lookup s p at' id
        let v ← eval s fuel p value
        setName p id (← addTo pos old v)
        return .onward
      | .subscript container at' key =>
        let c ← eval s fuel p container
        let k ← eval s fuel p key
        let old ← subscript at' c k
        let v ← eval s fuel p value
        setPart at' c k (← addTo pos old v)
        return .onward
      | _ => return .onward
    | .choose condition yes no =>
      let c ← eval s fuel p condition
      if (← view c).truth then execAll s fuel p yes else execAll s fuel p no
    | .each pos target container body =>
      let source ← eval s fuel p container
      let vs ← elements pos source
      update (·.countReaders (· + 1) source)
      let flow ← execEach s fuel p target vs body
      update (·.countReaders (· - 1) source)
      return flow
    | .repeat condition body => execWhile s fuel p condition body
    | .define pos name parameters body =>
      let defaults ← evalAll s fuel p (parameters.filterMap Parameter.default?)
      let f ← allocate (·.newClosure
        { name, pos, parameters := parameters.map Parameter.name, defaults, body,
          frames := p.frames })
      setName p name f
      return .onward
    | .give _ (some e) => return .give (← eval s fuel p e)
    | .give _ none => return .give .none
    | .pass => return .onward
    | .leave _ => return .leave
    | .next _ => return .next

/-- Does statements in their order, up to one that does not go on to the next. -/
def execAll (s : Setting) : Nat → Place → List Stmt → Run Flow
  | _, _, [] => return .onward
  | 0, _, _ :: _ => exhausted {}
  | fuel + 1, p, statement :: rest => do
    match ← exec s fuel p statement with
    | .onward => execAll s fuel p rest
    | flow => return flow

/-- Does the body of a loop for each of the values. -/
def execEach (s : Setting) : Nat → Place → Expr → List Value → List Stmt → Run Flow
  | _, _, _, [], _ => return .onward
  | 0, _, target, _ :: _, _ => exhausted target.start
  | fuel + 1, p, target, v :: vs, body => do
    assign s fuel p target v
    match ← execAll s fuel p body with
    | .onward | .next => execEach s fuel p target vs body
    | .leave => return .onward
    | flow => return flow

/-- Does the body of a loop as long as the condition holds. -/
def execWhile (s : Setting) : Nat → Place → Expr → List Stmt → Run Flow
  | 0, _, condition, _ => exhausted condition.start
  | fuel + 1, p, condition, body => do
    let c ← eval s fuel p condition
    if (← view c).truth then
      match ← execAll s fuel p body with
      | .onward | .next => execWhile s fuel p condition body
      | .leave => return .onward
      | flow => return flow
    else return .onward

end

/-- How many steps may follow each other in a script. -/
def stepLimit : Nat := 1000000000

def runAll (s : Setting) (script : List Stmt) : Run Unit := do
  let _ ← allocate (·.newFrame (s.scope.globals.map (·, none)))
  let _ ← execAll s stepLimit {} script

end SpectrumTape.Script
