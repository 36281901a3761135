import SpectrumTape.Script.Tree

/-!
# The grammar of scripts

A script is read from left to right with one token of foresight. Each rule is given a budget that
every rule below it has one less of; the budget of a whole script is a multiple of the number of
its tokens, since only a fixed number of rules is entered between two tokens.
-/

namespace SpectrumTape.Script.Grammar

/-- The token to be read next, and those after it. -/
structure State where
  token : Token
  start : Position
  stop : Position
  rest : List Lexeme
  deriving Repr, Inhabited

abbrev Parse := StateT State (Except SyntaxFault)

def State.ofLexemes : List Lexeme → Except SyntaxFault State
  | .token token start stop :: rest => .ok { token, start, stop, rest }
  | .fault f :: _ => .error f
  | [] => .ok { token := .endOfFile, start := {}, stop := {}, rest := [] }

def peek : Parse Token := return (← get).token

def seesMark (m : String) : Parse Bool := return (← peek) == .mark m

def seesWord (w : String) : Parse Bool := return (← peek) == .word w

/-- Goes behind the next token and gives its place. -/
def advance : Parse Position := do
  let s ← get
  match State.ofLexemes s.rest with
  | .error f => throw f
  | .ok next =>
    set (if s.rest.isEmpty then s else next)
    return s.start

def failBehind {α : Type} (message : Bytes) : Parse α := do
  throw ⟨(← get).stop, message⟩

/-- Goes behind the next token, which has to be the given one. -/
def consume (t : Token) : Parse Position := do
  let s ← get
  if s.token == t then advance
  else failBehind ("got " ++ s.token.description ++ ", want " ++ t.description)

def name : Parse (Position × Bytes) := do
  match ← peek with
  | .name id =>
    let pos ← advance
    return (pos, id)
  | _ => failBehind "not an identifier"

/-- What happens when a budget is used up. -/
def exhausted {α : Type} : Parse α := failBehind "script is nested too deeply"

/-- An operation with its level: the higher levels bind closer. -/
def operation? : Token → Option (Nat × BinaryOp)
  | .word "or" => some (0, .or)
  | .word "and" => some (1, .and)
  | .mark "==" => some (3, .compare .eq)
  | .mark "!=" => some (3, .compare .ne)
  | .mark "<" => some (3, .compare .lt)
  | .mark ">" => some (3, .compare .gt)
  | .mark "<=" => some (3, .compare .le)
  | .mark ">=" => some (3, .compare .ge)
  | .mark "+" => some (4, .add)
  | _ => none

def negationLevel : Nat := 2

/-- The level above all operations on two values. -/
def operandLevel : Nat := 5

/-- The comparison that an expression is, without looking into brackets. -/
def comparisonOf? : Expr → Option Comparison
  | .binary _ _ (.compare c) _ => some c
  | _ => none

mutual

def expression : Nat → Parse Expr
  | 0 => exhausted
  | fuel + 1 => do
    let yes ← level fuel 0
    if ← seesWord "if" then
      let pos ← advance
      let condition ← level fuel 0
      if !(← seesWord "else") then
        throw ⟨pos, "conditional expression without else clause"⟩
      let _ ← advance
      return .choice condition yes (← expression fuel)
    else return yes

def level : Nat → Nat → Parse Expr
  | 0, _ => exhausted
  | fuel + 1, n => do
    if operandLevel ≤ n then suffixed fuel
    else if n == negationLevel && (← seesWord "not") then
      let pos ← advance
      return .unary pos .not (← level fuel n)
    else
      let first ← level fuel (n + 1)
      operations fuel n first

/-- Reads further operations of a level and above behind a first operand. -/
def operations : Nat → Nat → Expr → Parse Expr
  | 0, _, _ => exhausted
  | fuel + 1, n, left => do
    match operation? (← peek) with
    | none => return left
    | some (m, op) =>
      if m < n then return left
      else
        match comparisonOf? left, op with
        | some c, .compare d =>
          failBehind (c.text ++ " does not associate with " ++ d.text ++ " (use parens)")
        | _, _ =>
          let pos ← advance
          let right ← level fuel (m + 1)
          operations fuel n (.binary left pos op right)

/-- Reads an operand with its subscripts and calls. -/
def suffixed : Nat → Parse Expr
  | 0 => exhausted
  | fuel + 1 => do
    let operand ← primary fuel
    suffixes fuel operand

/-- Reads the subscripts and calls behind an operand. -/
def suffixes : Nat → Expr → Parse Expr
  | 0, _ => exhausted
  | fuel + 1, e => do
    match ← peek with
    | .mark "[" =>
      let pos ← advance
      let key ← expression fuel
      let _ ← consume (.mark "]")
      suffixes fuel (.subscript e pos key)
    | .mark "(" =>
      let pos ← advance
      let arguments ← arguments fuel []
      let _ ← consume (.mark ")")
      suffixes fuel (.call e pos arguments)
    | _ => return e

/-- Reads arguments behind those that were already read, the last one first. -/
def arguments : Nat → List Argument → Parse (List Argument)
  | 0, _ => exhausted
  | fuel + 1, done => do
    let t ← peek
    if t == .mark ")" || t == .endOfFile then return done.reverse
    else
      if !done.isEmpty then let _ ← consume (.mark ",")
      if ← seesMark ")" then return done.reverse
      else
        let value ← expression fuel
        if ← seesMark "=" then
          match value with
          | .name pos id =>
            let _ ← advance
            let value ← expression fuel
            arguments fuel (.named pos id value :: done)
          | _ => failBehind "keyword argument must have form name=expr"
        else arguments fuel (.positional value :: done)

def primary : Nat → Parse Expr
  | 0 => exhausted
  | fuel + 1 => do
    let s ← get
    match s.token with
    | .name id => return .name (← advance) id
    | .int n => return .constant (← advance) (.int n)
    | .float x => return .constant (← advance) (.float x)
    | .string text => return .constant (← advance) (.string text)
    | .bytes text => return .constant (← advance) (.bytes text)
    | .mark "[" =>
      let pos ← advance
      listBody fuel pos
    | .mark "\x7b" =>
      let pos ← advance
      let entries ← entries fuel []
      let _ ← consume (.mark "\x7d")
      return .dict pos entries
    | .mark "(" =>
      let pos ← advance
      let inner ← expression fuel
      let _ ← consume (.mark ")")
      return .paren pos inner
    | .mark "-" =>
      let pos ← advance
      return .unary pos .minus (← suffixed fuel)
    | .mark "+" =>
      let pos ← advance
      return .unary pos .plus (← suffixed fuel)
    | t => throw ⟨s.start, "got " ++ t.description ++ ", want primary expression"⟩

def listBody : Nat → Position → Parse Expr
  | 0, _ => exhausted
  | fuel + 1, pos => do
    if ← seesMark "]" then
      let _ ← advance
      return .list pos []
    else
      let first ← expression fuel
      if ← seesWord "for" then return .collected pos first (← clauses fuel [])
      else
        let items ← items fuel [first]
        let _ ← consume (.mark "]")
        return .list pos items

def items : Nat → List Expr → Parse (List Expr)
  | 0, _ => exhausted
  | fuel + 1, done => do
    if ← seesMark "," then
      let _ ← advance
      if ← seesMark "]" then return done.reverse
      else
        let item ← expression fuel
        items fuel (item :: done)
    else return done.reverse

def entries : Nat → List Entry → Parse (List Entry)
  | 0, _ => exhausted
  | fuel + 1, done => do
    if ← seesMark "\x7d" then return done.reverse
    else
      let key ← expression fuel
      let pos ← consume (.mark ":")
      let value ← expression fuel
      let done := Entry.mk key pos value :: done
      if ← seesMark "," then
        let _ ← advance
        entries fuel done
      else return done.reverse

/-- Reads the clauses of a collected list up to its closing bracket. -/
def clauses : Nat → List Clause → Parse (List Clause)
  | 0, _ => exhausted
  | fuel + 1, done => do
    let s ← get
    match s.token with
    | .mark "]" =>
      let _ ← advance
      return done.reverse
    | .word "for" =>
      let pos ← advance
      let target ← suffixed fuel
      let _ ← consume (.word "in")
      let container ← level fuel 0
      clauses fuel (.each pos target container :: done)
    | .word "if" =>
      let _ ← advance
      let condition ← level fuel 0
      clauses fuel (.only condition :: done)
    | t => failBehind ("got " ++ t.description ++ ", want ']', for, or if")

end

/-- Reads the parameters of a function behind those already read, the last one first. -/
def parameters : Nat → List Parameter → Parse (List Parameter)
  | 0, _ => exhausted
  | fuel + 1, done => do
    let t ← peek
    if t == .mark ")" || t == .mark ":" || t == .endOfFile then return done.reverse
    else
      if !done.isEmpty then let _ ← consume (.mark ",")
      if ← seesMark ")" then return done.reverse
      else
        let (pos, id) ← name
        if ← seesMark "=" then
          let _ ← advance
          let value ← expression fuel
          parameters fuel ({ pos, name := id, default? := some value } :: done)
        else parameters fuel ({ pos, name := id } :: done)

def smallStmt (fuel : Nat) : Parse Stmt := do
  match ← peek with
  | .word "return" =>
    let pos ← advance
    let t ← peek
    if t == .endOfFile || t == .newline || t == .mark ";" then return .give pos none
    else return .give pos (some (← expression fuel))
  | .word "pass" =>
    let _ ← advance
    return .pass
  | .word "break" => return .leave (← advance)
  | .word "continue" => return .next (← advance)
  | _ =>
    let target ← expression fuel
    match ← peek with
    | .mark "=" =>
      let _ ← advance
      return .assign target (← expression fuel)
    | .mark "+=" =>
      let pos ← advance
      return .add target pos (← expression fuel)
    | _ => return .expr target

/-- Reads the statements of a line behind those already read, the last one first. -/
def simpleStmts : Nat → List Stmt → Parse (List Stmt)
  | 0, _ => exhausted
  | fuel + 1, done => do
    let done := (← smallStmt fuel) :: done
    if ← seesMark ";" then
      let _ ← advance
      let t ← peek
      if t == .newline || t == .endOfFile then ended done else simpleStmts fuel done
    else ended done
where
  /-- Reads the end of the line. -/
  ended (done : List Stmt) : Parse (List Stmt) := do
    if (← peek) != .endOfFile then let _ ← consume .newline
    return done.reverse

mutual

/-- Reads a statement, or the statements of a line. -/
def stmt : Nat → Parse (List Stmt)
  | 0 => exhausted
  | fuel + 1 => do
    match ← peek with
    | .word "def" =>
      let _ ← advance
      let (pos, id) ← name
      let _ ← consume (.mark "(")
      let parameters ← parameters fuel []
      let _ ← consume (.mark ")")
      let _ ← consume (.mark ":")
      return [.define pos id parameters (← body fuel)]
    | .word "if" =>
      let _ ← advance
      return [← choice fuel]
    | .word "for" =>
      let pos ← advance
      let target ← suffixed fuel
      let _ ← consume (.word "in")
      let container ← expression fuel
      let _ ← consume (.mark ":")
      return [.each pos target container (← body fuel)]
    | .word "while" =>
      let _ ← advance
      let condition ← expression fuel
      let _ ← consume (.mark ":")
      return [.repeat condition (← body fuel)]
    | _ => simpleStmts fuel []

def choice : Nat → Parse Stmt
  | 0 => exhausted
  | fuel + 1 => do
    let condition ← expression fuel
    let _ ← consume (.mark ":")
    let yes ← body fuel
    match ← peek with
    | .word "elif" =>
      let _ ← advance
      return .choose condition yes [← choice fuel]
    | .word "else" =>
      let _ ← advance
      let _ ← consume (.mark ":")
      return .choose condition yes (← body fuel)
    | _ => return .choose condition yes []

/-- Reads what stands behind a colon: the rest of the line, or indented lines. -/
def body : Nat → Parse (List Stmt)
  | 0 => exhausted
  | fuel + 1 => do
    if (← peek) == .newline then
      let _ ← advance
      let _ ← consume .indent
      let stmts ← indented fuel []
      let _ ← consume .outdent
      return stmts
    else simpleStmts fuel []

/-- Reads indented lines behind those already read. -/
def indented : Nat → List Stmt → Parse (List Stmt)
  | 0, _ => exhausted
  | fuel + 1, done => do
    let t ← peek
    if t == .outdent || t == .endOfFile then return done
    else
      let more ← stmt fuel
      indented fuel (done ++ more)

end

/-- Reads the statements of a script behind those already read. -/
def statements : Nat → List Stmt → Parse (List Stmt)
  | 0, _ => exhausted
  | fuel + 1, done => do
    match ← peek with
    | .endOfFile => return done
    | .newline =>
      let _ ← advance
      statements fuel done
    | _ =>
      let more ← stmt fuel
      statements fuel (done ++ more)

def parse (source : Bytes) : Except SyntaxFault (List Stmt) := do
  let lexemes := tokenize source
  let start ← State.ofLexemes lexemes
  return (← (statements (32 * lexemes.length + 32) []).run start).1

end SpectrumTape.Script.Grammar
