import RecordQuery.Query.Expr
import RecordQuery.Query.Token
import RecordQuery.Text.Numeral

/-! # Parsing a query

The grammar of queries over lists of tokens:

    query       = 'this' ('.' method '(' name '=>' disjunction ')')* end
    disjunction = conjunction ('||' conjunction)*
    conjunction = comparison ('&&' comparison)*
    comparison  = path [op literal] | literal [op path] | '(' disjunction ')' | '!' path
    path        = name ('.' name)*
    literal     = number | '-' number | string | keyword

There is one function for each rule. It takes the tokens that are left and gives its result with those left after it, or
stops at a token that the rule does not allow. The end of a list of tokens counts as the end of a query. A group in
parentheses takes at least one token, and so does each further operand, so the number of tokens bounds both the depth of
the groups and the length of every chain of operands. -/

namespace RecordQuery

open Text

/-- What the grammar allows where it does not allow the token it finds. -/
inductive Expected where
  | this
  | identifier
  | methodName (known : List String)
  | openParen
  | closeParen
  | arrow
  | comparison
  | literal
  | number
  | numberInRange
  | ending
  deriving DecidableEq, Repr

/-- How a message names what is expected. -/
def Expected.text : Expected → String
  | .this => "'this'"
  | .identifier => "identifier"
  | .methodName known => "method name (" ++ ", ".intercalate known ++ ")"
  | .openParen => "'('"
  | .closeParen => "')'"
  | .arrow => "'=>'"
  | .comparison => "comparison, member access, '(' or '!'"
  | .literal => "value (number, string, true, false or null)"
  | .number => "number"
  | .numberInRange => "number within the 64-bit integer range"
  | .ending => "end of input"

/-- A token that the grammar does not allow where it stands. -/
structure ParseError where
  position : Nat
  expected : Expected
  found : Token.Kind
  foundText : Option String
  deriving DecidableEq, Repr

def ParseError.message (e : ParseError) : String :=
  let text := (e.foundText.map fun t => s!" '{t}'").getD ""
  s!"expected {e.expected.text}, found {e.found.text}{text} at position {e.position}"

/-- Where and why a rule stops: at the first of the tokens that are left, or at a numeral out of range, which is taken. -/
inductive Stop where
  | unexpected (expected : Expected) (rest : List Token)
  | outOfRange (digits : Token) (numeral : String) (rest : List Token)
  deriving DecidableEq, Repr

namespace Stop

/-- The tokens that are left. -/
def rest : Stop → List Token
  | .unexpected _ rest => rest
  | .outOfRange _ _ rest => rest

/-- The error to report. A stop at the end of the list is reported at the position `last`. -/
def error (last : Nat) : Stop → ParseError
  | .unexpected expected rest =>
    let t := rest.head?.getD (.atEnd last)
    ⟨t.position, expected, t.kind, t.text⟩
  | .outOfRange digits numeral _ => ⟨digits.position, .numberInRange, digits.kind, some numeral⟩

end Stop

/-- What a rule gives: a result with the tokens that are left, or a stop. -/
abbrev Parsing (α : Type) := Except Stop (α × List Token)

namespace Parsing

/-- The next token, if it is of the given kind. -/
def token (kind : Token.Kind) (expected : Expected) : List Token → Parsing Token
  | [] => .error (.unexpected expected [])
  | t :: ts => if t.kind = kind then .ok (t, ts) else .error (.unexpected expected (t :: ts))

/-- A name. -/
def name (ts : List Token) : Parsing String := (token .identifier .identifier ts).map fun (t, rest) => (t.lexeme, rest)

/-- Whether the next token is the given operator. -/
def nextIs (symbol : String) (ts : List Token) : Bool := ts.head?.any (·.isOperator symbol)

/-- The names after dots. -/
def fields : List Token → Parsing (List String)
  | [] => .ok ([], [])
  | t :: ts =>
    if t.kind = .dot then
      match ts with
      | [] => .error (.unexpected .identifier [])
      | u :: us =>
        if u.kind = .identifier then (fields us).map fun (names, rest) => (u.lexeme :: names, rest)
        else .error (.unexpected .identifier (u :: us))
    else .ok ([], t :: ts)

/-- A path. -/
def path (ts : List Token) : Parsing Path :=
  match name ts with
  | .error e => .error e
  | .ok (root, rest) => (fields rest).map fun (names, rest) => (⟨root, names⟩, rest)

/-- The number of a numeral, which has been taken, before `rest`. -/
def number (digits : Token) (numeral : String) (rest : List Token) : Parsing Expr :=
  match readInt64? numeral.toList with
  | some n => .ok (.number n, rest)
  | none => .error (.outOfRange digits numeral rest)

/-- A literal. -/
def literal : List Token → Parsing Expr
  | [] => .error (.unexpected .literal [])
  | t :: ts =>
    match t.kind with
    | .number => number t t.lexeme ts
    | .addSub =>
      if t.lexeme = "-" then
        match token .number .number ts with
        | .error e => .error e
        | .ok (digits, rest) => number digits ("-" ++ digits.lexeme) rest
      else .error (.unexpected .literal (t :: ts))
    | .string => .ok (.string t.lexeme, ts)
    | .keyword =>
      match Keyword.ofWord? t.lexeme with
      | some k => .ok (.keyword k, ts)
      | none => .error (.unexpected .literal (t :: ts))
    | _ => .error (.unexpected .literal (t :: ts))

/-- The comparison operator that comes next, with the tokens after it, if one does. -/
def compareOp? : List Token → Option (CompareOp × List Token)
  | [] => none
  | t :: ts => if t.kind = .operator then (CompareOp.ofSymbol? t.lexeme).map (·, ts) else none

/-- A path with the comparison to a literal that may follow it. -/
def pathFirst (ts : List Token) : Parsing Expr :=
  match path ts with
  | .error e => .error e
  | .ok (p, rest) =>
    match compareOp? rest with
    | none => .ok (.path p, rest)
    | some (op, rest) => (literal rest).map fun (v, rest) => (.comparison op (.path p) v, rest)

/-- A literal with the comparison to a path that may follow it. -/
def literalFirst (ts : List Token) : Parsing Expr :=
  match literal ts with
  | .error e => .error e
  | .ok (v, rest) =>
    match compareOp? rest with
    | none => .ok (v, rest)
    | some (op, rest) => (path rest).map fun (p, rest) => (.comparison op v (.path p), rest)

section Conditions

variable (group : List Token → Parsing Condition)

/-- A group, read after its opening parenthesis. -/
def closed (ts : List Token) : Parsing Expr :=
  match group ts with
  | .error e => .error e
  | .ok (c, rest) => (token .closeParen .closeParen rest).map fun (_, rest) => (.logical c, rest)

/-- A comparison, where `group` reads what stands in parentheses. -/
def comparison : List Token → Parsing Expr
  | [] => .error (.unexpected .comparison [])
  | t :: ts =>
    match t.kind with
    | .identifier => pathFirst (t :: ts)
    | .number | .string | .keyword | .addSub => literalFirst (t :: ts)
    | .openParen => closed group ts
    | .operator =>
      if t.lexeme = "!" then (path ts).map fun (p, rest) => (.negation p, rest)
      else .error (.unexpected .comparison (t :: ts))
    | _ => .error (.unexpected .comparison (t :: ts))

end Conditions

section Operands

variable {α : Type} (symbol : String) (operand : List Token → Parsing α)

/-- The operands that follow, each after the symbol, at most as many as the number says. -/
def moreOperands : Nat → List Token → Parsing (List α)
  | 0, ts => .ok ([], ts)
  | k + 1, ts =>
    if nextIs symbol ts then
      match operand ts.tail with
      | .error e => .error e
      | .ok (a, rest) => (moreOperands k rest).map fun (as, rest) => (a :: as, rest)
    else .ok ([], ts)

/-- One or more operands with the symbol between them. -/
def operands (bound : Nat) (ts : List Token) : Parsing (α × List α) :=
  match operand ts with
  | .error e => .error e
  | .ok (a, rest) => (moreOperands symbol operand bound rest).map fun (as, rest) => ((a, as), rest)

end Operands

/-- Comparisons joined by `&&`. -/
def conjunction (group : List Token → Parsing Condition) (bound : Nat) (ts : List Token) : Parsing Condition :=
  (operands "&&" (comparison group) bound ts).map fun ((c, cs), rest) => (Condition.all c cs, rest)

/-- Conjunctions joined by `||`. -/
def disjunction (group : List Token → Parsing Condition) (bound : Nat) (ts : List Token) : Parsing Condition :=
  (operands "||" (conjunction group bound) bound ts).map fun ((c, cs), rest) => (Condition.any c cs, rest)

/-- A condition whose groups are nested less than `depth` deep. -/
def condition (bound : Nat) : Nat → List Token → Parsing Condition
  | 0, ts => .error (.unexpected .comparison ts)
  | depth + 1, ts => disjunction (condition bound depth) bound ts

/-- A lambda. -/
def lambda (bound : Nat) (ts : List Token) : Parsing (Lambda Expr) :=
  match name ts with
  | .error e => .error e
  | .ok (parameter, rest) =>
    if nextIs "=>" rest then (condition bound (bound + 1) rest.tail).map fun (body, rest) => (⟨parameter, body⟩, rest)
    else .error (.unexpected .arrow rest)

/-- The name of a method, one of the known ones if they are given. -/
def methodName (known : Option (List String)) (ts : List Token) : Parsing String :=
  match known, ts with
  | some names, t :: rest =>
    if t.kind = .identifier ∧ t.lexeme ∉ names then .error (.unexpected (.methodName names) (t :: rest))
    else name (t :: rest)
  | _, _ => name ts

/-- A call, read after its dot. -/
def call (known : Option (List String)) (bound : Nat) (ts : List Token) : Parsing (Call Expr) :=
  match methodName known ts with
  | .error e => .error e
  | .ok (method, rest) =>
    match token .openParen .openParen rest with
    | .error e => .error e
    | .ok (_, rest) =>
      match lambda bound rest with
      | .error e => .error e
      | .ok (fn, rest) => (token .closeParen .closeParen rest).map fun (_, rest) => (⟨method, fn⟩, rest)

/-- The calls that follow, at most as many as the number says. -/
def calls (known : Option (List String)) (bound : Nat) : Nat → List Token → Parsing Query
  | 0, ts => .ok ([], ts)
  | _ + 1, [] => .ok ([], [])
  | k + 1, t :: ts =>
    if t.kind = .dot then
      match call known bound ts with
      | .error e => .error e
      | .ok (c, rest) => (calls known bound k rest).map fun (cs, rest) => (c :: cs, rest)
    else .ok ([], t :: ts)

/-- A query without its end. -/
def chain (known : Option (List String)) (ts : List Token) : Parsing Query :=
  match token .this .this ts with
  | .error e => .error e
  | .ok (_, rest) => calls known ts.length ts.length rest

/-- The end of a query. -/
def ending : List Token → Except Stop (List Token)
  | [] => .ok []
  | t :: ts => if t.kind = .ending then .ok ts else .error (.unexpected .ending (t :: ts))

/-- A query with its end. -/
def query (known : Option (List String)) (ts : List Token) : Parsing Query :=
  match chain known ts with
  | .error e => .error e
  | .ok (q, rest) => (ending rest).map (q, ·)

end Parsing

/-- The tokens that are left to a parser, the position of the last token that it was given, and the names that a method may
have, if they are restricted. -/
structure Parser where
  rest : List Token
  last : Nat
  known : Option (List String)
  deriving Repr

namespace Parser

/-- A parser at the first of the tokens. -/
def ofTokens (known : Option (List String)) (ts : List Token) : Parser :=
  ⟨ts, (ts.getLast?.map (·.position)).getD 0, known⟩

/-- The next query, and the parser after it or at the token where it stopped. -/
def next (p : Parser) : Except ParseError Query × Parser :=
  match Parsing.query p.known p.rest with
  | .ok (q, rest) => (.ok q, { p with rest })
  | .error stop => (.error (stop.error p.last), { p with rest := stop.rest })

/-- The next `n` queries. -/
def nextQueries : Nat → Parser → List (Except ParseError Query)
  | 0, _ => []
  | n + 1, p => p.next.1 :: nextQueries n p.next.2

end Parser

/-- The query that a list of tokens makes, with any method names or only the known ones. -/
def parseTokens (known : Option (List String)) (ts : List Token) : Except ParseError Query :=
  (Parser.ofTokens known ts).next.1

end RecordQuery
