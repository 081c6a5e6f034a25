/-! # Documentation topics

The help that the command line gives on the query language: an overview and one text for each topic. -/

namespace RecordQuery

/-- The topics that have a text. -/
inductive Topic where
  | grammar
  | operators
  | semantics
  deriving DecidableEq, Repr

namespace Topic

/-- The topic of a name, in letters of either case. Lowering the ASCII letters is enough: no other character has a letter of
these names as its lower case. -/
def ofName? (name : String) : Option Topic :=
  let name := name.map Char.toLower
  if name = "syntax" ∨ name = "grammar" then some .grammar
  else if name = "operators" ∨ name = "ops" then some .operators
  else if name = "semantics" ∨ name = "nulls" ∨ name = "types" then some .semantics
  else none

/-- The list of topics and a short reference. -/
def overview : String := "JLINQ DOCUMENTATION

jlinq filters a JSON array of records with a LINQ-style query. Queries start
with `this` (the array) and chain Where calls whose lambdas test each record.

DOCUMENTATION TOPICS

  syntax      Query structure, lambdas, member access and literals
  operators   Comparison, logical and negation operators
  semantics   Truthiness, null propagation and mixed-type comparisons

QUICK REFERENCE

  this                          The input array
  this.Where(x => ...)          Keep records matching the condition
  x.field.nested                Field path on the current record
  == != < > <= >=               Comparisons against a literal
  && || ( )                     Logical combination
  !x.field                      Negated field test

Run 'jlinq docs <topic>' for detailed documentation.
"

/-- What a query looks like. -/
def grammarText : String := "SYNTAX - Query Structure

QUERIES
  this
    The input array, unchanged.

  this.Where(x => condition)
    Keep the records for which the condition holds, in their original order.

  this.Where(x => a).Where(y => b)
    Calls chain left to right; each call filters the previous result.

    Constraints:
      - Where is the only method
      - Method names are case-sensitive

LAMBDAS
  x => condition
    One parameter. Field paths in the condition start with a name for the
    current record, conventionally the parameter.

MEMBER ACCESS
  x.field
  x.field.nested.deeper
    Walk fields of the current record. `x` alone is the record itself.

    Example:
      Input:  [\x7b\"a\": \x7b\"b\": 1\x7d\x7d, \x7b\"a\": null\x7d, \x7b\x7d]
      Query:  this.Where(x => x.a.b == 1)
      Output: [\x7b\"a\": \x7b\"b\": 1\x7d\x7d]

LITERALS
  42  -7              Integers (no decimals or exponents)
  \"text\"              Double-quoted strings, no escape sequences
  true false null     Keywords

GRAMMAR
  linq-expr        ::= 'this' ( '.' method '(' lambda ')' )*
  lambda           ::= identifier '=>' or-expr
  or-expr          ::= and-expr ( '||' and-expr )*
  and-expr         ::= comparison ( '&&' comparison )*
  comparison       ::= member [ cmp-op value ]
                     | value [ cmp-op member ]
                     | '(' or-expr ')'
                     | '!' member
  member           ::= identifier ( '.' identifier )*
  value            ::= number | '-' number | string | true | false | null
"

/-- What the operators of a condition are. -/
def operatorsText : String := "OPERATORS - Comparison and Logical

COMPARISON OPERATORS
  ==    Equal (same type and value)
  !=    Not equal
  <     Less than
  >     Greater than
  <=    Less than or equal
  >=    Greater than or equal

  Examples:
    x.age >= 18
    x.status == \"active\"
    10 < x.count

  Constraints:
    - One side is a field path, the other a literal
    - The literal may be on either side

LOGICAL OPERATORS
  &&    Logical AND (short-circuit, binds tighter)
  ||    Logical OR (short-circuit)
  !     Negates a field test: !x.deleted
  ( )   Grouping

  Examples:
    x.age >= 18 && x.verified
    x.role == \"admin\" || x.role == \"mod\"
    (x.a == 1 || x.b == 2) && !x.hidden

  Constraints:
    - ! applies to a field path only, not to a parenthesized expression
"

/-- What a condition means. -/
def semanticsText : String := "SEMANTICS - Truthiness, Nulls and Types

TRUTHINESS
  A bare field or literal used as a condition is tested for truthiness.

  Falsy:   null, false, 0, \"\", missing fields
  Truthy:  everything else, including [] and \x7b\x7d

NULL PROPAGATION
  A path that runs into a missing field, null, or a non-object yields null.
  It never fails.

  Example:
    Input:  [\x7b\"a\": \x7b\"b\": 1\x7d\x7d, \x7b\"a\": null\x7d, \x7b\x7d]
    Query:  this.Where(x => x.a.b == 1)
    Output: [\x7b\"a\": \x7b\"b\": 1\x7d\x7d]

EQUALITY
  == is true only for the same type and value. Integers and decimals are one
  numeric type: 12 == 12.0. Numbers never equal strings.
  A missing field equals null. != is exactly the negation of ==, so records
  missing the field are kept by `x.field != 5`.

ORDERING
  < > <= >= compare numbers numerically, strings lexicographically and
  booleans with false < true. Any other pairing is false, including null:
  records missing the field are dropped by `x.field >= 0`.
"

/-- The text of a topic. -/
def text : Topic → String
  | .grammar => grammarText
  | .operators => operatorsText
  | .semantics => semanticsText

end Topic

end RecordQuery
