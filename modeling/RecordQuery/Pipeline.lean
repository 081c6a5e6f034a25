import RecordQuery.Evaluation
import RecordQuery.Json.Printer
import RecordQuery.Json.Reader
import RecordQuery.Query.Parser
import RecordQuery.Query.Scanner
import RecordQuery.Value.Document

/-! # Running a query

From a query text and records to the records that are kept. The records come as values or as JSON text, and the kept ones
go out in the same ways. -/

namespace RecordQuery

/-- Why a query gives no records. -/
inductive QueryError where
  | lex (e : LexError)
  | parse (e : ParseError)
  | eval (e : EvalError)
  | json (e : Json.ReadError)
  | notArray (typeName : String)
  deriving DecidableEq, Repr

def QueryError.message : QueryError → String
  | .lex e => s!"lex error: {e.message}"
  | .parse e => s!"parse error: {e.message}"
  | .eval e => s!"evaluation error: {e.message}"
  | .json e => s!"invalid JSON: {e.message}"
  | .notArray typeName => s!"records must be a JSON array, got {typeName}"

/-- The query that a text writes, with any method names or only the known ones. -/
def parseWith (known : Option (List String)) (text : String) : Except QueryError Query :=
  match scan text with
  | .error e => .error (.lex e)
  | .ok ts => (parseTokens known ts).mapError .parse

/-- The query that a text writes. -/
def parse (text : String) : Except QueryError Query := parseWith none text

/-- What an evaluator makes of the records by a query. -/
def filterWith (ev : Evaluator) (text : String) (records : List Value) : Except QueryError (List Value) :=
  match parse text with
  | .error e => .error e
  | .ok q => (ev.evaluate (.chain q) records).mapError .eval

/-- The records that a query keeps. -/
def filter (text : String) (records : List Value) : Except QueryError (List Value) :=
  filterWith .standard text records

/-- The records that a query keeps, written as JSON with one item or field to a line. -/
def process (text : String) (records : List Value) : Except QueryError String :=
  (filter text records).map fun kept => (Value.array kept).toJsonPretty

/-- The records in a JSON text, which has to be an array. -/
def parseRecords (json : String) : Except QueryError (List Value) :=
  match Json.read json with
  | .error e => .error (.json e)
  | .ok (.array records) => .ok records
  | .ok v => .error (.notArray v.typeName)

/-- The records that a query keeps of those in a JSON text. The records are read before the query. -/
def processJson (text json : String) : Except QueryError String :=
  match parseRecords json with
  | .error e => .error e
  | .ok records => process text records

end RecordQuery
