import RecordQuery.Methods
import RecordQuery.Query.Expr
import RecordQuery.Value.Order

/-! # Evaluating a query

Each call is compiled: its body becomes a predicate on one record, and its method makes a stage of that. All calls are
compiled before any stage runs, the last call first, so whether a query fails depends on the query alone. The stages then
run in the order of the calls. -/

namespace RecordQuery

/-- Why a tree cannot be evaluated. -/
inductive EvalError where
  | unknownMethod (name : String)
  | unsupported (kind : String)
  | unbound (name parameter : String)
  deriving DecidableEq, Repr

def EvalError.message : EvalError → String
  | .unknownMethod name => s!"unknown method '{name}'"
  | .unsupported kind => s!"unsupported expression: {kind} cannot be evaluated here"
  | .unbound name parameter => s!"unbound identifier '{name}': lambda parameter is '{parameter}'"

/-- Whether two values stand in the relation of the operator. -/
def CompareOp.holds (op : CompareOp) (left right : Value) : Bool :=
  match op with
  | .equal => left.strictEq right
  | .notEqual => !left.strictEq right
  | .less => left.order? right == some .lt
  | .greater => left.order? right == some .gt
  | .lessEqual => left.order? right == some .lt || left.order? right == some .eq
  | .greaterEqual => left.order? right == some .gt || left.order? right == some .eq

/-- The predicate that holds where both predicates hold, or one of them. -/
def LogicalOp.combine (op : LogicalOp) (p q : Predicate) : Predicate :=
  match op with
  | .and => fun r => p r && q r
  | .or => fun r => p r || q r

/-- The value of a keyword. -/
def Keyword.value : Keyword → Value
  | .true => .bool Bool.true
  | .false => .bool Bool.false
  | .null => .null

/-- One side of a comparison: fields of the record, or a value. -/
inductive Operand where
  | fields (names : List String)
  | constant (v : Value)

/-- The value of an operand for a record. -/
def Operand.resolve (record : Value) : Operand → Value
  | .fields names => record.walk names
  | .constant v => v

/-- The methods that may be called, and whether a path has to start with the parameter of its lambda. -/
structure Evaluator where
  methods : Methods
  checksParameter : Bool

namespace Evaluator

/-- An evaluator of the standard methods that looks at no parameter. -/
def standard : Evaluator := ⟨.standard, false⟩

section Compiling

variable (ev : Evaluator) (parameter : String)

/-- The fields that a path reads. -/
def path (p : Path) : Except EvalError Operand :=
  if ev.checksParameter ∧ p.root ≠ parameter then .error (.unbound p.root parameter) else .ok (.fields p.fields)

/-- One side of a comparison. -/
def operand : Expr → Except EvalError Operand
  | .path p => ev.path parameter p
  | .number n => .ok (.constant (.integer n))
  | .string s => .ok (.constant (.string s))
  | .keyword k => .ok (.constant k.value)
  | e => .error (.unsupported e.kindName)

/-- The predicate of a tree that stands as a condition. The left side of an operator is compiled before the right one. -/
def condition : Expr → Except EvalError Predicate
  | .logical ⟨op, left, right⟩ =>
    match condition left with
    | .error e => .error e
    | .ok p => (condition right).map (op.combine p)
  | .comparison op left right =>
    match ev.operand parameter left with
    | .error e => .error e
    | .ok a => (ev.operand parameter right).map fun b record => op.holds (a.resolve record) (b.resolve record)
  | .negation p => (ev.path parameter p).map fun a record => !(a.resolve record).isTruthy
  | .path p => (ev.path parameter p).map fun a record => (a.resolve record).isTruthy
  | .number n => .ok fun _ => (Value.integer n).isTruthy
  | .string s => .ok fun _ => (Value.string s).isTruthy
  | .keyword k => .ok fun _ => k.value.isTruthy
  | e => .error (.unsupported e.kindName)

end Compiling

/-- The stage of a call: its method applied to the predicate of its body. An unknown method is found before the body is
looked at. -/
def stage (ev : Evaluator) (call : Call Expr) : Except EvalError Stage :=
  match ev.methods.get? call.method with
  | none => .error (.unknownMethod call.method)
  | some m => (ev.condition call.lambda.parameter (.logical call.lambda.body)).map m

/-- The stages of the calls, the last of which is compiled first. -/
def stages (ev : Evaluator) : Query → Except EvalError (List Stage)
  | [] => .ok []
  | call :: calls =>
    match ev.stages calls with
    | .error e => .error e
    | .ok later => (ev.stage call).map (· :: later)

/-- The records after all stages, which run from first to last. -/
def runStages (stages : List Stage) (records : List Value) : List Value :=
  stages.foldl (fun rs stage => stage rs) records

/-- What a tree makes of the records. -/
def evaluate (ev : Evaluator) (e : Expr) (records : List Value) : Except EvalError (List Value) :=
  match e with
  | .chain calls => (ev.stages calls).map (runStages · records)
  | e => .error (.unsupported e.kindName)

end Evaluator

end RecordQuery
