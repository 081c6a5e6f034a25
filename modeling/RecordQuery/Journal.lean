import RecordQuery.Check

/-! # The journal of a check

What a check did, step by step, for a reader who wants to follow it: the tokens and calls that were found, the records that
were loaded, and what each stage made of how many. The journal is read off the query and the records; a step that was not
reached has no entry. -/

namespace RecordQuery

open Text

/-- How much of the journal is shown. -/
inductive Verbosity where
  | warn
  | debug
  | trace
  deriving DecidableEq, Repr

/-- The verbosity of a level of that name or number, in letters of either case. The levels from `info` up show nothing of
the journal. -/
def Verbosity.ofName? (name : String) : Option Verbosity :=
  let name := name.toLower
  if name ∈ ["off", "error", "warn", "info", "0", "1", "2", "3"] then some .warn
  else if name ∈ ["debug", "4"] then some .debug
  else if name ∈ ["trace", "5"] then some .trace
  else none

/-- A part of a filter: what is shown of the programs whose names start with `target`. -/
structure Directive where
  target : String
  verbosity : Verbosity

/-- Read a directive: a level for all programs, a target to show in full, or a target and its level. -/
def Directive.ofText? (text : String) : Option Directive :=
  match text.splitOn "=" with
  | [word] => some ((Verbosity.ofName? word).elim ⟨word, .trace⟩ (⟨"", ·⟩))
  | [target, name] => (Verbosity.ofName? name).map (⟨target, ·⟩)
  | _ => none

/-- What a filter, directives with commas between them, lets this program show. The longest of the targets that are meant
for it decides, and the last one of those. -/
def Verbosity.ofFilter? (filter : String) : Option Verbosity :=
  (((filter.splitOn ",").filter (· ≠ "")).mapM Directive.ofText?).map fun directives =>
    let best := directives.foldl (fun best d =>
      if "json_linq".startsWith d.target && best.target.length ≤ d.target.length then d else best) ⟨"", .warn⟩
    best.verbosity

/-- An entry of the journal. -/
inductive Event where
  | scanned (count : Nat)
  | parsedCalls (count : Nat)
  | parsedQuery (kind : String)
  | loaded (records : Nat)
  | compiled (method : String)
  | applied (method : String) (input output : Nat)
  deriving DecidableEq, Repr

namespace Event

/-- The least verbosity that shows the entry. -/
def level : Event → Verbosity
  | .loaded _ | .applied _ _ _ => .debug
  | _ => .trace

/-- Whether the entry is shown. -/
def isShown (verbosity : Verbosity) (e : Event) : Bool :=
  match verbosity, e.level with
  | .trace, _ => true
  | .debug, .debug => true
  | _, _ => false

/-- The line of the entry. -/
def line : Event → String
  | .scanned count => s!"TRACE scanned query count={count}"
  | .parsedCalls count => s!"TRACE parsed method chain calls={count}"
  | .parsedQuery kind => s!"TRACE parsed query kind={quoted kind}"
  | .loaded records => s!"DEBUG loaded input records={records}"
  | .compiled method => s!"TRACE compiled stage method={method}"
  | .applied method input output => s!"DEBUG applied stage method={method} input={input} output={output}"

end Event

namespace Journal

/-- Parsing: the chain of calls, then the whole query. -/
def ofParsing (known : Option (List String)) (ts : List Token) : List Event :=
  match Parsing.chain known ts with
  | .error _ => []
  | .ok (q, rest) =>
    .parsedCalls q.length ::
      match Parsing.ending rest with
      | .error _ => []
      | .ok _ => [.parsedQuery (Expr.chain q).kindName]

/-- Scanning and parsing. -/
def ofText (known : Option (List String)) (text : String) : List Event :=
  match scan text with
  | .error _ => []
  | .ok ts => .scanned ts.length :: ofParsing known ts

/-- Running the stages of the calls, first to last. -/
def ofStages : Query → List Stage → List Value → List Event
  | call :: calls, stage :: stages, records =>
    .applied call.method records.length (stage records).length :: ofStages calls stages (stage records)
  | _, _, _ => []

/-- Compiling the calls, last to first, up to one that fails, and running the stages if none does. -/
def ofEvaluation (ev : Evaluator) (q : Query) (records : List Value) : List Event :=
  (q.reverse.takeWhile fun call => (ev.stage call).toBool).map (.compiled ·.method) ++
    match ev.stages q with
    | .error _ => []
    | .ok stages => ofStages q stages records

end Journal

/-- The journal of a check. -/
def Check.journal (c : Check) : List Event :=
  if c.validateOnly then Journal.ofText (some Methods.standard.names) c.query
  else
    Journal.ofText none c.query ++
      match parse c.query, c.showTree, c.input with
      | .ok q, false, some json =>
        match parseRecords json with
        | .error _ => []
        | .ok records => .loaded records.length :: Journal.ofEvaluation .standard q records
      | _, _, _ => []

end RecordQuery
