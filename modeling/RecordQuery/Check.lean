import RecordQuery.Pipeline
import RecordQuery.Query.Outline
import RecordQuery.Topic

/-! # Checking a query

The two commands: check a query, which validates it, shows its tree or runs it on records in JSON text, and show the
documentation of a topic. -/

namespace RecordQuery

/-- Why a file or the standard input cannot be read. -/
inductive ReadFault where
  | missing
  | denied
  | notDirectory
  | isDirectory
  | notText
  deriving DecidableEq, Repr

def ReadFault.message : ReadFault → String
  | .missing => "No such file or directory (os error 2)"
  | .denied => "Permission denied (os error 13)"
  | .notDirectory => "Not a directory (os error 20)"
  | .isDirectory => "Is a directory (os error 21)"
  | .notText => "stream did not contain valid UTF-8"

/-- Why a command fails. -/
inductive CommandError where
  | query (e : QueryError)
  | read (e : ReadFault)
  | noInput
  | unknownTopic (name : String)
  deriving DecidableEq, Repr

def CommandError.message : CommandError → String
  | .query e => e.message
  | .read e => s!"IO error: {e.message}"
  | .noInput => "No input provided. Use --input, --file or pipe JSON to stdin."
  | .unknownTopic name => s!"Unknown topic: '{name}'\nRun 'jlinq docs' to see available topics."

/-- A query to check, the JSON text of its records if there is one, and what is asked of it. -/
structure Check where
  query : String
  input : Option String
  compact : Bool
  validateOnly : Bool
  showTree : Bool
  deriving Repr

/-- What a check gives. -/
inductive Check.Outcome where
  | valid
  | tree (q : Query)
  | output (text : String)

/-- Validate the query, show its tree, or run it. Only a validation knows the names of the methods before the query runs, and
only a run looks at the records, after the query has been parsed. -/
def Check.run (c : Check) : Except CommandError Check.Outcome :=
  if c.validateOnly then
    match parseWith (some Methods.standard.names) c.query with
    | .error e => .error (.query e)
    | .ok _ => .ok .valid
  else
    match parse c.query with
    | .error e => .error (.query e)
    | .ok q =>
      if c.showTree then .ok (.tree q)
      else
        match c.input with
        | none => .error .noInput
        | some json =>
          match parseRecords json with
          | .error e => .error (.query e)
          | .ok records =>
            match Evaluator.standard.evaluate (.chain q) records with
            | .error e => .error (.query (.eval e))
            | .ok kept => .ok (.output ((Value.array kept).toText (if c.compact then .compact else .pretty)))

/-- The text of an outcome. -/
def Check.Outcome.text : Check.Outcome → String
  | .valid => "Syntax is valid"
  | .tree q => Query.outline q
  | .output text => text

/-- The documentation of a topic, or the overview. -/
def documentation : Option String → Except CommandError String
  | none => .ok Topic.overview
  | some name =>
    match Topic.ofName? name with
    | some topic => .ok topic.text
    | none => .error (.unknownTopic name)

end RecordQuery
