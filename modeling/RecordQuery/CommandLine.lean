import RecordQuery.Journal

/-! # The command line

Arguments are read from left to right. An option takes its value from the same argument or the next one, letters of options
may share a dash, and after two dashes nothing is an option. What a command needs to be read, a file or the standard input,
is said before it runs, so that running it is a function of what was read. -/

namespace RecordQuery

/-- Why arguments are refused. -/
inductive UsageError where
  | noCommand
  | unknownCommand (name : String)
  | unexpected (argument : String)
  | missingValue (option : String)
  | unneededValue (option : String)
  | repeated (option : String)
  | conflict (option other : String)
  | missingQuery
  deriving DecidableEq, Repr

def UsageError.message : UsageError → String
  | .noCommand => "a command is required: check or docs"
  | .unknownCommand name => s!"unrecognized command '{name}'"
  | .unexpected argument => s!"unexpected argument '{argument}'"
  | .missingValue option => s!"a value is required for '--{option}'"
  | .unneededValue option => s!"no value can be given to '--{option}'"
  | .repeated option => s!"'--{option}' cannot be used multiple times"
  | .conflict option other => s!"'--{option}' cannot be used with '--{other}'"
  | .missingQuery => "a query is required"

/-- What ends the reading of arguments before a command is found. -/
inductive Exit where
  | usage (e : UsageError)
  | help
  | version
  deriving DecidableEq, Repr

/-- The options of `check` that stand alone. -/
inductive Flag where
  | compact
  | validateOnly
  | showTree
  | help
  deriving DecidableEq, Repr

/-- The options of `check` that take a value. -/
inductive Setting where
  | input
  | file
  deriving DecidableEq, Repr

def Flag.name : Flag → String
  | .compact => "compact"
  | .validateOnly => "syntax-only"
  | .showTree => "show-ast"
  | .help => "help"

def Setting.name : Setting → String
  | .input => "input"
  | .file => "file"

/-- The option of that name. -/
def optionOfName? (name : String) : Option (Flag ⊕ Setting) :=
  (([.compact, .validateOnly, .showTree, .help].find? (·.name == name)).map .inl).or
    (([.input, .file].find? (·.name == name)).map .inr)

/-- The option of that letter. -/
def optionOfLetter? : Char → Option (Flag ⊕ Setting)
  | 'c' => some (.inl .compact)
  | 'h' => some (.inl .help)
  | 'i' => some (.inr .input)
  | 'f' => some (.inr .file)
  | _ => none

/-- The arguments of `check` as far as they have been read. -/
structure CheckArguments where
  query : Option String
  input : Option String
  file : Option String
  compact : Bool
  validateOnly : Bool
  showTree : Bool
  deriving Repr

namespace CheckArguments

def none : CheckArguments := ⟨.none, .none, .none, false, false, false⟩

/-- Take an option that stands alone. -/
def setFlag (a : CheckArguments) (flag : Flag) : Except Exit CheckArguments :=
  let repeated := .error (.usage (.repeated flag.name))
  match flag with
  | .compact => if a.compact then repeated else .ok { a with compact := true }
  | .validateOnly => if a.validateOnly then repeated else .ok { a with validateOnly := true }
  | .showTree => if a.showTree then repeated else .ok { a with showTree := true }
  | .help => .error .help

/-- Take an option with its value. The name of a file is not empty. -/
def setValue (a : CheckArguments) (setting : Setting) (value : String) : Except Exit CheckArguments :=
  let repeated := .error (.usage (.repeated setting.name))
  match setting with
  | .input => if a.input.isSome then repeated else .ok { a with input := some value }
  | .file =>
    if a.file.isSome then repeated
    else if value.isEmpty then .error (.usage (.missingValue setting.name))
    else .ok { a with file := some value }

/-- Take the query. -/
def setQuery (a : CheckArguments) (query : String) : Except Exit CheckArguments :=
  if a.query.isSome then .error (.usage (.unexpected query)) else .ok { a with query := some query }

/-- Take options by their letters. A letter that takes a value takes the rest of them, without an equals sign in front; if
there is no rest, its value is still to come. -/
def setLetters (a : CheckArguments) : List Char → Except Exit (CheckArguments × Option Setting)
  | [] => .ok (a, .none)
  | c :: cs =>
    match optionOfLetter? c with
    | .none => .error (.usage (.unexpected (String.ofList ['-', c])))
    | some (.inl flag) =>
      match a.setFlag flag with
      | .error e => .error e
      | .ok a => a.setLetters cs
    | some (.inr setting) =>
      match cs with
      | [] => .ok (a, some setting)
      | '=' :: value => (a.setValue setting (String.ofList value)).map (·, .none)
      | value => (a.setValue setting (String.ofList value)).map (·, .none)

/-- Take an option by its name, which a value may follow after an equals sign. -/
def setNamed (a : CheckArguments) (cs : List Char) : Except Exit (CheckArguments × Option Setting) :=
  let name := String.ofList (cs.takeWhile (· ≠ '='))
  match optionOfName? name, cs.dropWhile (· ≠ '=') with
  | .none, _ => .error (.usage (.unexpected ("--" ++ String.ofList cs)))
  | some (.inl flag), [] => (a.setFlag flag).map (·, .none)
  | some (.inl flag), _ :: _ => .error (.usage (.unneededValue flag.name))
  | some (.inr setting), [] => .ok (a, some setting)
  | some (.inr setting), _ :: value => (a.setValue setting (String.ofList value)).map (·, .none)

/-- Read the arguments after `check`. `pending` is an option whose value is still to come, and after two dashes `plain` is
true. -/
def readFrom (a : CheckArguments) (pending : Option Setting) (plain : Bool) :
    List String → Except Exit CheckArguments
  | [] =>
    match pending with
    | .none => .ok a
    | some setting => .error (.usage (.missingValue setting.name))
  | arg :: args =>
    match pending, plain, arg.toList with
    | some setting, _, '-' :: _ :: _ => .error (.usage (.missingValue setting.name))
    | some setting, _, _ =>
      match a.setValue setting arg with
      | .error e => .error e
      | .ok a => a.readFrom .none plain args
    | .none, false, ['-', '-'] => a.readFrom .none true args
    | .none, false, '-' :: '-' :: name =>
      match a.setNamed name with
      | .error e => .error e
      | .ok (a, pending) => a.readFrom pending false args
    | .none, false, '-' :: c :: letters =>
      match a.setLetters (c :: letters) with
      | .error e => .error e
      | .ok (a, pending) => a.readFrom pending false args
    | .none, _, _ =>
      match a.setQuery arg with
      | .error e => .error e
      | .ok a => a.readFrom .none plain args

end CheckArguments

/-- Where the records of a check come from. The standard input has none if it is a terminal. -/
inductive Source where
  | nothing
  | given (text : String)
  | file (path : String)
  | standardInput
  deriving DecidableEq, Repr

/-- A command with its arguments. -/
inductive Command where
  | check (c : Check) (source : Source)
  | docs (topic : Option String)
  deriving Repr

namespace Command

/-- The check that complete arguments ask for. A file is read even if its content is not looked at. -/
def ofCheckArguments (a : CheckArguments) : Except Exit Command :=
  match a.query with
  | none => .error (.usage .missingQuery)
  | some query =>
    if a.input.isSome && a.file.isSome then .error (.usage (.conflict "input" "file"))
    else if a.showTree && a.validateOnly then .error (.usage (.conflict "show-ast" "syntax-only"))
    else
      let source :=
        match a.input, a.file with
        | some text, _ => .given text
        | none, some path => .file path
        | none, none => if a.validateOnly || a.showTree then .nothing else .standardInput
      .ok (.check ⟨query, none, a.compact, a.validateOnly, a.showTree⟩ source)

/-- Read the arguments after `docs`: at most one topic. -/
def ofTopic (topic : Option String) (plain : Bool) : List String → Except Exit Command
  | [] => .ok (.docs topic)
  | arg :: args =>
    match plain, arg.toList with
    | false, ['-', '-'] => ofTopic topic true args
    | false, '-' :: 'h' :: _ => .error .help
    | false, '-' :: _ :: _ => .error (if arg = "--help" then .help else .usage (.unexpected arg))
    | _, _ => if topic.isSome then .error (.usage (.unexpected arg)) else ofTopic (some arg) plain args

/-- What `help` ends in: there is help on the program and on each of its commands. -/
def helpOn : List String → Exit
  | [] | ["check"] | ["docs"] | ["help"] => .help
  | name :: _ => .usage (.unknownCommand name)

/-- The command that the arguments ask for. -/
def ofArguments : List String → Except Exit Command
  | [] => .error (.usage .noCommand)
  | arg :: args =>
    if arg = "check" then
      match CheckArguments.none.readFrom none false args with
      | .error e => .error e
      | .ok a => ofCheckArguments a
    else if arg = "docs" then ofTopic none false args
    else if arg = "help" then .error (helpOn args)
    else if arg = "--help" then .error .help
    else if arg = "--version" then .error .version
    else
      match arg.toList with
      | '-' :: 'V' :: _ => .error .version
      | '-' :: 'h' :: _ => .error .help
      | '-' :: _ :: _ => .error (.usage (.unexpected arg))
      | _ => .error (.usage (.unknownCommand arg))

end Command

/-- What a run leaves: the exit code and the two streams. -/
structure Reply where
  code : Nat
  stdout : String
  stderr : String
  deriving DecidableEq, Repr

namespace Reply

/-- The usage in short. -/
def usage : String :=
  "Usage: jlinq check <QUERY> [--input <INPUT> | --file <FILE>] [--compact] [--syntax-only | --show-ast]\n" ++
    "       jlinq docs [TOPIC]\n       jlinq --version\n"

/-- The reply to arguments that ask for no command. -/
def ofExit : Exit → Reply
  | .usage e => ⟨2, "", s!"error: {e.message}\n\n" ++ usage⟩
  | .help => ⟨0, usage, ""⟩
  | .version => ⟨0, "jlinq 0.1.0\n", ""⟩

/-- A text or an error after a journal. -/
def ofResult (journal : String) : Except CommandError String → Reply
  | .ok text => ⟨0, text, journal⟩
  | .error e => ⟨1, "", journal ++ e.message ++ "\n"⟩

/-- The reply to a check of records that have been read, or could not be. -/
def ofCheck (verbosity : Verbosity) (c : Check) : Except ReadFault (Option String) → Reply
  | .error e => ofResult "" (.error (.read e))
  | .ok input =>
    let c := { c with input }
    let events := c.journal.filter (·.isShown verbosity)
    ofResult (String.join (events.map fun e => e.line ++ "\n")) (c.run.map fun outcome => outcome.text ++ "\n")

end Reply

end RecordQuery
