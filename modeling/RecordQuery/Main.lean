import RecordQuery.CommandLine

/-! # The program

Reads what a command needs, prints the reply and exits with its code. The filter in the variable `RUST_LOG` sets how much
of the journal is printed. -/

open RecordQuery

/-- The fault that an error of the system stands for. -/
def faultOf : IO.Error → ReadFault
  | .noFileOrDirectory _ _ _ => .missing
  | .permissionDenied _ _ _ => .denied
  | .inappropriateType _ code _ => if code = 20 then .notDirectory else .isDirectory
  | _ => .missing

/-- The text in some bytes. -/
def textOf (bytes : ByteArray) : Except ReadFault String :=
  match String.fromUTF8? bytes with
  | some text => .ok text
  | none => .error .notText

/-- The records of a check. A terminal is not read. -/
def readSource (source : Source) : IO (Except ReadFault (Option String)) := do
  match source with
  | .nothing => return .ok none
  | .given text => return .ok (some text)
  | .file path =>
    try return (textOf (← IO.FS.readBinFile path)).map some
    catch e => return .error (faultOf e)
  | .standardInput =>
    let stdin ← IO.getStdin
    if ← stdin.isTty then return .ok none
    try return (textOf (← stdin.readBinToEnd)).map some
    catch e => return .error (faultOf e)

/-- The verbosity that the environment asks for. -/
def readVerbosity : IO Verbosity := do
  return ((← IO.getEnv "RUST_LOG").bind Verbosity.ofFilter?).getD .warn

def main (args : List String) : IO UInt32 := do
  let reply ←
    match Command.ofArguments args with
    | .error e => pure (Reply.ofExit e)
    | .ok (.docs topic) => pure (Reply.ofResult "" (documentation topic))
    | .ok (.check c source) => pure (Reply.ofCheck (← readVerbosity) c (← readSource source))
  IO.eprint reply.stderr
  IO.print reply.stdout
  return UInt32.ofNat reply.code
