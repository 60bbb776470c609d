import BlockLang.Command

/-! # The program

Files are looked up, standard input is read a line at a time and only when the
program asks for it, and what the library answers is printed.
-/
namespace BlockLang.Command

def readSource (file : String) : IO (Except Unreadable String) := do
  try
    match String.fromUTF8? (← IO.FS.readBinFile file) with
    | some source => return .ok source
    | none => return .error .encoding
  catch
    | .noFileOrDirectory .. => return .error .missing
    | .inappropriateType .. => return .error .directory
    | error => return .error (.other (toString error))

def present (outcome : Outcome) : IO UInt32 := do
  IO.print outcome.stdout
  IO.eprint outcome.stderr
  return UInt32.ofNat outcome.status

/-- The next line of input, which is empty once the input has ended or failed. -/
def nextLine (input : IO.FS.Stream) : IO String := do
  try input.getLine catch _ => return ""

/-- Offers one more line to a machine that awaits input, and says whether the input has ended. -/
def feed (input : IO.FS.Stream) (ended : Bool) (machine : Machine) : IO (Bool × Machine) := do
  if machine.awaitsInput then
    let line ← if ended then pure "" else nextLine input
    return (ended || line.isEmpty, machine.offer (inputLine line))
  else
    return (ended, machine)

/-- Runs a machine, prints the lines of output as they appear and returns the last state. -/
partial def interact (input output : IO.FS.Stream) (ended : Bool) (shown : Nat)
    (machine : Machine) : IO State := do
  let (ended, fed) ← feed input ended machine
  match fed.step? with
  | none => return fed.state
  | some next =>
    let lines := next.state.output.extract shown next.state.output.size
    unless lines.isEmpty do
      output.putStr (printed lines.toList)
      output.flush
    interact input output ended next.state.output.size next

def runFile (file : String) (flags : List Flag) : IO UInt32 := do
  match ← readSource file with
  | .error cause => present (unreadable file cause)
  | .ok source =>
    let preparation := prepare flags source
    let status ← present preparation.outcome
    match preparation.program? with
    | none => return status
    | some program =>
      let machine := Machine.ofProgram (.start (.ofFeed [])) program
      present (conclude (← interact (← IO.getStdin) (← IO.getStdout) false 0 machine))

end BlockLang.Command

def main (arguments : List String) : IO UInt32 := do
  match BlockLang.Command.Invocation.ofArguments arguments with
  | .run file flags => BlockLang.Command.runFile file flags
  | .version => BlockLang.Command.present BlockLang.Command.version
  | .help => BlockLang.Command.present BlockLang.Command.help
  | .misuse => BlockLang.Command.present .misused
