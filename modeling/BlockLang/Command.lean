import BlockLang.Command.Arguments
import BlockLang.Execution.Machine
import BlockLang.Token.Listing
import BlockLang.Token.Scan
import BlockLang.Tree.Outline
import BlockLang.Tree.Parse

/-! # The command

A command scans, parses and runs one file. Each stage reports its errors and
their number on the error output, and a stage with errors is the last one. The
exit status says which stage that was.
-/
namespace BlockLang.Command

structure Outcome where
  status : Nat
  stdout : String
  stderr : String

def Outcome.misused : Outcome := ⟨64, "", ""⟩

inductive Unreadable where
  | missing
  | directory
  | encoding
  | other (reason : String)

def Unreadable.reason : Unreadable → String
  | .missing => "No such file or directory (os error 2)"
  | .directory => "Is a directory (os error 21)"
  | .encoding => "stream did not contain valid UTF-8"
  | .other reason => reason

def unreadable (file : String) (cause : Unreadable) : Outcome :=
  ⟨66, "", s!"Could not read '{file}': {cause.reason}\n"⟩

def version : Outcome := ⟨0, "cmm 0.1.0\n", ""⟩

def help : Outcome :=
  ⟨0, "cmm [-t | --tokens] [-p | --tree] [-c | --check] FILE\n", ""⟩

def printed (lines : List String) : String :=
  String.join (lines.map (· ++ "\n"))

def summary (stage : String) (reports : List String) : String :=
  printed (reports ++ [s!"{reports.length} {stage} error(s)"])

/-- What precedes a run: the output of scanning and parsing, and the program unless the command
ends there. -/
structure Preparation where
  outcome : Outcome
  program? : Option Node

def prepare (flags : List Flag) (source : String) : Preparation :=
  let (tokens, lexical) := Scan.ofText source
  let listing := if flags.contains .tokens then Token.listing tokens else ""
  let scanned := summary "lexical" (lexical.map LexicalError.report)
  if !lexical.isEmpty then
    ⟨⟨65, listing, scanned⟩, none⟩
  else
    let (program, wrong) := Parse.program tokens
    let shown := listing ++ (if flags.contains .tree then program.outline else "")
    let parsed := scanned ++ summary "syntax" (wrong.map SyntaxError.report)
    if !wrong.isEmpty then
      ⟨⟨65, shown, parsed⟩, none⟩
    else if flags.contains .check then
      ⟨⟨0, shown, parsed⟩, none⟩
    else
      ⟨⟨0, shown, parsed⟩, some program⟩

def conclude (state : State) : Outcome :=
  let errors := state.errors.toList
  ⟨if errors.isEmpty then 0 else 70, "", summary "runtime" (errors.map RuntimeError.report)⟩

def inputLine (line : String) : String :=
  String.ofList
    ((line.toList.reverse.dropWhile fun c => c == '\n' || c == '\r').reverse)

def inputs (text : String) : List String :=
  (text.splitOn "\n").map inputLine

def run (flags : List Flag) (source input : String) : Outcome :=
  let preparation := prepare flags source
  match preparation.program? with
  | none => preparation.outcome
  | some program =>
    let final := (Machine.ofProgram (.start (.ofFeed (inputs input))) program).finish
    let conclusion := conclude final
    ⟨conclusion.status, preparation.outcome.stdout ++ printed final.output.toList,
      preparation.outcome.stderr ++ conclusion.stderr⟩

/-- The outcome of an invocation, if `read` looks files up and `input` is the input text. -/
def invoke (read : String → Except Unreadable String) (input : String) : Invocation → Outcome
  | .run file flags =>
    match read file with
    | .ok source => run flags source input
    | .error cause => unreadable file cause
  | .version => version
  | .help => help
  | .misuse => .misused

end BlockLang.Command
