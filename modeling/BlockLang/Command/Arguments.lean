/-! # Command line arguments

A command names one file and may switch three things on. Flags stand anywhere
before `--`, short ones also in groups. The arguments are read from left to
right, and the first one that asks for the version or the help, or that cannot
be understood, decides; whether a file is missing or a flag repeated is looked
at in the end.
-/
namespace BlockLang.Command

inductive Flag where
  /-- Print the token listing before parsing. -/
  | tokens
  /-- Print the outline of the tree before running. -/
  | tree
  /-- Stop after parsing. -/
  | check
deriving DecidableEq

inductive Switch where
  | flag (flag : Flag)
  | version
  | help

inductive Invocation where
  | run (file : String) (flags : List Flag)
  | version
  | help
  | misuse

def long? : String → Option Switch
  | "tokens" => some (.flag .tokens)
  | "tree" => some (.flag .tree)
  | "check" => some (.flag .check)
  | "version" => some .version
  | "help" => some .help
  | _ => none

def short? : Char → Option Switch
  | 't' => some (.flag .tokens)
  | 'p' => some (.flag .tree)
  | 'c' => some (.flag .check)
  | 'V' => some .version
  | 'h' => some .help
  | _ => none

/-- Adds switches to the flags seen so far, unless one of them decides the invocation. -/
def addSwitches (flags : List Flag) : List (Option Switch) → Except Invocation (List Flag)
  | [] => .ok flags
  | some (.flag flag) :: rest => addSwitches (flag :: flags) rest
  | some .version :: _ => .error .version
  | some .help :: _ => .error .help
  | none :: _ => .error .misuse

/-- The switches of an argument that begins with a dash and is no single dash. The name of a long
option ends before an equals sign. -/
def switchesOf (text : List Char) : List (Option Switch) :=
  let name := text.dropWhile (· == '-')
  match text with
  | '-' :: '-' :: _ => [long? (String.ofList (name.takeWhile (· != '=')))]
  | _ => name.map short?

def finish (flags : List Flag) : Option String → Invocation
  | some file => if flags.Nodup then .run file flags else .misuse
  | none => .misuse

/-- Reads arguments of which none is an option. -/
def readFiles (flags : List Flag) (file : Option String) : List String → Invocation
  | [] => finish flags file
  | argument :: rest =>
    match file with
    | none => readFiles flags (some argument) rest
    | some _ => .misuse

def readFrom (flags : List Flag) (file : Option String) : List String → Invocation
  | [] => finish flags file
  | argument :: rest =>
    if argument = "--" then
      readFiles flags file rest
    else if argument.toList.head? = some '-' ∧ argument ≠ "-" then
      match addSwitches flags (switchesOf argument.toList) with
      | .ok flags => readFrom flags file rest
      | .error invocation => invocation
    else
      match file with
      | none => readFrom flags (some argument) rest
      | some _ => .misuse

def Invocation.ofArguments (arguments : List String) : Invocation :=
  readFrom [] none arguments

end BlockLang.Command
