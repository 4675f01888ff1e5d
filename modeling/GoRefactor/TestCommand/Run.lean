import GoRefactor.TestCommand.Basic

/-!
# Running test commands

A test command runs as a child process in the root directory of the workspace. What a process does
is not known here: `Spawn` is a parameter that says how one ends, from its directory, its words and
the seconds it is given, and whether it can be started at all. What a process does to files is left
out.

`Shell.spawn` is the parameter that the program itself uses. It starts nothing: it carries out
`true`, `false` and `echo`, and shell scripts that are made of these, of `exit` and of `:`. Commands
of a script are joined by semicolons, line breaks and the two logical connectives, words can be
quoted, and output can be sent to the error stream. There are no variables, expansions, pipes or
files, no other program can be started, and no time passes, so nothing is ever killed.
-/

namespace GoRefactor

/-- How a child process ended, and what it printed. -/
structure ProcessEnd where
  /-- Exit status. A process that was killed has none. -/
  status : Option Nat
  /-- It was killed because its time was over. -/
  timedOut : Bool
  /-- Output. -/
  output : String
  /-- Error output; where the time was over, a note that says so. -/
  errors : String
  /-- Milliseconds that it took. -/
  duration : Nat
deriving DecidableEq, Repr, Inhabited

/-- How processes end: from the directory, the program with its arguments and the seconds that they
may take. Those that cannot be started do not end. -/
abbrev Spawn : Type := (directory : String) → (words : List String) → (seconds : Nat) →
  Option ProcessEnd

/-- A test command that ran. -/
structure TestRun extends ProcessEnd where
  /-- The command that ran. -/
  words : List String
deriving DecidableEq, Repr, Inhabited

/-- The command succeeded. -/
def TestRun.success (run : TestRun) : Bool := run.status == some 0

/-- A run as a document. -/
def TestRun.document (run : TestRun) : Json :=
  .object [
    ("success", .bool run.success),
    ("exit_code", .nullable .nat run.status),
    ("timed_out", .bool run.timedOut),
    ("stdout", .string run.output),
    ("stderr", .string run.errors),
    ("duration_ms", .nat run.duration),
    ("command", .strings run.words)]

/-- Run a command. One without words, or with words that no program can be given, does not start. -/
def TestCommand.run (spawn : Spawn) (directory : String) (seconds : Nat) (words : List String) :
    Except Error TestRun :=
  match words with
  | [] => .error (.invalidOptions .emptyTestCommand)
  | program :: _ =>
    match spawn directory words seconds with
    | some ended => .ok ⟨ended, words⟩
    | none => .error (.io (.notRunnable program))

namespace Shell

/-- Pieces of a script. -/
inductive Piece where
  /-- A word. -/
  | word (text : String)
  /-- The end of a command. -/
  | stop
  /-- The next command runs only if this one succeeds. -/
  | ifSucceeds
  /-- The next command runs only if this one fails. -/
  | ifFails
  /-- Output goes to the error stream. -/
  | toErrors
deriving DecidableEq, Repr, Inhabited

/-- How characters are read. -/
inductive Quoting where
  | plain
  | single
  | double
deriving DecidableEq, Repr, Inhabited

/-- The word read so far, which holds its characters with the last one first. -/
def finish (word : Option (List Char)) : List Piece :=
  match word with
  | some chars => [.word (String.ofList chars.reverse)]
  | none => []

/-- The word with a character more. -/
def extend (word : Option (List Char)) (c : Char) : Option (List Char) := some (c :: word.getD [])

/-- Cut a script into pieces. -/
def pieces : Quoting → Option (List Char) → List Char → List Piece
  | _, word, [] => finish word
  | .plain, word, '&' :: '&' :: rest => finish word ++ .ifSucceeds :: pieces .plain none rest
  | .plain, word, '|' :: '|' :: rest => finish word ++ .ifFails :: pieces .plain none rest
  | .plain, some ['1'], '>' :: '&' :: '2' :: rest => .toErrors :: pieces .plain none rest
  | .plain, word, '>' :: '&' :: '2' :: rest =>
    finish word ++ .toErrors :: pieces .plain none rest
  | .plain, word, c :: rest =>
    if c == '\x27' then pieces .single (some (word.getD [])) rest
    else if c == '"' then pieces .double (some (word.getD [])) rest
    else if c == ' ' || c == '\t' then finish word ++ pieces .plain none rest
    else if c == ';' || c == '\n' then finish word ++ .stop :: pieces .plain none rest
    else pieces .plain (extend word c) rest
  | .single, word, c :: rest =>
    if c == '\x27' then pieces .plain word rest else pieces .single (extend word c) rest
  | .double, word, c :: rest =>
    if c == '"' then pieces .plain word rest else pieces .double (extend word c) rest

/-- A command of a script. -/
structure Command where
  /-- Whether it runs, given the status of the command before. -/
  runsAfter : Nat → Bool
  /-- The program and its arguments. -/
  words : List String
  /-- Output goes to the error stream. -/
  toErrors : Bool

/-- Commands of a script, with the words of the current one so far. -/
def commands (current : Command) : List Piece → List Command
  | [] => [current]
  | .word text :: rest => commands { current with words := current.words ++ [text] } rest
  | .toErrors :: rest => commands { current with toErrors := true } rest
  | .stop :: rest => current :: commands ⟨fun _ => true, [], false⟩ rest
  | .ifSucceeds :: rest => current :: commands ⟨fun status => status == 0, [], false⟩ rest
  | .ifFails :: rest => current :: commands ⟨fun status => status != 0, [], false⟩ rest

/-- A script under way. -/
structure State where
  /-- Status of the last command. -/
  status : Nat := 0
  /-- Output so far. -/
  output : String := ""
  /-- Error output so far. -/
  errors : String := ""
  /-- The script came to its end early. -/
  ended : Bool := false

/-- Status and output of a plain program. -/
def plainProgram? (name : String) (arguments : List String) : Option (Nat × String) :=
  match name with
  | "true" => some (0, "")
  | "false" => some (1, "")
  | "echo" =>
    match arguments with
    | "-n" :: rest => some (0, " ".intercalate rest)
    | _ => some (0, " ".intercalate arguments ++ "\n")
  | _ => none

/-- Carry out one command of a script. -/
def step (state : State) (command : Command) : State :=
  if state.ended || !command.runsAfter state.status then state
  else
    match command.words with
    | [] => state
    | "exit" :: arguments =>
      let status := (arguments.head?.bind String.toNat?).getD state.status
      { state with status := status % 256, ended := true }
    | ":" :: _ => { state with status := 0 }
    | name :: arguments =>
      match plainProgram? name arguments with
      | some (status, output) =>
        if command.toErrors then { state with status, errors := state.errors ++ output }
        else { state with status, output := state.output ++ output }
      | none =>
        { state with status := 127, errors := state.errors ++ s!"sh: 1: {name}: not found\n" }

/-- Carry out a script. -/
def run (script : String) : State :=
  (commands ⟨fun _ => true, [], false⟩ (pieces .plain none script.toList)).foldl step {}

/-- The words can be handed to a program: none of them holds a null character. -/
def isPassable (words : List String) : Bool :=
  !words.any fun word => word.toList.contains '\x00'

/-- Carry out a command that needs no other program. -/
def spawn : Spawn := fun _ words _ =>
  if !isPassable words then none
  else
    match words with
    | ["sh", "-c", script] =>
      let state := run script
      some ⟨some state.status, false, state.output, state.errors, 0⟩
    | name :: arguments =>
      (plainProgram? name arguments).map fun (status, output) =>
        ⟨some status, false, output, "", 0⟩
    | [] => none

end Shell

end GoRefactor
