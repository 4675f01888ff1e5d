import GoRefactor.Text.Split

/-!
# Command-line arguments

Options with long names, flags and operands. An option takes its value from behind an equals sign
or from the next argument, which must not look like an option. Only options that repeat may be
given twice. After two dashes everything is an operand.
-/

namespace GoRefactor

/-- How often an option is given and what it takes. -/
inductive OptionShape where
  /-- No value, once. -/
  | flag
  /-- A value, once. -/
  | single
  /-- A value, any number of times. -/
  | repeated
  /-- Values with commas between, any number of times. -/
  | list
deriving DecidableEq, Repr, Inhabited

/-- An option. -/
structure OptionSpec where
  /-- Its long name, without dashes. -/
  name : String
  /-- How it is given. -/
  shape : OptionShape
  /-- Values that it takes. -/
  accepts : String → Bool := fun _ => true

/-- Options and operands of a command. -/
structure CommandSpec where
  /-- The options. -/
  options : List OptionSpec
  /-- For each operand the values that it takes; all operands must be given. -/
  operands : List (String → Bool)
  /-- The version can be asked for. -/
  versioned : Bool := false

/-- Why arguments are not understood, or not carried out. -/
inductive UsageFlaw where
  /-- The arguments are not those of any command. -/
  | misuse
  /-- There are no arguments. -/
  | nothingAsked
  /-- Help is asked for. -/
  | help
  /-- The version is asked for. -/
  | version
deriving DecidableEq, Repr, Inhabited

/-- What was given. -/
structure GivenArguments where
  /-- Options with their values, in order. -/
  options : List (String × String) := []
  /-- Operands, in order. -/
  operands : List String := []
deriving DecidableEq, Repr, Inhabited

namespace GivenArguments

/-- The option was given. -/
def has (given : GivenArguments) (name : String) : Bool :=
  given.options.any fun entry => entry.1 == name

/-- Values of an option, in order. -/
def values (given : GivenArguments) (name : String) : List String :=
  (given.options.filter fun entry => entry.1 == name).map Prod.snd

/-- Value of an option that is given once. -/
def value? (given : GivenArguments) (name : String) : Option String :=
  (given.values name).head?

end GivenArguments

/-- The argument looks like an option; a single dash does not. -/
def looksLikeOption (argument : String) : Bool :=
  argument.toList.head? == some '-' && argument != "-"

/-- The argument starts with a short flag; what follows the flag is not looked at. -/
def hasShortFlag (flag : Char) (argument : String) : Bool :=
  match argument.toList with
  | '-' :: c :: _ => c == flag
  | _ => false

/-- Name and attached value of a long option. -/
def longOption? (argument : String) : Option (String × Option String) :=
  match argument.toList with
  | '-' :: '-' :: rest =>
    match rest.span (· != '=') with
    | (name, '=' :: value) => some (String.ofList name, some (String.ofList value))
    | (name, _) => some (String.ofList name, none)
  | _ => none

namespace CommandSpec

/-- The option with a name. -/
def option? (spec : CommandSpec) (name : String) : Option OptionSpec :=
  spec.options.find? fun option => option.name == name

/-- Add an option with its value. -/
def add (given : GivenArguments) (option : OptionSpec) (value : String) :
    Except UsageFlaw GivenArguments :=
  let values := match option.shape with
    | .list => splitText ',' value
    | _ => [value]
  let once := option.shape == .flag || option.shape == .single
  if (once && given.has option.name) || !values.all option.accepts then .error .misuse
  else
    .ok { given with options := given.options ++ values.map fun value => (option.name, value) }

/-- Add an operand. -/
def addOperand (spec : CommandSpec) (given : GivenArguments) (operand : String) :
    Except UsageFlaw GivenArguments :=
  match spec.operands[given.operands.length]? with
  | some accepts =>
    if accepts operand then .ok { given with operands := given.operands ++ [operand] }
    else .error .misuse
  | none => .error .misuse

/-- Take operands only. -/
def takeOperands (spec : CommandSpec) (given : GivenArguments) (arguments : List String) :
    Except UsageFlaw GivenArguments :=
  arguments.foldlM spec.addOperand given

/-- Take arguments up to the first that names a command, or to the end. Gives what was taken, the
name and the arguments behind it. -/
def take (spec : CommandSpec) (isCommand : String → Bool) (given : GivenArguments) :
    List String → Except UsageFlaw (GivenArguments × Option (String × List String))
  | [] => .ok (given, none)
  | "--" :: rest => do
    let given ← spec.takeOperands given rest
    return (given, none)
  | argument :: rest =>
    match longOption? argument with
    | some (name, attached) =>
      if name == "help" && attached.isNone then .error .help
      else if name == "version" && attached.isNone && spec.versioned then .error .version
      else
        match spec.option? name with
        | none => .error .misuse
        | some option =>
          match option.shape, attached with
          | .flag, some _ => .error .misuse
          | .flag, none =>
            match add given option "" with
            | .error flaw => .error flaw
            | .ok given => spec.take isCommand given rest
          | _, some value =>
            match add given option value with
            | .error flaw => .error flaw
            | .ok given => spec.take isCommand given rest
          | _, none =>
            match rest with
            | [] => .error .misuse
            | value :: behind =>
              if looksLikeOption value then .error .misuse
              else
                match add given option value with
                | .error flaw => .error flaw
                | .ok given => spec.take isCommand given behind
    | none =>
      if hasShortFlag 'h' argument then .error .help
      else if hasShortFlag 'V' argument && spec.versioned then .error .version
      else if looksLikeOption argument then .error .misuse
      else if isCommand argument then .ok (given, some (argument, rest))
      else
        match spec.addOperand given argument with
        | .error flaw => .error flaw
        | .ok given => spec.take isCommand given rest

/-- Take the arguments of a command; none of its operands may be missing. -/
def takeAll (spec : CommandSpec) (arguments : List String) : Except UsageFlaw GivenArguments := do
  let (given, _) ← spec.take (fun _ => false) {} arguments
  if given.operands.length == spec.operands.length then return given else .error .misuse

end CommandSpec

end GoRefactor
