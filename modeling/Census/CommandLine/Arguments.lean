/-!
# Command lines

Which command a row of arguments asks for. Arguments are read from left to right; the first one that
decides the outcome ends the reading.

- `Invocation`: what a command line asks for.
- `Invocation.ofArguments`: reads a command line.
-/

namespace Census

/-- The commands by name. -/
inductive Verb where
  | new
  | init
  | check
  | analyze
  | tree
deriving DecidableEq, Repr

namespace Verb

/-- All commands. -/
def all : List Verb := [new, init, check, analyze, tree]

/-- The full name of a command. -/
def name : Verb → String
  | new => "new"
  | init => "init"
  | check => "check"
  | analyze => "analyze"
  | tree => "tree"

/-- The short names of a command. -/
def aliases : Verb → List String
  | new => ["n"]
  | check => ["c"]
  | analyze => ["a"]
  | init => []
  | tree => []

/-- The command with a full or short name. -/
def ofWord? (word : String) : Option Verb :=
  all.find? fun verb => verb.name == word || verb.aliases.contains word

/-- Whether a command works on something that has to be named. -/
def takesOperand : Verb → Bool
  | new => true
  | analyze => true
  | tree => true
  | init => false
  | check => false

/-- Whether a command takes an operand. Projects may have any name; files may not have none. -/
def admits (verb : Verb) (operand : String) : Bool :=
  match verb with
  | new => true
  | analyze => operand != ""
  | tree => operand != ""
  | init => false
  | check => false

end Verb

/-- What a command line asks for. -/
inductive Invocation where
  /-- Run a command, on the operand it takes if it takes one. -/
  | run (verb : Verb) (operand : String)
  /-- Tell the version, perhaps of one command. -/
  | version (verb : Option Verb)
  /-- Tell how the program is used. -/
  | help
  /-- The arguments make no sense. -/
  | misuse
deriving DecidableEq, Repr

namespace Invocation

/-- What an argument is, by its looks. -/
inductive Shape where
  /-- Two hyphens alone: no options follow. -/
  | stop
  /-- A long option. -/
  | long (name : List Char)
  /-- Short options. -/
  | short (letters : List Char)
  /-- Anything else, a lone hyphen included. -/
  | word
deriving DecidableEq, Repr

/-- What an argument is. -/
def shape (argument : String) : Shape :=
  match argument.toList with
  | ['-', '-'] => .stop
  | '-' :: '-' :: name => .long name
  | ['-'] => .word
  | '-' :: letters => .short letters
  | _ => .word

/-- An option. -/
inductive Flag where
  | verbose
  | version
  | help
deriving DecidableEq, Repr

/-- The option with a long name. -/
def longFlag? (name : List Char) : Option Flag :=
  if name = "verbose".toList then some .verbose
  else if name = "version".toList then some .version
  else if name = "help".toList then some .help
  else none

/-- The option with a short name. -/
def shortFlag? (letter : Char) : Option Flag :=
  if letter = 'v' then some .verbose
  else if letter = 'V' then some .version
  else if letter = 'h' then some .help
  else none

/-- Takes options in order, `verb` being the command they follow. One of them may decide the
outcome; otherwise the answer is whether the verbose option has been given, which it may be once. -/
def takeFlags (verb : Option Verb) :
    (verbose : Bool) → List (Option Flag) → Except Invocation Bool
  | verbose, [] => .ok verbose
  | _, none :: _ => .error .misuse
  | _, some .version :: _ => .error (.version verb)
  | _, some .help :: _ => .error .help
  | verbose, some .verbose :: others =>
    if verbose then .error .misuse else takeFlags verb true others

/-- The options that an argument holds, if it holds options. -/
def flags? : Shape → Option (List (Option Flag))
  | .long name => some [longFlag? name]
  | .short letters => some (letters.map shortFlag?)
  | _ => none

/-- Takes an operand, which must be the first one and fit the command. -/
def takeOperand (verb : Verb) (operand : Option String) (argument : String) :
    Except Invocation (Option String) :=
  if operand.isNone && verb.admits argument then .ok (some argument) else .error .misuse

/-- What a command asks for in the end. -/
def complete (verb : Verb) (operand : Option String) : Invocation :=
  match operand with
  | some operand => .run verb operand
  | none => if verb.takesOperand then .misuse else .run verb ""

/-- Reads the arguments after a command. -/
def afterVerb (verb : Verb) (verbose : Bool) (operand : Option String) :
    List String → Except Invocation Invocation
  | [] => .ok (complete verb operand)
  | argument :: others => do
    match shape argument, flags? (shape argument) with
    | .stop, _ => return complete verb (← others.foldlM (takeOperand verb) operand)
    | _, some flags => afterVerb verb (← takeFlags (some verb) verbose flags) operand others
    | _, none => afterVerb verb verbose (← takeOperand verb operand argument) others

/-- Reads the words after a request for help. They name a command, or help itself. -/
def afterHelp : List String → Invocation
  | [] => .help
  | [word] => if word = "help" || (Verb.ofWord? word).isSome then .help else .misuse
  | _ => .misuse

/-- Reads the arguments up to a command. -/
def beforeVerb (verbose : Bool) : List String → Except Invocation Invocation
  | [] => .ok .misuse
  | argument :: others => do
    match shape argument, flags? (shape argument) with
    | .stop, _ => return .misuse
    | _, some flags => beforeVerb (← takeFlags none verbose flags) others
    | _, none =>
      match Verb.ofWord? argument with
      | some verb => afterVerb verb false none others
      | none => return if argument = "help" then afterHelp others else .misuse

/-- What a command line asks for. -/
def ofArguments (arguments : List String) : Invocation :=
  match beforeVerb false arguments with
  | .ok invocation => invocation
  | .error invocation => invocation

end Invocation

end Census
