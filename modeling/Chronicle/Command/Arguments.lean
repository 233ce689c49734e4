-- Arguments of the program: options that take a value, then a command with
-- options of its own.

namespace Chronicle.Command

inductive Verb where
  | importDocuments
  | read
  | delete
  | stats
  | compact
  deriving DecidableEq

def Verb.name : Verb → String
  | .importDocuments => "import"
  | .read => "read"
  | .delete => "delete"
  | .stats => "stats"
  | .compact => "compact"

def Verb.all : List Verb := [.importDocuments, .read, .delete, .stats, .compact]

def Verb.ofName? (name : String) : Option Verb := Verb.all.find? fun verb => verb.name = name

-- What the program is asked to do.
inductive Request where
  | importDocuments (profile : String) (paths : List String)
  | read (entity : String) (lower upper : Option String)
  | delete (entity : String) (instant : Option String)
  | stats
  | compact
  deriving DecidableEq

structure Invocation where
  config : String
  request : Request
  deriving DecidableEq

-- What there is help on.
inductive Topic where
  | program
  | command (verb : Verb)
  | help
  deriving DecidableEq

-- What ends the reading of arguments early.
inductive Interrupt where
  | misuse
  | help (topic : Topic)
  | version
  deriving DecidableEq

-- An option with a value.
structure Flag where
  letter : Option Char
  name : String
  -- Whether the value is a path, which is never empty.
  isPath : Bool
  deriving DecidableEq

-- What stands between the options of a command.
inductive Words where
  | nothing
  | paths
  -- One word that names a command; everything after it is left to the command.
  | command
  deriving DecidableEq

structure Grammar where
  verb : Option Verb
  flags : List Flag
  words : Words

structure Arguments where
  values : List (String × String)
  words : List String

namespace Arguments

def empty : Arguments := ⟨[], []⟩

def value? (arguments : Arguments) (name : String) : Option String :=
  (arguments.values.find? fun entry => entry.1 = name).map (·.2)

-- An option is given once.
def set (arguments : Arguments) (flag : Flag) (value : String) : Except Interrupt Arguments :=
  if (arguments.value? flag.name).isSome ∨ (flag.isPath ∧ value.isEmpty) then .error .misuse
  else .ok { arguments with values := arguments.values ++ [(flag.name, value)] }

end Arguments

-- One argument by its form.
inductive Form where
  | flag (flag : Flag) (value : Option String)
  | word
  -- Only words follow.
  | separator
  | interrupt (reason : Interrupt)

namespace Grammar

def topic (grammar : Grammar) : Topic := (grammar.verb.map .command).getD .program

def long (grammar : Grammar) (text : List Char) : Form :=
  let name := String.ofList (text.takeWhile (· ≠ '='))
  let value :=
    match text.dropWhile (· ≠ '=') with
    | [] => none
    | _ :: rest => some (String.ofList rest)
  match grammar.flags.find? fun flag => flag.name = name with
  | some flag => .flag flag value
  | none =>
      if value.isSome then .interrupt .misuse
      else if name = "help" then .interrupt (.help grammar.topic)
      else if name = "version" ∧ grammar.verb = none then .interrupt .version
      else .interrupt .misuse

-- The value may follow the letter directly or after an equals sign.
def short (grammar : Grammar) (letter : Char) (text : List Char) : Form :=
  match grammar.flags.find? fun flag => flag.letter = some letter with
  | some flag =>
      match text with
      | [] => .flag flag none
      | '=' :: rest => .flag flag (some (String.ofList rest))
      | _ => .flag flag (some (String.ofList text))
  | none =>
      if letter = 'h' then .interrupt (.help grammar.topic)
      else if letter = 'V' ∧ grammar.verb = none then .interrupt .version
      else .interrupt .misuse

def form (grammar : Grammar) (argument : String) : Form :=
  match argument.toList with
  | ['-', '-'] => .separator
  | '-' :: '-' :: rest => grammar.long rest
  | '-' :: letter :: rest => grammar.short letter rest
  | _ => .word

-- A value may not look like an option.
def isValue (argument : String) : Bool := argument = "-" || argument.toList.head? ≠ some '-'

def addWords (grammar : Grammar) (found : Arguments) (words : List String) :
    Except Interrupt Arguments :=
  match grammar.words with
  | .paths =>
      if words.contains "" then .error .misuse
      else .ok { found with words := found.words ++ words }
  | _ => if words = [] then .ok found else .error .misuse

-- Reads arguments one by one; `pending` is an option that waits for its value.
def read (grammar : Grammar) : (pending : Option Flag) → (found : Arguments) → List String →
    Except Interrupt Arguments
  | none, found, [] => .ok found
  | some _, _, [] => .error .misuse
  | some flag, found, argument :: rest =>
      if isValue argument then do
        read grammar none (← found.set flag argument) rest
      else .error .misuse
  | none, found, argument :: rest =>
      match grammar.form argument with
      | .flag flag none => read grammar (some flag) found rest
      | .flag flag (some value) => do read grammar none (← found.set flag value) rest
      | .separator => grammar.addWords found rest
      | .interrupt reason => .error reason
      | .word =>
          if grammar.words = .command then .ok { found with words := argument :: rest }
          else do read grammar none (← grammar.addWords found [argument]) rest

end Grammar

def configFile : String := "tidemark.toml"

def program : Grammar := ⟨none, [⟨some 'c', "config", true⟩], .command⟩

def grammarOf (verb : Verb) : Grammar :=
  let entity : Flag := ⟨some 'e', "entity", false⟩
  match verb with
  | .importDocuments => ⟨some verb, [⟨some 'p', "profile", false⟩], .paths⟩
  | .read => ⟨some verb, [entity, ⟨none, "from", false⟩, ⟨none, "to", false⟩], .nothing⟩
  | .delete => ⟨some verb, [entity, ⟨none, "at", false⟩], .nothing⟩
  | .stats => ⟨some verb, [], .nothing⟩
  | .compact => ⟨some verb, [], .nothing⟩

def need {α : Type} : Option α → Except Interrupt α
  | some a => .ok a
  | none => .error .misuse

def requestOf (verb : Verb) (arguments : Arguments) : Except Interrupt Request :=
  match verb with
  | .importDocuments => do
      let profile ← need (arguments.value? "profile")
      if arguments.words = [] then throw .misuse
      return .importDocuments profile arguments.words
  | .read => do
      let entity ← need (arguments.value? "entity")
      return .read entity (arguments.value? "from") (arguments.value? "to")
  | .delete => do
      let entity ← need (arguments.value? "entity")
      return .delete entity (arguments.value? "at")
  | .stats => return .stats
  | .compact => return .compact

-- The word `help` and what help is wanted on.
def helpOn : List String → Interrupt
  | [] => .help .program
  | [name] =>
      match Verb.ofName? name with
      | some verb => .help (.command verb)
      | none => if name = "help" then .help .help else .misuse
  | _ => .misuse

def parse (arguments : List String) : Except Interrupt Invocation := do
  let found ← program.read none Arguments.empty arguments
  match found.words with
  | [] => throw .misuse
  | name :: rest =>
      if name = "help" then throw (helpOn rest)
      let verb ← need (Verb.ofName? name)
      let request ← requestOf verb (← (grammarOf verb).read none Arguments.empty rest)
      return ⟨(found.value? "config").getD configFile, request⟩

end Chronicle.Command
