/-!
# Command line

The words that the program is called with. A command, its configuration file, and the format of
the log, which may be chosen before the command or after it. Words are read from left to right,
and the first one that asks for help or that cannot be understood settles what happens. The value
of an option before the command is looked at after the words behind the command, if it is a word of
its own.
-/

namespace Rollout

inductive LogFormat where
  | text
  | json
  deriving DecidableEq, Repr

def LogFormat.ofName? (name : String) : Option LogFormat :=
  if name = "text" then some .text else if name = "json" then some .json else none

inductive Command where
  | run (config : String)
  | checkConfig (config : String)
  deriving DecidableEq, Repr

namespace Command

/-- The path of the configuration. -/
def config : Command → String
  | .run path | .checkConfig path => path

/-- The command with this name, which takes the path of the configuration. -/
def ofName? (name : String) : Option (String → Command) :=
  if name = "run" then some .run else if name = "check-config" then some .checkConfig else none

end Command

/-- What the words ask for. -/
inductive Invocation where
  | help
  | misuse
  | command (format : LogFormat) (c : Command)
  deriving DecidableEq, Repr

namespace CommandLine

inductive Word where
  /-- Two hyphens alone, after which no word is an option. -/
  | escape
  | long (name : String) (value : Option String)
  | short (first : Char)
  | plain
  deriving DecidableEq, Repr

def Word.ofString (word : String) : Word :=
  match word.toList with
  | ['-', '-'] => .escape
  | '-' :: '-' :: rest =>
    let name := rest.takeWhile (· ≠ '=')
    .long (String.ofList name)
      (match rest.drop name.length with
        | [] => none
        | _ :: value => some (String.ofList value))
  | '-' :: c :: _ => .short c
  | _ => .plain

/-- An option with its value. -/
abbrev Setting := String × String

def isSound : Setting → Bool
  | (name, value) => if name = "log-format" then (LogFormat.ofName? value).isSome else value ≠ ""

/-- Adds an option that has not been given before. -/
def settle (settings : List Setting) : Option Setting → Option (List Setting)
  | none => some settings
  | some s =>
    if isSound s && (settings.lookup s.1).isNone then some (s :: settings) else none

/-- What a row of options leads to. -/
inductive Scan where
  | help
  | misuse
  /-- A word that is no option, with the option before it whose value has not been looked at. -/
  | word (settings : List Setting) (pending : Option Setting) (name : String) (rest : List String)
  | finished (settings : List Setting)

/-- Reads options with these names and their values. -/
def scan (names : List String) (settings : List Setting) (pending : Option Setting) :
    List String → Scan
  | [] => (settle settings pending).elim .misuse .finished
  | word :: rest =>
    match Word.ofString word with
    | .plain => .word settings pending word rest
    | .escape =>
      if rest = [] then (settle settings pending).elim .misuse .finished else .misuse
    | .short c =>
      if c = 'h' && (settle settings pending).isSome then .help else .misuse
    | .long name value =>
      match settle settings pending with
      | none => .misuse
      | some settings =>
        if name = "help" && value = none then .help
        else if names.contains name then
          match value, rest with
          | some value, rest =>
            match settle settings (some (name, value)) with
            | none => .misuse
            | some settings => scan names settings none rest
          | none, [] => .misuse
          | none, value :: rest =>
            if Word.ofString value = .plain then scan names settings (some (name, value)) rest
            else .misuse
        else .misuse
termination_by words => words.length

/-- The words after the one that asks for help: the name of a command, or nothing. -/
def help : List String → Invocation
  | [] => .help
  | [name] => if (Command.ofName? name).isSome || name = "help" then .help else .misuse
  | _ => .misuse

def formatOf (settings : List Setting) : Option LogFormat :=
  (settings.lookup "log-format").bind LogFormat.ofName?

/-- The words after a command, whose options may repeat the format given before it. -/
def command (make : String → Command) (settings : List Setting) (pending : Option Setting)
    (words : List String) : Invocation :=
  match scan ["log-format", "config"] [] none words with
  | .help => .help
  | .misuse | .word _ _ _ _ => .misuse
  | .finished own =>
    match own.lookup "config", settle settings pending with
    | some path, some settings =>
      .command ((formatOf own <|> formatOf settings).getD .text) (make path)
    | _, _ => .misuse

def parse (words : List String) : Invocation :=
  match scan ["log-format"] [] none words with
  | .help => .help
  | .misuse | .finished _ => .misuse
  | .word settings pending name rest =>
    if name = "help" then help rest
    else
      match Command.ofName? name with
      | none => .misuse
      | some make => command make settings pending rest

end CommandLine
end Rollout
