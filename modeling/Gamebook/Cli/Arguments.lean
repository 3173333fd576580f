/-!
Command lines. Arguments are read one after the other: switches before the verb and behind it,
their values attached to them or as the next argument, and words. What comes first decides: a
mistake ends the reading where it is found, and so does the wish for the version or for help.
-/

namespace Gamebook.Cli

/-- What the program can be told to do. -/
inductive Verb where
  | parse
  | tokens
  | check
  | symbols
  deriving DecidableEq, Repr, Inhabited

namespace Verb

def all : List Verb := [parse, tokens, check, symbols]

def name : Verb → String
  | parse => "parse"
  | tokens => "tokens"
  | check => "check"
  | symbols => "symbols"

/-- The number of words that a verb needs. -/
def arity : Verb → Nat
  | symbols => 2
  | _ => 1

end Verb

/-- How a tree is shown. -/
inductive Format where
  | outline
  | json
  deriving DecidableEq, Repr, Inhabited

namespace Format

def ofName? : String → Option Format
  | "treeviz" => some outline
  | "json" => some json
  | _ => none

end Format

/-- The switches. -/
inductive Switch where
  | verbose
  | config
  | format
  | version
  | help
  deriving DecidableEq, Repr, Inhabited

namespace Switch

def all : List Switch := [verbose, config, format, version, help]

def letter : Switch → Char
  | verbose => 'v'
  | config => 'c'
  | format => 'f'
  | version => 'V'
  | help => 'h'

def word : Switch → String
  | verbose => "verbose"
  | config => "config"
  | format => "format"
  | version => "version"
  | help => "help"

def takesValue : Switch → Bool
  | config | format => true
  | _ => false

/-- Whether a switch may stand before the verb or behind the given one. -/
def isKnown (verb : Option Verb) : Switch → Bool
  | format => verb == some .parse
  | version => verb.isNone
  | _ => true

def ofLetter? (verb : Option Verb) (letter : Char) : Option Switch :=
  all.find? fun switch => switch.letter == letter && switch.isKnown verb

def ofWord? (verb : Option Verb) (word : List Char) : Option Switch :=
  all.find? fun switch => switch.word.toList == word && switch.isKnown verb

end Switch

/-- Why the reading of a command line ends before there is something to do. -/
inductive Stop where
  | mistake
  | version
  | help
  deriving DecidableEq, Repr, Inhabited

/-- What was read of a command line. -/
structure Given where
  verb : Option Verb := none
  words : List String := []
  config : Option String := none
  format : Format := .outline
  /-- The switches given so far, since the verb if there is one. -/
  seen : List Switch := []
  /-- The switch whose value is to come next. -/
  waiting : Option Switch := none
  /-- Whether all that follows are words. -/
  wordsOnly : Bool := false
  deriving DecidableEq, Repr, Inhabited

namespace Given

/-- Takes a switch; none may be given twice. -/
def see (given : Given) (switch : Switch) : Except Stop Given :=
  if given.seen.contains switch then .error .mistake
  else .ok { given with seen := switch :: given.seen }

/-- Takes a switch without a value. -/
def takeSwitch (given : Given) : Switch → Except Stop Given
  | .version => .error .version
  | .help => .error .help
  | switch => given.see switch

/-- Takes a switch with its value. -/
def takeValue (given : Given) (switch : Switch) (value : List Char) : Except Stop Given := do
  let value := String.ofList value
  let given ← given.see switch
  let given := { given with waiting := none }
  match switch with
  | .config => return { given with config := some value }
  | .format =>
    match Format.ofName? value with
    | some format => return { given with format }
    | none => .error .mistake
  | _ => .error .mistake

/-- Takes a word: a verb where there is none yet, else one of its words. -/
def takeWord (given : Given) (word : String) : Except Stop Given :=
  match given.verb with
  | some verb =>
    if given.words.length < verb.arity then .ok { given with words := given.words ++ [word] }
    else .error .mistake
  | none =>
    if given.wordsOnly then .error .mistake
    else if word == "help" then .error .help
    else
      match Verb.all.find? (·.name == word) with
      | some verb => .ok { given with verb := some verb, seen := [] }
      | none => .error .mistake

/-- Takes a switch by its word, with or without a value behind an equals sign. -/
def takeLong (given : Given) (text : List Char) : Except Stop Given :=
  let word := text.takeWhile (· != '=')
  match Switch.ofWord? given.verb word, text.dropWhile (· != '=') with
  | none, _ => .error .mistake
  | some switch, [] =>
    if switch.takesValue then .ok { given with waiting := some switch }
    else given.takeSwitch switch
  | some switch, _ :: value =>
    if switch.takesValue then given.takeValue switch value else .error .mistake

/-- Takes switches by their letters; what follows the letter of a switch with a value is its
value. -/
def takeLetters (given : Given) : List Char → Except Stop Given
  | [] => .ok given
  | letter :: more =>
    match Switch.ofLetter? given.verb letter with
    | none => .error .mistake
    | some switch =>
      if switch.takesValue then
        match more with
        | [] => .ok { given with waiting := some switch }
        | '=' :: value => given.takeValue switch value
        | value => given.takeValue switch value
      else do
        let given ← given.takeSwitch switch
        takeLetters given more

/-- Takes an argument. -/
def take (given : Given) (argument : String) : Except Stop Given :=
  if given.wordsOnly then given.takeWord argument
  else
    match given.waiting, argument.toList with
    | some switch, ['-'] => given.takeValue switch ['-']
    | some _, '-' :: _ => .error .mistake
    | some switch, value => given.takeValue switch value
    | none, ['-', '-'] => .ok { given with wordsOnly := true }
    | none, '-' :: '-' :: text => given.takeLong text
    | none, ['-'] => given.takeWord argument
    | none, '-' :: letters => given.takeLetters letters
    | none, _ => given.takeWord argument

end Given

/-- What is to be done. -/
inductive Task where
  | parse (file : String) (format : Format)
  | tokens (file : String)
  | check (directory : String)
  | symbols (directory scene : String)
  deriving DecidableEq, Repr, Inhabited

/-- A command line that was understood. The task is missing when there are only switches. -/
structure Invocation where
  config : Option String
  task : Option Task
  deriving DecidableEq, Repr, Inhabited

namespace Given

/-- The task of a verb with its words. -/
def task (given : Given) : Verb → Except Stop Task
  | .parse => match given.words with
    | [file] => .ok (.parse file given.format)
    | _ => .error .mistake
  | .tokens => match given.words with
    | [file] => .ok (.tokens file)
    | _ => .error .mistake
  | .check => match given.words with
    | [directory] => .ok (.check directory)
    | _ => .error .mistake
  | .symbols => match given.words with
    | [directory, scene] => .ok (.symbols directory scene)
    | _ => .error .mistake

/-- What a command line says once all of it is read. -/
def finish (given : Given) : Except Stop Invocation := do
  if given.waiting.isSome then .error .mistake
  else
    match given.verb with
    | some verb => return { config := given.config, task := some (← given.task verb) }
    | none =>
      if given.seen.isEmpty then .error .mistake
      else return { config := given.config, task := none }

end Given

/-- Reads a command line. -/
def read (arguments : List String) : Except Stop Invocation := do
  let given ← arguments.foldlM Given.take {}
  given.finish

end Gamebook.Cli
