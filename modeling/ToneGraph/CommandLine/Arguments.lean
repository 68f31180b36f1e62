import ToneGraph.Number.Numeral
/-!
# Arguments

How the words of a command line are read. Options have a long name and perhaps a letter; their value
is the next word, or stands in the same word after an equals sign or after the letter. A word that
starts with a dash is never the value of an option or an argument, except after two dashes alone.
Options that hold for every task may stand on either side of the task's name.

## Main definitions

* `Scan.words`: options and arguments of one level.
* `Invocation.ofWords`: what a command line asks for.
-/

namespace ToneGraph.CommandLine

/-- Why a command line asks for no task. -/
inductive Stop where
  /-- Words are missing, unknown, unreadable or too many. -/
  | misuse
  | help
  deriving DecidableEq, Repr

/-- An option. -/
structure OptionForm where
  long : String
  letter : Option Char
  takesValue : Bool

/-- What was found on one level: options by their long names with their values, arguments, and the
words left over. -/
structure Scan where
  options : List (String × String)
  arguments : List String
  rest : List String

namespace Scan

/-- Adds an option. No option may be given twice. -/
def withOption (name value : String) (s : Scan) : Except Stop Scan :=
  if (s.options.lookup name).isSome then .error .misuse
  else .ok { s with options := (name, value) :: s.options }

/-- A word with dashes taken apart: the option it names, and the value in the same word. -/
def option? (forms : List OptionForm) (word : List Char) :
    Except Stop (OptionForm × Option String) :=
  let found (form : Option OptionForm) (value : Option String) :=
    match form with
    | some form => if value.isSome && !form.takesValue then .error .misuse else .ok (form, value)
    | none => .error .misuse
  match word with
  | '-' :: name =>
    let long := String.ofList (name.takeWhile (· != '='))
    let value := (name.dropWhile (· != '=')).tail
    if long = "help" then .error .help
    else found (forms.find? (·.long == long))
      (if name.contains '=' then some (String.ofList value) else none)
  | letter :: value =>
    if letter = 'h' then .error .help
    else
      let value :=
        match value with
        | '=' :: value => some (String.ofList value)
        | [] => none
        | value => some (String.ofList value)
      found (forms.find? (·.letter == some letter)) value
  | [] => .error .misuse

/-- Whether a word starts with a dash and is more than that. -/
def isDashed (word : String) : Bool :=
  match word.toList with
  | '-' :: _ :: _ => true
  | _ => false

/-- The options and arguments of one level. On the level where the task is named, its name ends the
level and all further words are left over; after two dashes no word names a task. -/
def words (forms : List OptionForm) (namesTask : Bool) : List String → Except Stop Scan
  | [] => .ok ⟨[], [], []⟩
  | word :: rest =>
    if word = "--" then .ok ⟨[], rest, []⟩
    else if !isDashed word then
      if namesTask then .ok ⟨[], [], word :: rest⟩
      else do
        let s ← words forms namesTask rest
        return { s with arguments := word :: s.arguments }
    else do
      let (form, value) ← option? forms (word.toList.drop 1)
      match value, form.takesValue, rest with
      | some value, _, rest => (← words forms namesTask rest).withOption form.long value
      | none, false, rest => (← words forms namesTask rest).withOption form.long ""
      | none, true, value :: rest =>
        if isDashed value then .error .misuse
        else (← words forms namesTask rest).withOption form.long value
      | none, true, [] => .error .misuse

/-- The value of an option, if it is given. -/
def value? (s : Scan) (name : String) : Option String :=
  s.options.lookup name

/-- The value of an option as a reader makes it out, if the option is given. -/
def read? (s : Scan) (name : String) (read : String → Option α) : Except Stop (Option α) :=
  match s.value? name with
  | none => .ok none
  | some text =>
    match read text with
    | some x => .ok (some x)
    | none => .error .misuse

/-- The path that an option gives. It is not empty. -/
def path? (s : Scan) (name : String) : Except Stop (Option String) :=
  s.read? name fun text => if text.isEmpty then none else some text

end Scan

/-! ## Tasks -/

/-- What the program is asked to do. -/
inductive Task where
  | play (source file : Option String) (seconds : Option Float) (volume : Option Float32)
    (meter : Bool)
  | render (source out : String) (seconds : Float) (sampleRate : Option UInt32)
  | check (source : String)
  | builtins

/-- A task, with the options that hold for every task. -/
structure Invocation where
  config : Option String
  seed : Option UInt64
  task : Task

/-- The options that hold for every task. -/
def globalForms : List OptionForm :=
  [⟨"config", some 'c', true⟩, ⟨"seed", none, true⟩]

/-- The names of tasks. -/
def taskNames : List String :=
  ["play", "render", "check", "builtins"]

/-- The options of a task. -/
def taskForms : String → List OptionForm
  | "play" =>
    [⟨"file", some 'f', true⟩, ⟨"seconds", some 's', true⟩, ⟨"volume", some 'v', true⟩,
      ⟨"meter", none, false⟩]
  | "render" =>
    [⟨"out", some 'o', true⟩, ⟨"seconds", some 's', true⟩, ⟨"sample-rate", some 'r', true⟩]
  | _ => []

/-- How many seconds are rendered if nothing is said. -/
def defaultSeconds : Float := 5.0

/-- A seed. -/
def seed? (text : String) : Option UInt64 :=
  (Number.natural? UInt64.size text).map UInt64.ofNat

/-- A sample rate. -/
def sampleRate? (text : String) : Option UInt32 :=
  (Number.natural? UInt32.size text).map UInt32.ofNat

/-- A volume. -/
def volume? (text : String) : Option Float32 :=
  (Number.float? text).map Number.narrow

/-- The task of a name, from its options and arguments. -/
def Task.ofScan (name : String) (s : Scan) : Except Stop Task := do
  match name, s.arguments with
  | "play", arguments =>
    let file ← s.path? "file"
    let seconds ← s.read? "seconds" Number.float?
    let volume ← s.read? "volume" volume?
    let meter := (s.value? "meter").isSome
    if 1 < arguments.length then .error .misuse
    else return .play arguments.head? file seconds volume meter
  | "render", [source] =>
    let seconds ← s.read? "seconds" Number.float?
    let sampleRate ← s.read? "sample-rate" sampleRate?
    match ← s.path? "out" with
    | some out => return .render source out (seconds.getD defaultSeconds) sampleRate
    | none => .error .misuse
  | "check", [source] => return .check source
  | "builtins", [] => return .builtins
  | _, _ => .error .misuse

/-- What a command line asks for. An option that holds for every task counts where it is given last,
before or after the task's name. -/
def Invocation.ofWords (words : List String) : Except Stop Invocation := do
  let outer ← Scan.words globalForms true words
  match outer.rest with
  | [] => .error .misuse
  | name :: rest =>
    if name = "help" then .error .help
    if !taskNames.contains name then .error .misuse
    let inner ← Scan.words (globalForms ++ taskForms name) false rest
    let task ← Task.ofScan name inner
    let config ← inner.path? "config"
    let seed ← inner.read? "seed" seed?
    let outerConfig ← outer.path? "config"
    let outerSeed ← outer.read? "seed" seed?
    return ⟨config <|> outerConfig, seed <|> outerSeed, task⟩

end ToneGraph.CommandLine
