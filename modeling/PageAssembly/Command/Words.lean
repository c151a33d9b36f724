import PageAssembly.Command.Basic
import PageAssembly.Text.Search
import PageAssembly.Yaml.Number

/-!
# Commands from words

## Main definitions

* `Command.Misuse` — why words are no command
* `Command.Given` — what the words tell a command
* `Command.ofWords` — the command that words ask for

## Design notes

The first word is the command.  Behind it options and the file may stand in any order.  A word that
starts with a hyphen is an option unless it is a number or stands behind two hyphens.  The value of
an option stands behind it as a word or behind an equals sign; it cannot look like an option when it
is a word of its own.
-/

namespace PageAssembly.Command

/-- Why words are no command. -/
inductive Misuse where
  /-- There is no such command. -/
  | command
  /-- The command has no such option. -/
  | option
  /-- The value of an option is missing. -/
  | value
  /-- The value of a switch is neither yes nor no. -/
  | switch
  /-- An option stands twice. -/
  | repeated
  /-- There is a word that nothing is done with. -/
  | extra
  /-- The file is missing. -/
  | file
  deriving DecidableEq, Repr

/-- The wording of a misuse. -/
def Misuse.message : Misuse → String
  | .command => "there is no such command"
  | .option => "the command has no such option"
  | .value => "an option has no value"
  | .switch => "a switch is neither on nor off"
  | .repeated => "an option stands twice"
  | .extra => "there are too many words"
  | .file => "no file is given"

/-- What is told: a text, or whether a switch is on. -/
inductive Told where
  /-- A text. -/
  | text (value : Text)
  /-- Whether a switch is on. -/
  | switch (value : Bool)
  deriving DecidableEq, Repr

/-- What the words tell a command. -/
abbrev Given := List (Parameter × Told)

/-- What switches a switch on. -/
def onWords : List String := ["yes", "y", "1", "true", "t"]

/-- What switches a switch off. -/
def offWords : List String := ["no", "n", "0", "false", "f"]

/-- The position of a switch that a word names. -/
def switchOf (word : Text) : Except Misuse Bool :=
  if Yaml.isWord onWords (word.map Char.toLower) then .ok true
  else if Yaml.isWord offWords (word.map Char.toLower) then .ok false
  else .error .switch

/-- Whether a word is a number. -/
def isNumber (word : Text) : Bool :=
  let size := Yaml.ungrouped (Yaml.unsigned word)
  (Yaml.decimalParts? size).isSome ||
    Yaml.isWord ["inf", "infinity", "nan"] (size.map Char.toLower)

/-- Whether a word looks like an option. -/
def looksLikeOption (word : Text) : Bool := word.head? == some '-' && !isNumber word

/-- The word that ends the options. -/
def endOfOptions : Text := ['-', '-']

/-- The parameter that an option names, and whether it is switched off. -/
def parameter? (known : List Parameter) (option : Text) : Option (Parameter × Bool) :=
  match known.find? fun p => ['-', '-'] ++ p.name == option with
  | some p => some (p, false)
  | none =>
    (known.find? fun p => p.isSwitch && "--no-".toList ++ p.name == option).map fun p => (p, true)

/-- An option and its value behind an equals sign. -/
def splitOption (word : Text) : Text × Option Text :=
  match Text.cut? ['='] word with
  | some (option, value) => (option, some value)
  | none => (word, none)

/-- Adds what one parameter is told. -/
def tell (p : Parameter) (told : Told) (given : Given) : Except Misuse Given :=
  if (given.lookup p).isSome then .error .repeated else .ok ((p, told) :: given)

/-- What an option tells. -/
structure Told.Reading where
  /-- The parameter. -/
  parameter : Parameter
  /-- What it is told. -/
  told : Told
  /-- Whether the word behind the option is its value. -/
  usesNext : Bool := false

/-- What an option tells, with `next` behind it. -/
def readOption (known : List Parameter) (word : Text) (next : Option Text) :
    Except Misuse Told.Reading := do
  let (option, value) := splitOption word
  match parameter? known option with
  | none => throw .option
  | some (parameter, isOff) =>
    if parameter.isSwitch then
      let isOn ← value.elim (.ok true) switchOf
      return { parameter, told := .switch (isOn != isOff) }
    else
      match value, next with
      | some value, _ => return { parameter, told := .text value }
      | none, some value =>
        if looksLikeOption value then throw .value
        return { parameter, told := .text value, usesNext := true }
      | none, none => throw .value

/-- What the words behind the command tell it, and the words that are no options. -/
def readWords (known : List Parameter) (given : Given) (others : List Text) :
    List Text → Except Misuse (Given × List Text)
  | [] => .ok (given, others.reverse)
  | word :: words =>
    if word = endOfOptions then .ok (given, others.reverse ++ words)
    else if !looksLikeOption word then readWords known given (word :: others) words
    else
      match readOption known word words.head? with
      | .error misuse => .error misuse
      | .ok r =>
        match tell r.parameter r.told given with
        | .error misuse => .error misuse
        | .ok given => readWords known given others (words.drop (if r.usesNext then 1 else 0))
termination_by words => words.length
decreasing_by
  · simp
  · simp only [List.length_drop, List.length_cons]; omega

/-- Adds the words that are no options: the file, if the command knows one. -/
def readOthers (known : List Parameter) (given : Given) : List Text → Except Misuse Given
  | [] => .ok given
  | [word] =>
    if known.elem .file && (given.lookup .file).isNone then .ok ((.file, .text word) :: given)
    else .error .extra
  | _ => .error .extra

/-- Adds what the environment tells about parameters that are not given. -/
def readEnvironment (environment : List (Text × Text)) :
    List Parameter → Given → Except Misuse Given
  | [], given => .ok given
  | p :: known, given =>
    match given.lookup p, environment.lookup p.environmentName with
    | none, some value => do
      let told ← if p.isSwitch then (switchOf value).map .switch else pure (.text value)
      readEnvironment environment known ((p, told) :: given)
    | _, _ => readEnvironment environment known given

/-- The path that a parameter is told. -/
def pathOf (given : Given) (p : Parameter) : Option Path :=
  match given.lookup p with
  | some (.text value) => some (.ofText value)
  | _ => none

/-- The command of a kind with what it is told. -/
def ofGiven (given : Given) : Kind → Except Misuse Command
  | .build =>
    .ok (.build (pathOf given .sourceDir) (pathOf given .outputDir) (pathOf given .config) verbose)
  | .prettify =>
    match pathOf given .file with
    | some file => .ok (.prettify file (pathOf given .outputDir) verbose)
    | none => .error .file
  | .graph => .ok (.graph (pathOf given .sourceDir) (pathOf given .config))
where
  /-- Whether everything is reported. -/
  verbose : Bool := given.lookup .verbose == some (.switch true)

/-- The command that words ask for. -/
def ofWords (environment : List (Text × Text)) : List Text → Except Misuse Command
  | [] => .error .command
  | word :: words =>
    match Kind.ofName? word with
    | none => .error .command
    | some kind => do
      let (given, others) ← readWords kind.parameters [] [] words
      let given ← readOthers kind.parameters given others
      ofGiven (← readEnvironment environment kind.parameters given) kind

end PageAssembly.Command
