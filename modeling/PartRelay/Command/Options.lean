import PartRelay.Table
import PartRelay.Text.Integer

/-!
# Options

The words of a command line with the options among them. An option stands as `--name value` or as
`--name=value`, and its name may be cut short as long as it means one option only. Of an option that
is given twice the last value counts. Two dashes alone end the options; behind an equals sign they
leave an option without a value.
-/

namespace PartRelay.Command

/-! ## What options there are -/

inductive ValueKind where
  | text
  | integer
  deriving DecidableEq

/-- An option of a command. The name holds the two dashes before it. -/
structure OptionSpec where
  name : Text
  kind : ValueKind := .text
  required : Bool := false
  deriving DecidableEq

inductive Value where
  | text (t : Text)
  | integer (n : Int)
  /-- What an option has that is given without a value. -/
  | nothing
  deriving DecidableEq

/-- How no value is shown. -/
def shownNothing : Text := "[]"

def helpName : Text := "--help"

def shortHelpName : Text := "-h"

def endOfOptions : Text := "--"

/-! ## Faults -/

/-- What is wrong with a command line. -/
inductive UsageError where
  | ambiguous (word : Text) (names : List Text)
  | noValue (name : Text)
  | badInteger (name value : Text)
  /-- A value for the option that asks for help. -/
  | helpWithValue (value : Text)
  | missing (names : List Text)
  | noCommand
  | unknownCommand (word : Text) (known : List Text)
  /-- Words that belong to nothing. -/
  | surplus (words : List Text)

def UsageError.message : UsageError → Text
  | .ambiguous word names => Text.join
      ["ambiguous option: ", word, " could match ", Text.intercalate ", " names]
  | .noValue name => Text.join ["argument ", name, ": expected one argument"]
  | .badInteger name value => Text.join
      ["argument ", name, ": invalid int value: ", value.quoted]
  | .helpWithValue value => "argument -h/--help: ignored explicit argument " ++ value.quoted
  | .missing names =>
    "the following arguments are required: " ++ Text.intercalate ", " names
  | .noCommand => "the following arguments are required: cmd"
  | .unknownCommand word known => Text.join
      ["argument cmd: invalid choice: ", word.quoted, " (choose from ",
       Text.intercalate ", " (known.map Text.quoted), ")"]
  | .surplus words => "unrecognized arguments: " ++ Text.intercalate " " words

/-- Why a command line is not run. -/
inductive Stop where
  | usage (cause : UsageError)
  /-- Help is asked for, before anything is found wrong. -/
  | help

/-! ## Words -/

inductive Meaning where
  | plain
  /-- An option, with the value behind an equals sign where there is one. -/
  | option (spec : OptionSpec) (value : Option Text)
  /-- The option that asks for help, with what is written behind it. -/
  | help (value : Option Text)
  /-- What looks like an option and is none. -/
  | unknown

structure Word where
  source : Text
  meaning : Meaning

/-- Whether a word is a minus sign with digits behind it, or with a point and digits at the end. A
line feed may follow. -/
def isNegativeNumber (t : Text) : Bool :=
  let t := if t.getLast? = some (CodePoint.ofChar '\n') then t.dropLast else t
  let isDigit (c : CodePoint) : Bool := c.digitValue?.isSome
  match t with
  | [] => false
  | c :: t =>
    c = '-' &&
      match t.dropWhile isDigit with
      | [] => !t.isEmpty
      | c :: t => c = '.' && !t.isEmpty && t.all isDigit

/-- A word that starts with a dash and is the name of no option, nor the start of one. Numbers are
plain, and so is what holds a blank. -/
def meaningOfOther (t : Text) : Meaning :=
  if isNegativeNumber t || t.contains (CodePoint.ofChar ' ') then .plain else .unknown

/-- The name of an option in a word, and the value behind the first equals sign. -/
def nameAndValue (t : Text) : Text × Option Text :=
  match t.cutFirst? '=' with
  | none => (t, none)
  | some (name, value) => (name, some value)

/-- A word that starts with two dashes: an option by its name, or by a start of the name that no
other option has. -/
def meaningOfLong (specs : List OptionSpec) (t : Text) : Except UsageError Meaning :=
  let (name, value) := nameAndValue t
  if name = helpName then .ok (.help value)
  else match specs.find? (·.name = name) with
    | some spec => .ok (.option spec value)
    | none =>
      match (helpName :: specs.map (·.name)).filter (·.startsWith name) with
      | [] => .ok (meaningOfOther t)
      | [full] =>
        .ok (match specs.find? (·.name = full) with
          | some spec => .option spec value
          | none => .help value)
      | names => .error (.ambiguous t names)

/-- What a word means to a command with certain options. -/
def meaningOf (specs : List OptionSpec) (t : Text) : Except UsageError Meaning :=
  if t = ("-" : Text) ∨ !t.startsWith "-" then .ok .plain
  else if t.startsWith "--" then meaningOfLong specs t
  else match t.dropPrefix? shortHelpName with
    | some [] => .ok (.help none)
    | some (c :: value) => .ok (.help (some (if c = '=' then value else c :: value)))
    | none => .ok (meaningOfOther t)

/-- The words before two dashes, and the rest from the dashes on. -/
def readWords (specs : List OptionSpec) : List Text → Except UsageError (List Word × List Text)
  | [] => .ok ([], [])
  | t :: rest =>
    if t = endOfOptions then .ok ([], t :: rest)
    else match meaningOf specs t with
      | .error e => .error e
      | .ok meaning => (readWords specs rest).map fun (words, rest) => (⟨t, meaning⟩ :: words, rest)

/-! ## Values -/

/-- What has been taken from the words. -/
structure Taken where
  values : Table Text Value := []
  surplus : List Text := []

/-- The text of an option. -/
def Taken.text? (taken : Taken) (name : Text) : Option Text :=
  match taken.values.get? name with
  | some (.text t) => some t
  | _ => none

/-- The text of an option, also where it is given without a value. -/
def Taken.shown? (taken : Taken) (name : Text) : Option Text :=
  match taken.values.get? name with
  | some (.text t) => some t
  | some .nothing => some shownNothing
  | _ => none

/-- The text of an option or its default; none where it is given without a value. -/
def Taken.textOr (taken : Taken) (name default : Text) : Option Text :=
  match taken.values.get? name with
  | some (.text t) => some t
  | some .nothing => none
  | _ => some default

/-- The integer of an option or its default; none where it is given without a value. -/
def Taken.integerOr {α : Type} (taken : Taken) (name : Text) (given : Int → α) (default : α) :
    Option α :=
  match taken.values.get? name with
  | some (.integer n) => some (given n)
  | some .nothing => none
  | _ => some default

/-- What the text of an option stands for. -/
def OptionSpec.value (spec : OptionSpec) (t : Text) : Except Stop Value :=
  if t = endOfOptions then .ok .nothing
  else match spec.kind with
    | .text => .ok (.text t)
    | .integer =>
      match Integer.read t with
      | .error _ => .error (.usage (.badInteger spec.name t))
      | .ok n => .ok (.integer n)

/-- Sets an option to what its text stands for. -/
def Taken.set (taken : Taken) (spec : OptionSpec) (t : Text) : Except Stop Taken :=
  (spec.value t).map fun value =>
    { taken with values := Table.set taken.values spec.name value }

def Taken.skip (taken : Taken) (words : List Text) : Taken :=
  { taken with surplus := taken.surplus ++ words }

/-- How help is answered. The short name can be followed by its letter again, also behind an equals
sign, but not by anything else. -/
def helpStop (source : Text) : Option Text → Stop
  | none => .help
  | some value =>
    if source.startsWith "--" || value.isEmpty || value.any (· != CodePoint.ofChar 'h') then
      .usage (.helpWithValue value)
    else .help

/-- Takes the options among the words. A plain word that is no value ends this, or is left over
where `pastPlain` says so. -/
def takeOptions (pastPlain : Bool) (taken : Taken) :
    List Word → Except Stop (Taken × List Word)
  | [] => .ok (taken, [])
  | word :: words =>
    match word.meaning with
    | .plain =>
      if pastPlain then takeOptions pastPlain (taken.skip [word.source]) words
      else .ok (taken, word :: words)
    | .unknown => takeOptions pastPlain (taken.skip [word.source]) words
    | .help value => .error (helpStop word.source value)
    | .option spec (some value) =>
      match taken.set spec value with
      | .error e => .error e
      | .ok taken => takeOptions pastPlain taken words
    | .option spec none =>
      match words with
      | ⟨value, .plain⟩ :: words =>
        match taken.set spec value with
        | .error e => .error e
        | .ok taken => takeOptions pastPlain taken words
      | _ => .error (.usage (.noValue spec.name))

/-- The required options that have no value. -/
def missingNames (specs : List OptionSpec) (taken : Taken) : List Text :=
  (specs.filter fun spec => spec.required && !taken.values.contains spec.name).map (·.name)

/-- The options of a command that takes nothing but options. -/
def readOptions (specs : List OptionSpec) (words : List Text) : Except Stop Taken :=
  match readWords specs words with
  | .error e => .error (.usage e)
  | .ok (words, rest) =>
    match takeOptions true {} words with
    | .error e => .error e
    | .ok (taken, _) =>
      match missingNames specs taken with
      | [] => .ok (taken.skip rest)
      | names => .error (.usage (.missing names))

end PartRelay.Command
