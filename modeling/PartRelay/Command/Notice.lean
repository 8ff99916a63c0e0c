import PartRelay.Text.Case
import PartRelay.Text.Lines

/-!
# Notices

What a run has to say beside its output: lines with a level. The threshold of a run decides which
levels are shown.
-/

namespace PartRelay.Command

inductive Level where
  | debug
  | info
  | warning
  | error
  | critical
  deriving DecidableEq

def Level.name : Level → Text
  | .debug => "DEBUG"
  | .info => "INFO"
  | .warning => "WARNING"
  | .error => "ERROR"
  | .critical => "CRITICAL"

/-- How grave a level is, from ten up. -/
def Level.gravity : Level → Nat
  | .debug => 10
  | .info => 20
  | .warning => 30
  | .error => 40
  | .critical => 50

structure Notice where
  level : Level
  text : Text

def Notice.line (n : Notice) : Text := Text.join [n.level.name, " - ", n.text]

/-- The gravities that names stand for, in capitals. At zero everything is shown. -/
def thresholds : List (Text × Nat) :=
  [("NOTSET", 0), ("DEBUG", Level.debug.gravity), ("INFO", Level.info.gravity),
   ("WARN", Level.warning.gravity), ("WARNING", Level.warning.gravity),
   ("ERROR", Level.error.gravity), ("FATAL", Level.critical.gravity),
   ("CRITICAL", Level.critical.gravity)]

/-- The two names that stand for no gravity although they are known. -/
inductive LevelError where
  /-- The name of a format. -/
  | format
  /-- The name of a table of formats. -/
  | styles
  deriving DecidableEq

def LevelError.message : LevelError → Text
  | .format => "Unknown level: '%(levelname)s:%(name)s:%(message)s'"
  | .styles => Text.join
      ["Level not an integer or a valid string: \x7b",
       "'%': (<class 'logging.PercentStyle'>, '%(levelname)s:%(name)s:%(message)s'), ",
       "'\x7b': (<class 'logging.StrFormatStyle'>, ",
       "'\x7blevelname\x7d:\x7bname\x7d:\x7bmessage\x7d'), ",
       "'$': (<class 'logging.StringTemplateStyle'>, ",
       "'$\x7blevelname\x7d:$\x7bname\x7d:$\x7bmessage\x7d')\x7d"]

/-- The names of what is no gravity, in capitals. -/
def otherNames : List (Text × LevelError) := [("BASIC_FORMAT", .format), ("_STYLES", .styles)]

/-- The least gravity that is shown, by a name in any letter case. An unknown name counts as
`INFO`. -/
def threshold (name : Text) : Except LevelError Nat :=
  match otherNames.lookup name.upper with
  | some e => .error e
  | none => .ok ((thresholds.lookup name.upper).getD Level.info.gravity)

/-- The lines of the notices that are shown. The text of a notice can have several. -/
def shownLines (threshold : Nat) (notices : List Notice) : List Text :=
  Text.shownLines ((notices.filter fun n => threshold ≤ n.level.gravity).flatMap fun n =>
    n.line ++ "\n")

end PartRelay.Command
