import PartRelay.Text.Basic

/-!
# Lines

Files are read with one line end only: a carriage return, alone or before a line feed, counts as a
line feed. What is shown line by line ends its lines in more ways.
-/

namespace PartRelay.Text

/-- Reads on behind `done`, which comes last first; `returned` says that a carriage return stands
just before. -/
def lineFeedsFrom : Text → (returned : Bool) → (done : Text) → Text
  | [], _, done => done.reverse
  | c :: t, returned, done =>
    if c = '\r' then lineFeedsFrom t true (CodePoint.ofChar '\n' :: done)
    else if c = '\n' && returned then lineFeedsFrom t false done
    else lineFeedsFrom t false (c :: done)

/-- The text with a line feed for each carriage return, and for each of the two together. -/
def withLineFeeds (t : Text) : Text := lineFeedsFrom t false []

/-! ## Shown lines -/

/-- What ends a line that is shown: line feeds, tabs and separators of every kind. -/
def isLineEnd (c : CodePoint) : Bool :=
  c.between 0x0A 0x0D || c.between 0x1C 0x1E || c.val == 0x85 || c.between 0x2028 0x2029

/-- Reads on behind the start `line` of a line, which comes last first. -/
def linesFrom : Text → (returned : Bool) → (line : Text) → List Text
  | [], _, [] => []
  | [], _, line => [line.reverse]
  | c :: t, returned, line =>
    if c = '\n' && returned then linesFrom t false line
    else if isLineEnd c then line.reverse :: linesFrom t (c = '\r') []
    else linesFrom t false (c :: line)

/-- The lines of a text without their ends. A carriage return and a line feed end one line. -/
def shownLines (t : Text) : List Text := linesFrom t false []

end PartRelay.Text
