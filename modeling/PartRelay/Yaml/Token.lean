import PartRelay.Yaml.ScalarText

/-!
# Tokens

A document as scalars, brackets and marks, with the block collections that its columns stand for. A
key shows only by the colon behind it: what could be one is kept in mind, and when the colon comes,
the marks of the key are put in where it started. The tokens end where the text does, or with the
fault that keeps it from being read on.
-/

namespace PartRelay.Yaml

inductive Token where
  | blockSequence
  | blockMapping
  /-- The end of the innermost block collection. -/
  | blockEnd
  | flowSequence
  | flowSequenceEnd
  | flowMapping
  | flowMappingEnd
  /-- The dash before an item of a block sequence. -/
  | item
  /-- The comma between the entries of a bracket. -/
  | separator
  | key
  | value
  | plain (t : Text)
  | quoted (t : Text)
  | documentStart
  | documentEnd
  | invalid (cause : ReadError)

/-! ## Pending keys -/

/-- Something that is a key if a colon follows. -/
structure PendingKey where
  /-- The number of its first token. -/
  token : Nat
  /-- Whether nothing but a key can stand here. -/
  required : Bool
  index : Nat
  line : Nat
  column : Nat

/-- How far a colon may be from the start of its key. -/
def keyReach : Nat := 1024

/-- Whether it is too late for the colon: it has to be on the same line, and not too far. -/
def PendingKey.isLate (k : PendingKey) (s : Spots) : Bool :=
  k.line != s.line || k.index + keyReach < s.index

/-! ## Layout -/

/-- How far a document has been read. -/
structure Layout where
  /-- How many spots the text has. -/
  size : Nat
  rest : Spots
  /-- The columns of the open block collections, innermost first. -/
  columns : List Nat := []
  /-- What is pending inside of each open bracket, innermost first, and at last outside of all. -/
  pending : List (Option PendingKey) := [none]
  /-- Whether a key may start here. -/
  keyAllowed : Bool := true
  /-- The tokens, last first. -/
  tokens : List Token := []
  /-- How many tokens there are. -/
  count : Nat := 0
  ended : Bool := false

namespace Layout

/-- Whether a bracket is open. -/
def flow (l : Layout) : Bool := 1 < l.pending.length

def emit (l : Layout) (t : Token) : Layout :=
  { l with tokens := t :: l.tokens, count := l.count + 1 }

def advance (l : Layout) (count : Nat) : Layout := { l with rest := l.rest.drop count }

/-- Puts a token in as the one of a number. -/
def insert (l : Layout) (number : Nat) (t : Token) : Layout :=
  { l with tokens := l.tokens.insertIdx (l.count - number) t, count := l.count + 1 }

/-! ## Blanks -/

/-- What follows the blanks, comments and line ends, and whether a line end was among them. -/
def skipBlank : Spots → (comment crossed : Bool) → Spots × Bool
  | [], _, crossed => ([], crossed)
  | s :: rest, comment, crossed =>
    if isBreak s.point then skipBlank rest false true
    else if isSpace s.point || (comment && s.point != endPoint) then skipBlank rest comment crossed
    else if s.point = '#' then skipBlank rest true crossed
    else (s :: rest, crossed)

/-- Goes on to the next token. A key may start on a new line outside of brackets. -/
def skip (l : Layout) : Layout :=
  let (rest, crossed) := skipBlank l.rest false false
  { l with rest, keyAllowed := l.keyAllowed || (crossed && !l.flow) }

/-! ## Keys -/

/-- Forgets the keys whose colon is late. -/
def expire (l : Layout) : Except ReadError Layout :=
  let isLate (k : PendingKey) : Bool := k.isLate l.rest
  if l.pending.any (·.any fun k => k.required && isLate k) then .error .malformed
  else .ok { l with pending := l.pending.map (·.filter fun k => !isLate k) }

/-- Forgets the key of the innermost bracket. -/
def forget (l : Layout) : Except ReadError Layout :=
  match l.pending with
  | some key :: outer =>
    if key.required then .error .malformed else .ok { l with pending := none :: outer }
  | _ => .ok l

/-- Keeps in mind that the next token may start a key. Outside of brackets it has to where it stands
in the column of the innermost collection. -/
def remember (l : Layout) : Except ReadError Layout :=
  if !l.keyAllowed then .ok l
  else do
    let l ← l.forget
    let key : PendingKey :=
      { token := l.count
        required := !l.flow && l.columns.head? == some l.rest.column
        index := l.rest.index
        line := l.rest.line
        column := l.rest.column }
    return { l with pending := some key :: l.pending.drop 1 }

/-! ## Block collections -/

/-- Closes the block collections that stand deeper than a column. Inside of brackets columns do not
count. -/
def closeBelow (l : Layout) (column : Nat) : Layout :=
  if l.flow then l
  else
    (l.columns.takeWhile (column < ·)).foldl
      (fun l _ => { l.emit .blockEnd with columns := l.columns.drop 1 }) l

/-- Closes all block collections. -/
def closeAll (l : Layout) : Layout :=
  if l.flow then l else { l.columns.foldl (fun l _ => l.emit .blockEnd) l with columns := [] }

/-- Opens a block collection where the column is deeper than the innermost one; its mark becomes the
token of a number. -/
def openAt (l : Layout) (column number : Nat) (mark : Token) : Layout :=
  if l.flow || l.columns.head?.any (column ≤ ·) then l
  else { l.insert number mark with columns := column :: l.columns }

/-- Opens a block collection for the next token. -/
def openHere (l : Layout) (mark : Token) : Layout := l.openAt l.rest.column l.count mark

/-! ## Taking tokens -/

def takeEnd (l : Layout) : Except ReadError Layout :=
  l.closeAll.forget.map fun l => { l with pending := [none], ended := true }

def takeDocumentMark (l : Layout) (mark : Token) : Except ReadError Layout :=
  l.closeAll.forget.map fun l => { (l.emit mark).advance 3 with keyAllowed := false }

def openBracket (l : Layout) (mark : Token) : Except ReadError Layout :=
  l.remember.map fun l =>
    { (l.emit mark).advance 1 with pending := none :: l.pending, keyAllowed := true }

def closeBracket (l : Layout) (mark : Token) : Except ReadError Layout :=
  if !l.flow then .error .malformed
  else l.forget.map fun l =>
    { (l.emit mark).advance 1 with pending := l.pending.drop 1, keyAllowed := false }

def takeSeparator (l : Layout) : Except ReadError Layout :=
  l.forget.map fun l => { (l.emit .separator).advance 1 with keyAllowed := true }

/-- Outside of brackets an item stands where a key could. -/
def takeItem (l : Layout) : Except ReadError Layout :=
  if !l.flow && !l.keyAllowed then .error .malformed
  else (l.openHere .blockSequence).forget.map fun l =>
    { (l.emit .item).advance 1 with keyAllowed := true }

/-- A key with a mark of its own. -/
def takeKey (l : Layout) : Except ReadError Layout :=
  if !l.flow && !l.keyAllowed then .error .malformed
  else (l.openHere .blockMapping).forget.map fun l =>
    { (l.emit .key).advance 1 with keyAllowed := !l.flow }

/-- The colon before a value. What is pending becomes its key; outside of brackets a value without
one stands where a key could. -/
def takeValue (l : Layout) : Except ReadError Layout :=
  match l.pending with
  | some key :: outer =>
    let l := ({ l with pending := none :: outer }.insert key.token .key).openAt key.column
      key.token .blockMapping
    .ok { (l.emit .value).advance 1 with keyAllowed := false }
  | _ =>
    if !l.flow && !l.keyAllowed then .error .malformed
    else
      let l := l.openHere .blockMapping
      .ok { (l.emit .value).advance 1 with keyAllowed := !l.flow }

def takeQuoted (l : Layout) : Except ReadError Layout := do
  let l ← l.remember
  let (t, rest) ← readQuoted (l.rest.point = '"') l.size (l.rest.drop 1) []
  return { l.emit (.quoted t) with rest, keyAllowed := false }

/-- Outside of brackets a plain scalar goes on only in columns behind that of the innermost
collection. -/
def takePlain (l : Layout) : Except ReadError Layout :=
  l.remember.map fun l =>
    let least := (l.columns.head?.map (· + 1)).getD 0
    let p := readPlain l.flow least l.size l.rest
    { l.emit (.plain p.reversed.reverse) with rest := p.rest, keyAllowed := p.newLine }

/-- Takes the token that starts here. -/
def take (l : Layout) : Except ReadError Layout :=
  let c := l.rest.point
  let isMark := l.flow || l.rest.standsAlone
  if c = endPoint then l.takeEnd
  else if l.rest.isMark "---" then l.takeDocumentMark .documentStart
  else if l.rest.isMark "..." then l.takeDocumentMark .documentEnd
  else if c = '[' then l.openBracket .flowSequence
  else if c = '{' then l.openBracket .flowMapping
  else if c = ']' then l.closeBracket .flowSequenceEnd
  else if c = '}' then l.closeBracket .flowMappingEnd
  else if c = ',' then l.takeSeparator
  else if c = '-' && l.rest.standsAlone then l.takeItem
  else if c = '?' && isMark then l.takeKey
  else if c = ':' && isMark then l.takeValue
  else if c = '"' || c = '\'' then l.takeQuoted
  else if startsPlain l.flow l.rest then l.takePlain
  else .error .malformed

/-! ## Reading -/

/-- Reads up to the end of the next token. -/
def next (l : Layout) : Except ReadError Layout := do
  let l ← l.skip.expire
  let l ← (l.closeBelow l.rest.column).take
  l.expire

/-- The tokens in front of what may still become a key, last first. -/
def settled (l : Layout) : List Token :=
  match (l.pending.filterMap fun k => k.map (·.token)).min? with
  | none => l.tokens
  | some number => l.tokens.drop (l.count - number)

/-- All tokens. A fault stands behind those that are settled. -/
def run : (fuel : Nat) → Layout → List Token
  | 0, l => l.tokens.reverse
  | fuel + 1, l =>
    if l.ended then l.tokens.reverse
    else match l.next with
      | .error e => (.invalid e :: l.settled).reverse
      | .ok l => run fuel l

end Layout

/-- The tokens of a text. -/
def Token.ofText (t : Text) : List Token :=
  let rest := Spots.ofText t
  Layout.run (rest.length + 1) { size := rest.length, rest }

end PartRelay.Yaml
