import PartRelay.Text.Quoted

/-!
# Request targets

The route of a request is the path of its target: without scheme, host, query and fragment. The host
is looked at only where there are brackets, since these stand around an address of IP version 6 or
later.
-/

namespace PartRelay.Http

inductive TargetError where
  /-- One bracket without the other, or text around them. -/
  | strayBracket
  | futureAddress
  | version4
  | notAnAddress (host : Text)

def TargetError.message : TargetError → Text
  | .strayBracket => "Invalid IPv6 URL"
  | .futureAddress => "IPvFuture address is invalid"
  | .version4 => "An IPv4 address cannot be in brackets"
  | .notAnAddress host => host.quoted ++ " does not appear to be an IPv4 or IPv6 address"

/-! ## Addresses in brackets -/

/-- A decimal byte of one to three digits, without leading zeros. -/
def isOctet (t : Text) : Bool :=
  !t.isEmpty && t.length ≤ 3 && t.all CodePoint.isDigit &&
  (t.length = 1 || t.head? ≠ some (CodePoint.ofChar '0')) &&
  t.foldl (fun n c => n * 10 + (c.val - 0x30)) 0 ≤ 255

def isVersion4 (t : Text) : Bool :=
  let octets := t.splitOn '.'
  octets.length = 4 && octets.all isOctet

/-- Up to four hexadecimal digits. -/
def isGroup (t : Text) : Bool :=
  !t.isEmpty && t.length ≤ 4 && t.all fun c => c.hexValue?.isSome

/-- Whether eight groups stand between the colons, a run of them perhaps left out once. -/
def areGroups (groups : List Text) : Bool :=
  let inner := groups.tail.dropLast
  let first := groups.head?.getD []
  let last := groups.getLast?.getD []
  match inner.findIdx? List.isEmpty with
  | none => groups.length = 8 && groups.all isGroup
  | some i =>
    let high := groups.take (i + 1)
    let low := groups.drop (i + 2)
    groups.length ≤ 9 && (inner.filter List.isEmpty).length = 1 &&
    (if first.isEmpty then high.length = 1 else high.all isGroup) &&
    (if last.isEmpty then low.length = 1 else low.all isGroup) &&
    (if first.isEmpty then 0 else high.length) + (if last.isEmpty then 0 else low.length) ≤ 7

/-- An address of version 6: groups, the last two perhaps in the form of version 4, and perhaps a
zone behind a percent sign. -/
def isVersion6 (t : Text) : Bool :=
  let (address, zoned) := match t.cutFirst? '%' with
    | none => (t, true)
    | some (address, zone) => (address, !zone.isEmpty && !zone.contains (CodePoint.ofChar '%'))
  let groups := address.splitOn ':'
  let last := groups.getLast?.getD []
  zoned && 3 ≤ groups.length &&
  (if last.contains (CodePoint.ofChar '.') then
    isVersion4 last && areGroups (groups.dropLast ++ [("0" : Text), "0"])
   else areGroups groups)

/-- An address of a later version: `v`, digits, a point and something more. -/
def isFutureAddress (t : Text) : Bool :=
  match Text.cutFirst? '.' (t.drop 1) with
  | none => false
  | some (version, rest) =>
    !version.isEmpty && version.all (fun c => c.hexValue?.isSome) && !rest.isEmpty

def checkHost (host : Text) : Except TargetError Unit :=
  if host.head? = some (CodePoint.ofChar 'v') then
    if isFutureAddress host then .ok () else .error .futureAddress
  else if isVersion4 host then .error .version4
  else if isVersion6 host then .ok ()
  else .error (.notAnAddress host)

/-- What stands before a separator, and what follows it; all of a text without the separator. -/
def cutAt (sep : CodePoint) (t : Text) : Text × Text := (t.cutFirst? sep).getD (t, [])

/-- The host in an authority, which stands behind the last at sign. An opening bracket comes first
in it, and a port behind the closing one. -/
def hostOf (authority : Text) : Except TargetError Text :=
  let place := match authority.cutLast? '@' with
    | none => authority
    | some (_, place) => place
  match place.cutFirst? '[' with
  | none => .ok (cutAt ':' place).1
  | some (before, rest) =>
    let (host, after) := cutAt ']' rest
    if before.isEmpty && (after.isEmpty || after.head? = some (CodePoint.ofChar ':')) then .ok host
    else .error .strayBracket

/-- Brackets have to come in pairs, and around an address. -/
def checkAuthority (authority : Text) : Except TargetError Unit :=
  match authority.contains (CodePoint.ofChar '['), authority.contains (CodePoint.ofChar ']') with
  | false, false => .ok ()
  | true, true =>
    match hostOf authority with
    | .error e => .error e
    | .ok host => checkHost host
  | _, _ => .error .strayBracket

/-! ## Routes -/

def isSchemePoint (c : CodePoint) : Bool :=
  c.isLetter || c.isDigit || c = '+' || c = '-' || c = '.'

/-- A target without its scheme. -/
def withoutScheme (t : Text) : Text :=
  match t.cutFirst? ':' with
  | none => t
  | some (scheme, rest) =>
    if scheme.head?.any CodePoint.isLetter && scheme.all isSchemePoint then rest else t

/-- Several slashes at the start count as one. -/
def withOneSlash (t : Text) : Text :=
  if t.startsWith "//" then CodePoint.ofChar '/' :: t.dropWhile (· == CodePoint.ofChar '/') else t

/-- Leaves out the controls and spaces before a target, and tabs and line ends in it. -/
def withoutControls (t : Text) : Text :=
  (t.dropWhile fun c => c.val ≤ 0x20).filter fun c => !(c = '\t' || c = '\n' || c = '\r')

/-- The text before a query or a fragment. -/
def pathOf (t : Text) : Text :=
  t.takeWhile fun c => !(c = '?' || c = '#')

def route (target : Text) : Except TargetError Text :=
  let t := withoutScheme (withoutControls (withOneSlash target))
  match t.dropPrefix? "//" with
  | none => .ok (pathOf t)
  | some rest =>
    let ends (c : CodePoint) : Bool := c = '/' || c = '?' || c = '#'
    match checkAuthority (rest.takeWhile (!ends ·)) with
    | .error e => .error e
    | .ok () => .ok (pathOf (rest.dropWhile (!ends ·)))

end PartRelay.Http
