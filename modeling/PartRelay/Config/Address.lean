import PartRelay.Text.Integer

/-!
# Listen addresses

`HOST:PORT` or `:PORT`. The host may stand in brackets.
-/

namespace PartRelay

structure Address where
  host : Text
  port : Int
  deriving DecidableEq

namespace Address

/-- What is wrong with the text of an address. -/
inductive ParseError where
  | noPort (t : Text)
  | badPort (t : Text)
  | portRange (t : Text)

def ParseError.message : ParseError → Text
  | .noPort t => "address must be HOST:PORT or :PORT, got " ++ t.quoted
  | .badPort t => "invalid port in address " ++ t.quoted
  | .portRange t => "port out of range in address " ++ t.quoted

def maxPort : Int := 65535

def parse (t : Text) : Except ParseError Address :=
  match t.cutLast? ':' with
  | none => .error (.noPort t)
  | some (host, port) =>
    match Integer.read port with
    | .error _ => .error (.badPort t)
    | .ok port =>
      if port < 0 ∨ maxPort < port then .error (.portRange t)
      else .ok ⟨host.trim fun c => c = '[' || c = ']', port⟩

end Address

end PartRelay
