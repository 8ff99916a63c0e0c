import PartRelay.Yaml.Node
import PartRelay.Yaml.Scalar

/-!
# Documents

The value of a YAML document. A text that is not well formed has none. In a well formed one values
can still be at fault; collections are filled level by level, those of a level in the order of the
text, so the fault that is least deep counts.
-/

namespace PartRelay.Yaml

/-- A fault and the depth of the collection in which it stands. -/
structure Failure where
  depth : Nat
  cause : ReadError

/-- The results of both, or the fault that is less deep; of faults of one depth the first. -/
def both {α β : Type} (x : Except Failure α) (y : Except Failure β) : Except Failure (α × β) :=
  match x, y with
  | .ok a, .ok b => .ok (a, b)
  | .error e, .ok _ => .error e
  | .ok _, .error f => .error f
  | .error e, .error f => .error (if f.depth < e.depth then f else e)

namespace Node

/-- Whether a node can be a key: lists and mappings cannot. -/
def isScalar : Node → Bool
  | .plain _ | .quoted _ => true
  | _ => false

mutual

/-- The value of a node in a collection of a depth. -/
def value (depth : Nat) : Node → Except Failure Value
  | .plain t => (resolve t).mapError fun cause => { depth, cause }
  | .quoted t => .ok (.text t)
  | .sequence items => (itemValues (depth + 1) items).map .list
  | .mapping fields => (fieldValues (depth + 1) fields).map .ofFields
  | .broken => .error { depth := depth + 1, cause := .malformed }

def itemValues (depth : Nat) : List Node → Except Failure (List Value)
  | [] => .ok []
  | item :: items =>
    (both (item.value depth) (itemValues depth items)).map fun (value, values) => value :: values

def fieldValues (depth : Nat) : List (Node × Node) → Except Failure (List (Value × Value))
  | [] => .ok []
  | (key, value) :: fields =>
    if !key.isScalar then .error { depth, cause := .malformed }
    else
      (both (both (key.value depth) (value.value depth)) (fieldValues depth fields)).map
        fun (field, values) => field :: values

end

end Node

/-- Reads the only document of a text. -/
def read (t : Text) : Except ReadError Value :=
  if !t.all isAllowed then .error .malformed
  else match Node.ofTokens (Token.ofText t) with
    | .error e => .error e
    | .ok node => (node.merged.value 0).mapError Failure.cause

end PartRelay.Yaml
