import PartRelay.Yaml.Token

/-!
# Nodes

The tree of a document: scalars, sequences and mappings. A node that is left out is an empty plain
scalar. A mapping can take the fields of other mappings over; that is done before it is read.
-/

namespace PartRelay.Yaml

inductive Node where
  /-- A scalar without quotes, whose kind its text decides. -/
  | plain (t : Text)
  /-- A scalar in quotes, which is always text. -/
  | quoted (t : Text)
  | sequence (items : List Node)
  | mapping (fields : List (Node × Node))
  /-- A mapping that takes over the fields of what has none. -/
  | broken

namespace Node

/-! ## From tokens -/

/-- What is left out. -/
def empty : Node := .plain []

/-- The fault where the tokens do not go on as they should. -/
def unexpected : List Token → ReadError
  | .invalid e :: _ => e
  | _ => .malformed

/-- An entry between brackets: something alone, or a key with its value. -/
structure FlowEntry where
  node : Node
  value : Option Node := none

/-- An entry of a sequence; a key with its value is a mapping of its own. -/
def FlowEntry.item (e : FlowEntry) : Node :=
  match e.value with
  | none => e.node
  | some value => .mapping [(e.node, value)]

/-- An entry of a mapping; something alone is a key without value. -/
def FlowEntry.field (e : FlowEntry) : Node × Node := (e.node, e.value.getD empty)

/-- Whether the tokens start with the end of a bracket, and what follows it. -/
def flowEnd? (braces : Bool) : List Token → Option (List Token)
  | .flowSequenceEnd :: rest => if braces then none else some rest
  | .flowMappingEnd :: rest => if braces then some rest else none
  | _ => none

mutual

/-- The node at the start of the tokens, none where they start with something else, and what
follows. As a key or a value, `loose`, the items of a sequence may stand without a collection of
their own. -/
def read? : (fuel : Nat) → (loose : Bool) → List Token →
    Except ReadError (Option Node × List Token)
  | 0, _, tokens => .error (unexpected tokens)
  | fuel + 1, loose, tokens =>
    match tokens with
    | .plain t :: rest => .ok (some (.plain t), rest)
    | .quoted t :: rest => .ok (some (.quoted t), rest)
    | .flowSequence :: rest =>
      (flowEntries fuel false rest).map fun (entries, rest) =>
        (some (.sequence (entries.map FlowEntry.item)), rest)
    | .flowMapping :: rest =>
      (flowEntries fuel true rest).map fun (entries, rest) =>
        (some (.mapping (entries.map FlowEntry.field)), rest)
    | .blockSequence :: rest =>
      match blockItems fuel rest with
      | .error e => .error e
      | .ok (items, .blockEnd :: rest) => .ok (some (.sequence items), rest)
      | .ok (_, rest) => .error (unexpected rest)
    | .blockMapping :: rest =>
      match blockFields fuel rest with
      | .error e => .error e
      | .ok (fields, .blockEnd :: rest) => .ok (some (.mapping fields), rest)
      | .ok (_, rest) => .error (unexpected rest)
    | .item :: _ =>
      if loose then
        (blockItems fuel tokens).map fun (items, rest) => (some (.sequence items), rest)
      else .ok (none, tokens)
    | _ => .ok (none, tokens)

/-- The value behind a key, which may be left out together with its mark. -/
def readValue : (fuel : Nat) → (loose : Bool) → List Token → Except ReadError (Node × List Token)
  | 0, _, tokens => .error (unexpected tokens)
  | fuel + 1, loose, tokens =>
    match tokens with
    | .value :: rest => (read? fuel loose rest).map fun (node, rest) => (node.getD empty, rest)
    | _ => .ok (empty, tokens)

/-- The items at the start of the tokens. -/
def blockItems : (fuel : Nat) → List Token → Except ReadError (List Node × List Token)
  | 0, tokens => .error (unexpected tokens)
  | fuel + 1, tokens =>
    match tokens with
    | .item :: rest =>
      match read? fuel false rest with
      | .error e => .error e
      | .ok (node, rest) =>
        (blockItems fuel rest).map fun (items, rest) => (node.getD empty :: items, rest)
    | _ => .ok ([], tokens)

/-- The fields at the start of the tokens. -/
def blockFields : (fuel : Nat) → List Token → Except ReadError (List (Node × Node) × List Token)
  | 0, tokens => .error (unexpected tokens)
  | fuel + 1, tokens =>
    match tokens with
    | .key :: rest =>
      match read? fuel true rest with
      | .error e => .error e
      | .ok (key, rest) =>
        match readValue fuel true rest with
        | .error e => .error e
        | .ok (value, rest) =>
          (blockFields fuel rest).map fun (fields, rest) =>
            ((key.getD empty, value) :: fields, rest)
    | _ => .ok ([], tokens)

/-- The entry of a bracket. -/
def flowEntry : (fuel : Nat) → List Token → Except ReadError (FlowEntry × List Token)
  | 0, tokens => .error (unexpected tokens)
  | fuel + 1, tokens =>
    match tokens with
    | .key :: rest =>
      match read? fuel false rest with
      | .error e => .error e
      | .ok (key, rest) =>
        (readValue fuel false rest).map fun (value, rest) => (⟨key.getD empty, some value⟩, rest)
    | _ =>
      match read? fuel false tokens with
      | .error e => .error e
      | .ok (some node, rest) => .ok (⟨node, none⟩, rest)
      | .ok (none, rest) => .error (unexpected rest)

/-- The entries up to the end of a bracket, with separators between them. -/
def flowEntries : (fuel : Nat) → (braces : Bool) → List Token →
    Except ReadError (List FlowEntry × List Token)
  | 0, _, tokens => .error (unexpected tokens)
  | fuel + 1, braces, tokens =>
    match flowEnd? braces tokens with
    | some rest => .ok ([], rest)
    | none =>
      match flowEntry fuel tokens with
      | .error e => .error e
      | .ok (entry, .separator :: rest) =>
        (flowEntries fuel braces rest).map fun (entries, rest) => (entry :: entries, rest)
      | .ok (entry, rest) =>
        match flowEnd? braces rest with
        | some rest => .ok ([entry], rest)
        | none => .error (unexpected rest)

end

def isDocumentEnd : Token → Bool
  | .documentEnd => true
  | _ => false

/-- Whether nothing but document ends is left. -/
def finish (node : Node) (rest : List Token) : Except ReadError Node :=
  match rest.dropWhile isDocumentEnd with
  | [] => .ok node
  | rest => .error (unexpected rest)

/-- The only document of the tokens. It can be left out behind the mark of its start, or where there
are no tokens at all. -/
def ofTokens (tokens : List Token) : Except ReadError Node :=
  let fuel := 3 * tokens.length + 3
  match tokens with
  | [] => .ok empty
  | .documentStart :: rest =>
    match read? fuel false rest with
    | .error e => .error e
    | .ok (node, rest) => finish (node.getD empty) rest
  | _ =>
    match read? fuel false tokens with
    | .error e => .error e
    | .ok (some node, rest) => finish node rest
    | .ok (none, rest) => .error (unexpected rest)

/-! ## Merging -/

/-- The key whose value is what a mapping takes over. -/
def isMergeKey : Node → Bool
  | .plain t => t = "<<"
  | _ => false

/-- A key; the sign that elsewhere stands for no value is text. -/
def asKey : Node → Node
  | .plain t => if t = "=" then .quoted t else .plain t
  | key => key

def fields? : Node → Option (List (Node × Node))
  | .mapping fields => some fields
  | _ => none

/-- The fields that can be taken over from a node: those of a mapping, or those of a list of
mappings with the first one last, so that it counts most. -/
def sources? : Node → Option (List (Node × Node))
  | .mapping fields => some fields
  | .sequence items => (items.reverse.mapM fields?).map List.flatten
  | _ => none

mutual

/-- The node with the fields that its mappings take over, in front of their own. -/
def merged : Node → Node
  | .plain t => .plain t
  | .quoted t => .quoted t
  | .broken => .broken
  | .sequence items => .sequence (mergedItems items)
  | .mapping fields =>
    match mergedFields fields with
    | none => .broken
    | some (taken, own) => .mapping (taken ++ own)

def mergedItems : List Node → List Node
  | [] => []
  | item :: items => item.merged :: mergedItems items

/-- The fields that are taken over, and the other ones. -/
def mergedFields : List (Node × Node) → Option (List (Node × Node) × List (Node × Node))
  | [] => some ([], [])
  | (key, value) :: fields =>
    match mergedFields fields with
    | none => none
    | some (taken, own) =>
      if key.isMergeKey then value.merged.sources?.map fun source => (source ++ taken, own)
      else some (taken, (key.asKey, value.merged) :: own)

end

end Node

end PartRelay.Yaml
