import SourceCorpus.Yaml.Token

/-!
YAML documents as trees. An alias is replaced by the node that it names, and tags are dropped.
-/

namespace SourceCorpus.Yaml

inductive Node where
  /-- A scalar, and whether it is written without quotes and not as a block. -/
  | scalar (text : String) (plain : Bool)
  | sequence (items : List Node)
  | mapping (entries : List (Node × Node))
  deriving Inhabited, Repr

namespace Node

def empty : Node := .scalar "" true

/-- What is left to read, and the nodes that have names. -/
structure Reader where
  tokens : List Token
  anchors : List (List Char × Node)

abbrev Read := StateT Reader Option

def peek? : Read (Option Token) := return (← get).tokens.head?

def advance : Read Unit := modify fun r => { r with tokens := r.tokens.drop 1 }

/-- Leaves the token, which has to come next. -/
def expect (t : Token) : Read Unit := do
  if (← peek?) == some t then advance else failure

/-- The properties before a node: the name that it gets, and whether there are any. -/
def properties : Nat → Option (List Char) → Bool → Bool → Read (Option (List Char) × Bool)
  | 0, _, _, _ => failure
  | fuel + 1, name, tagged, some? => do
    match ← peek? with
    | some (.anchor n) =>
      if name.isSome then return (name, some?)
      advance
      properties fuel (some n) tagged true
    | some .tag =>
      if tagged then return (name, some?)
      advance
      properties fuel name true true
    | _ => return (name, some?)

/-- Whether a value is left out before the token. -/
def isOmitted (enders : List Token) (next : Option Token) : Bool :=
  next.all enders.contains

mutual

/-- A node. In a `block` it may be a block collection, and with `loose` also a sequence that is not
indented. -/
def node : Nat → Bool → Bool → Read Node
  | 0, _, _ => failure
  | fuel + 1, block, loose => do
    match ← peek? with
    | some (.alias name) =>
      advance
      match (← get).anchors.lookup name with
      | some target => return target
      | none => failure
    | _ =>
      let (name, any) ← properties 3 none false false
      let n ← content fuel block loose any
      match name with
      | some name => modify fun r => { r with anchors := (name, n) :: r.anchors }
      | none => pure ()
      return n

/-- A node behind its properties, if it has any. -/
def content : Nat → Bool → Bool → Bool → Read Node
  | 0, _, _, _ => failure
  | fuel + 1, block, loose, any => do
    match ← peek? with
    | some .blockEntry =>
      if loose then return .sequence (← looseItems fuel)
      else if any then return empty else failure
    | some (.scalar text plain) =>
      advance
      return .scalar (String.ofList text) plain
    | some .flowSequenceStart =>
      advance
      return .sequence (← flowItems fuel true)
    | some .flowMappingStart =>
      advance
      return .mapping (← flowEntries fuel true)
    | some .blockSequenceStart =>
      if block then
        advance
        return .sequence (← blockItems fuel)
      else if any then return empty else failure
    | some .blockMappingStart =>
      if block then
        advance
        return .mapping (← blockEntries fuel)
      else if any then return empty else failure
    | _ => if any then return empty else failure

/-- A node, or nothing if one of the tokens comes next. -/
def nodeUnless : Nat → List Token → Bool → Bool → Read Node
  | 0, _, _, _ => failure
  | fuel + 1, enders, block, loose => do
    if isOmitted enders (← peek?) then return empty else node fuel block loose

/-- The items of a sequence that is not indented. -/
def looseItems : Nat → Read (List Node)
  | 0 => failure
  | fuel + 1 => do
    if (← peek?) == some .blockEntry then
      advance
      let item ← nodeUnless fuel [.blockEntry, .key, .value, .blockEnd] true false
      return item :: (← looseItems fuel)
    else return []

def blockItems : Nat → Read (List Node)
  | 0 => failure
  | fuel + 1 => do
    match ← peek? with
    | some .blockEntry =>
      advance
      let item ← nodeUnless fuel [.blockEntry, .blockEnd] true false
      return item :: (← blockItems fuel)
    | some .blockEnd =>
      advance
      return []
    | _ => failure

def blockEntries : Nat → Read (List (Node × Node))
  | 0 => failure
  | fuel + 1 => do
    match ← peek? with
    | some .key =>
      advance
      let key ← nodeUnless fuel [.key, .value, .blockEnd] true true
      let value ← blockValue fuel
      return (key, value) :: (← blockEntries fuel)
    | some .blockEnd =>
      advance
      return []
    | _ => failure

def blockValue : Nat → Read Node
  | 0 => failure
  | fuel + 1 => do
    if (← peek?) == some .value then
      advance
      nodeUnless fuel [.key, .value, .blockEnd] true true
    else return empty

/-- The items up to the closing bracket. Before each but the first stands a comma. -/
def flowItems : Nat → Bool → Read (List Node)
  | 0, _ => failure
  | fuel + 1, first => do
    if (← peek?) == some .flowSequenceEnd then
      advance
      return []
    if !first then expect .flowEntry
    match ← peek? with
    | some .flowSequenceEnd =>
      advance
      return []
    | some .key =>
      advance
      let key ← nodeUnless fuel [.value, .flowEntry, .flowSequenceEnd] false false
      let value ← flowValue fuel .flowSequenceEnd
      return .mapping [(key, value)] :: (← flowItems fuel false)
    | _ =>
      let item ← node fuel false false
      return item :: (← flowItems fuel false)

def flowEntries : Nat → Bool → Read (List (Node × Node))
  | 0, _ => failure
  | fuel + 1, first => do
    if (← peek?) == some .flowMappingEnd then
      advance
      return []
    if !first then expect .flowEntry
    match ← peek? with
    | some .flowMappingEnd =>
      advance
      return []
    | some .key =>
      advance
      let key ← nodeUnless fuel [.value, .flowEntry, .flowMappingEnd] false false
      let value ← flowValue fuel .flowMappingEnd
      return (key, value) :: (← flowEntries fuel false)
    | _ =>
      let key ← node fuel false false
      return (key, empty) :: (← flowEntries fuel false)

/-- The value of an entry within brackets that `close` ends. -/
def flowValue : Nat → Token → Read Node
  | 0, _ => failure
  | fuel + 1, close => do
    if (← peek?) == some .value then
      advance
      nodeUnless fuel [.flowEntry, close] false false
    else return empty

end

/-- The root of a document. One that is not marked as such has to begin with its root. -/
def root (fuel : Nat) : Read Node := do
  match ← peek? with
  | some .documentStart =>
    advance
    nodeUnless fuel [.directive, .documentStart, .documentEnd] true false
  | _ => node fuel true false

/-- The only document of the tokens; a text without tokens has an empty root. -/
def document (fuel : Nat) : Read Node := do
  match ← peek? with
  | none => return empty
  | some .directive =>
    advance
    if (← peek?) != some .documentStart then failure
  | _ => pure ()
  let n ← root fuel
  modify fun r => { r with tokens := r.tokens.dropWhile (· == .documentEnd) }
  if (← peek?).isSome then failure else return n

/-- The tree of a text. Every node takes few steps and has a token or a place between two. -/
def parse? (text : String) : Option Node := do
  let tokens ← tokens? text.toList
  let (n, _) ← StateT.run (document (8 * tokens.length + 8)) ⟨tokens, []⟩
  return n

end Node

end SourceCorpus.Yaml
