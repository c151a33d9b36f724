import PageAssembly.Yaml.Fault
import PageAssembly.Yaml.Token

/-!
# Nodes

A document is a tree of scalars, sequences and mappings.

## Main definitions

* `Yaml.Node` — the trees
* `Yaml.Reading` — reads tokens and knows the anchors in front of them
* `Reading.node` — the node that comes next
* `Reading.document` — the only document of a text
* `Node.ofTokens` — the document that tokens spell

## Design notes

An alias is replaced by the node with its name.  Inside a collection its own name stands for the
collection as it will be, which a tree cannot hold, so such an alias becomes a node of its own.

What is left out between two tokens of the grammar, for instance a value behind a colon, is an empty
plain scalar.

The grammar is followed by functions that call each other.  Between two calls at least every fourth
one takes a token, so four times the number of tokens bounds the depth of the calls.
-/

namespace PageAssembly.Yaml

/-- The tree of a document. -/
inductive Node where
  /-- A scalar with its tag; a plain one without a tag gets its kind from its text. -/
  | scalar (tag : Option Text) (plain : Bool) (text : Text)
  /-- Nodes in order. -/
  | sequence (tag : Option Text) (items : List Node)
  /-- Nodes under keys. -/
  | mapping (tag : Option Text) (entries : List (Node × Node))
  /-- A collection that this node is part of. -/
  | enclosing (kind : Collection)
  deriving Repr

/-- The node for what is left out. -/
def Node.empty : Node := .scalar none true []

/-- A node with a name. -/
structure Anchored where
  /-- The name. -/
  name : Text
  /-- The number of tokens behind its anchor, which tells anchors of one name apart. -/
  tokensBehind : Nat
  /-- The node, or the mark of a collection that is not complete. -/
  node : Node

/-- What is known in front of a token. -/
structure ReadingState where
  /-- The tokens that come next. -/
  tokens : List Token
  /-- The named nodes, last one first. -/
  anchors : List Anchored := []
  /-- The handles of tags and what they stand for. -/
  handles : List (Text × Text) := []

/-- Reads tokens and knows the anchors in front of them. -/
abbrev Reading := StateT ReadingState (Except Fault)

namespace Reading

/-- The start of the tags of the standard types. -/
def standard : Text := "tag:yaml.org,2002:".toList

/-- The handles that need no directive. -/
def standardHandles : List (Text × Text) := [(['!'], ['!']), (['!', '!'], standard)]

/-- The next token. -/
def peek? : Reading (Option Token) := return (← get).tokens.head?

/-- Goes on behind the next token. -/
def pass : Reading Unit := modify fun s => { s with tokens := s.tokens.tail }

/-- Whether the next token is one of the given ones, or there is none and the end is asked for. -/
def isNext (tokens : List Token) : Reading Bool := do
  return (← peek?).any tokens.elem

/-- Goes on behind the given token, if it comes next. -/
def take? (token : Token) : Reading Bool := do
  if ← isNext [token] then
    pass
    return true
  else return false

/-! ## Properties of nodes -/

/-- The name and the tag in front of a node. -/
structure Properties where
  /-- The name. -/
  anchor : Option Text := none
  /-- The tag as it is written. -/
  tag : Option (Option Text × Text) := none

/-- The name that comes next, if there is one. -/
def anchor? : Reading (Option Text) := do
  match ← peek? with
  | some (.anchor name) =>
    pass
    return some name
  | _ => return none

/-- The tag that comes next, if there is one. -/
def tag? : Reading (Option (Option Text × Text)) := do
  match ← peek? with
  | some (.tag handle suffix) =>
    pass
    return some (handle, suffix)
  | _ => return none

/-- The name and the tag in front of a node, in either order. -/
def properties : Reading Properties := do
  match ← anchor? with
  | some name => return { anchor := some name, tag := ← tag? }
  | none =>
    match ← tag? with
    | some tag => return { anchor := ← anchor?, tag := some tag }
    | none => return {}

/-- The complete spelling of a tag. -/
def tagText : Option Text × Text → Reading Text
  | (none, suffix) => return suffix
  | (some handle, suffix) => do
    match (← get).handles.lookup handle with
    | some start => return start ++ suffix
    | none => throw .handle

/-- Gives a node its name. -/
def name (anchor : Option Text) (tokensBehind : Nat) (node : Node) : Reading Unit :=
  match anchor with
  | none => return
  | some name =>
    modify fun s => { s with anchors := { name, tokensBehind, node } :: s.anchors }

/-- Puts a complete collection in the place of its mark. -/
def complete (tokensBehind : Nat) (node : Node) : Reading Unit :=
  modify fun s => { s with
    anchors := s.anchors.map fun a =>
      if a.tokensBehind = tokensBehind then { a with node } else a }

/-- A collection with a name, which its items can refer to. -/
def collection {α : Type} (anchor : Option Text) (kind : Collection) (build : α → Node)
    (items : Reading α) : Reading Node := do
  let tokensBehind := (← get).tokens.length
  name anchor tokensBehind (.enclosing kind)
  let node := build (← items)
  if anchor.isSome then complete tokensBehind node
  return node

/-! ## The grammar -/

/-- The tokens in front of which a value or an entry of a block collection is left out. -/
def blockStops : List Token := [.blockEntry, .key, .value, .blockEnd]

mutual

/-- The node that comes next. -/
def node : (budget : Nat) → (block indentless : Bool) → Reading Node
  | 0, _, _ => throw .arrangement
  | budget + 1, block, indentless => do
    if let some (.alias name) := ← peek? then
      pass
      match (← get).anchors.find? (·.name == name) with
      | some found => return found.node
      | none => throw .alias
    let properties ← properties
    let tag ← properties.tag.mapM tagText
    content budget block indentless properties.anchor tag

/-- The node that comes next, behind its name and its tag.  The tag of a single mark asks for the
kind that the text of a plain scalar has. -/
def content : (budget : Nat) → (block indentless : Bool) → (anchor tag : Option Text) → Reading Node
  | 0, _, _, _, _ => throw .arrangement
  | budget + 1, block, indentless, anchor, tag => do
    let own := tag.filter (· != ['!'])
    match ← peek? with
    | some (.scalar plain text) =>
      pass
      let node := .scalar own ((plain || tag.isSome) && own.isNone) text
      name anchor 0 node
      return node
    | some (.flowStart .sequence) =>
      pass
      collection anchor .sequence (.sequence own) (flowItems budget true)
    | some (.flowStart .mapping) =>
      pass
      collection anchor .mapping (.mapping own) (flowEntries budget true)
    | some (.blockStart .sequence) =>
      if !block then throw .arrangement
      pass
      collection anchor .sequence (.sequence own) (blockItems budget)
    | some (.blockStart .mapping) =>
      if !block then throw .arrangement
      pass
      collection anchor .mapping (.mapping own) (blockEntries budget)
    | next =>
      if indentless ∧ next = some .blockEntry then
        collection anchor .sequence (.sequence own) (indentlessItems budget)
      else if anchor.isSome ∨ tag.isSome then
        let node := .scalar own own.isNone []
        name anchor 0 node
        return node
      else throw .arrangement

/-- A node, or the empty one in front of certain tokens. -/
def nodeUnless : (budget : Nat) → (stops : List Token) → (block indentless : Bool) → Reading Node
  | 0, _, _, _ => throw .arrangement
  | budget + 1, stops, block, indentless => do
    if ← isNext stops then return .empty
    node budget block indentless

/-- The items of a block sequence and its end. -/
def blockItems : (budget : Nat) → Reading (List Node)
  | 0 => throw .arrangement
  | budget + 1 => do
    if ← take? .blockEntry then
      let item ← nodeUnless budget [.blockEntry, .blockEnd] true false
      return item :: (← blockItems budget)
    else if ← take? .blockEnd then return []
    else throw .arrangement

/-- The items of a sequence whose entries stand in the column of the key in front of it. -/
def indentlessItems : (budget : Nat) → Reading (List Node)
  | 0 => throw .arrangement
  | budget + 1 => do
    if ← take? .blockEntry then
      let item ← nodeUnless budget blockStops true false
      return item :: (← indentlessItems budget)
    else return []

/-- The entries of a block mapping and its end. -/
def blockEntries : (budget : Nat) → Reading (List (Node × Node))
  | 0 => throw .arrangement
  | budget + 1 => do
    if ← isNext [.key, .value] then
      let stops := [.key, .value, .blockEnd]
      let key ← if ← take? .key then nodeUnless budget stops true true else pure .empty
      let value ← if ← take? .value then nodeUnless budget stops true true else pure .empty
      return (key, value) :: (← blockEntries budget)
    else if ← take? .blockEnd then return []
    else throw .arrangement

/-- The key and the value of an entry in brackets, behind the token that starts the key. -/
def flowEntry : (budget : Nat) → Collection → Reading (Node × Node)
  | 0, _ => throw .arrangement
  | budget + 1, kind => do
    let stops := [.flowEntry, .flowEnd kind]
    let key ← nodeUnless budget (.value :: stops) false false
    let value ← if ← take? .value then nodeUnless budget stops false false else pure .empty
    return (key, value)

/-- The items of a sequence in brackets and its end.  An entry with a key is a mapping of its
own. -/
def flowItems : (budget : Nat) → (isFirst : Bool) → Reading (List Node)
  | 0, _ => throw .arrangement
  | budget + 1, isFirst => do
    if ← take? (.flowEnd .sequence) then return []
    if !isFirst then
      if !(← take? .flowEntry) then throw .arrangement
      if ← take? (.flowEnd .sequence) then return []
    let item ←
      if ← take? .key then (fun entry => .mapping none [entry]) <$> flowEntry budget .sequence
      else node budget false false
    return item :: (← flowItems budget false)

/-- The entries of a mapping in brackets and its end.  A node without a colon is a key. -/
def flowEntries : (budget : Nat) → (isFirst : Bool) → Reading (List (Node × Node))
  | 0, _ => throw .arrangement
  | budget + 1, isFirst => do
    if ← take? (.flowEnd .mapping) then return []
    if !isFirst then
      if !(← take? .flowEntry) then throw .arrangement
      if ← take? (.flowEnd .mapping) then return []
    let entry ←
      if ← take? .key then flowEntry budget .mapping
      else if ← isNext [.value] then flowEntry budget .mapping
      else (fun key => (key, .empty)) <$> node budget false false
    return entry :: (← flowEntries budget false)

end

/-! ## Documents -/

/-- The directives in front of a document: a version at most once, and every handle at most once. -/
def directives : (budget : Nat) → (versionSeen : Bool) → (declared : List (Text × Text)) →
    Reading (List (Text × Text))
  | 0, _, _ => throw .arrangement
  | budget + 1, versionSeen, declared => do
    match ← peek? with
    | some (.directive directive) =>
      pass
      match directive with
      | .version major =>
        if versionSeen ∨ major ≠ 1 then throw .directive
        directives budget true declared
      | .handle handle start =>
        if (declared.lookup handle).isSome then throw .directive
        directives budget versionSeen ((handle, start) :: declared)
      | .other => directives budget versionSeen declared
    | _ => return declared

/-- The only document of a text; nothing when there is none. -/
def document : Reading (Option Node) := do
  let size := (← get).tokens.length
  match ← peek? with
  | none => return none
  | some first =>
    let isExplicit := match first with
      | .directive _ | .documentStart => true
      | _ => false
    let mut declared := []
    if isExplicit then
      declared ← directives (size + 1) false []
      if !(← take? .documentStart) then throw .arrangement
    modify fun s => { s with handles := declared ++ standardHandles }
    let isEmpty := isExplicit && match ← peek? with
      | none | some (.directive _) | some .documentStart | some .documentEnd => true
      | _ => false
    let root ← if isEmpty then pure .empty else node (4 * size + 8) true false
    let _ ← take? .documentEnd
    if (← peek?).isSome then throw .arrangement
    return some root

end Reading

/-- The document that tokens spell. -/
def Node.ofTokens (tokens : List Token) : Except Fault (Option Node) :=
  (Reading.document.run { tokens }).map Prod.fst

end PageAssembly.Yaml
