import PageAssembly.Yaml.Lexing
import PageAssembly.Yaml.Node
import PageAssembly.Yaml.Number
import PageAssembly.Yaml.Value

/-!
# Values of documents

## Main definitions

* `Yaml.Kind`, `Yaml.kindOf` — what a plain scalar stands for
* `Node.value` — the value of a node
* `Value.ofText` — the value of the only document of a text

## Design notes

A plain scalar without a tag gets its kind from its shape; any other scalar without a tag is a text.

A mapping may merge others into itself under the key `<<`.  Their entries come first, and an own
entry takes the place of a merged one with its key.  Without a merge no key may stand twice, and a
merge of something may not stand in front of another one.
-/

namespace PageAssembly.Yaml

/-! ## Scalars -/

/-- What a plain scalar stands for. -/
inductive Kind where
  /-- A truth value. -/
  | boolean (value : Bool)
  /-- A real number. -/
  | real
  /-- An integer. -/
  | integer
  /-- The key under which mappings are merged. -/
  | merge
  /-- The absence of a value. -/
  | null
  /-- A point in time. -/
  | timestamp (value : Timestamp)
  /-- The key of a mapping's default value. -/
  | value
  /-- A text. -/
  | text

/-- What a plain scalar stands for. -/
def kindOf (s : Text) : Kind :=
  if isWord ["true", "True", "TRUE"] s then .boolean true
  else if isWord ["false", "False", "FALSE"] s then .boolean false
  else if isReal s then .real
  else if isInteger s then .integer
  else if isWord ["<<"] s then .merge
  else if isWord ["", "~", "null", "Null", "NULL"] s then .null
  else
    match timestamp? s with
    | some t => .timestamp t
    | none => if isWord ["="] s then .value else .text

/-- Reports a fault of a scalar as one of the document. -/
def ofScalar {α : Type} : Except ScalarFault α → Except Fault α
  | .ok a => .ok a
  | .error fault => .error (.scalar fault)

/-- The value of a point in time. -/
def timestampValue (t : Timestamp) : Except Fault Value :=
  (ofScalar t.check).map fun _ => .timestamp t.universal

/-- The value of a plain scalar. -/
def plainValue (s : Text) : Except Fault Value :=
  match kindOf s with
  | .boolean b => .ok (.boolean b)
  | .real => (ofScalar (real s)).map .real
  | .integer => (ofScalar (integer s)).map .integer
  | .null => .ok .null
  | .timestamp t => timestampValue t
  | .text => .ok (.text s)
  | .merge | .value => .error .tag

/-- The truth values by their names, in small letters. -/
def truthNames : List (String × Bool) := [
  ("true", true), ("false", false), ("yes", true), ("no", false), ("y", true), ("n", false),
  ("on", true), ("off", false)]

/-- The spelling of a standard tag. -/
def standardTag (name : String) : Text := Reading.standard ++ name.toList

/-- The value of a scalar with a tag. -/
def taggedValue (tag s : Text) : Except Fault Value :=
  if tag = standardTag "str" then .ok (.text s)
  else if tag = standardTag "null" then .ok .null
  else if tag = standardTag "int" then (ofScalar (integer s)).map .integer
  else if tag = standardTag "float" then (ofScalar (real s)).map .real
  else if tag = standardTag "bool" then
    match truthNames.find? fun (name, _) => name.toList = s.map Char.toLower with
    | some (_, b) => .ok (.boolean b)
    | none => .error .tag
  else if tag = standardTag "timestamp" then
    match timestamp? s with
    | some t => timestampValue t
    | none => .error .tag
  else .error .tag

/-- The value of a scalar. -/
def scalarValue (tag : Option Text) (plain : Bool) (s : Text) : Except Fault Value :=
  match tag with
  | some tag => taggedValue tag s
  | none => if plain then plainValue s else .ok (.text s)

/-! ## Mappings -/

/-- A key and its value, in the place of an earlier entry with the same key. -/
def putEntry (entries : List (Value × Value)) (entry : Value × Value) : List (Value × Value) :=
  if entries.any fun (k, _) => k.sameKey entry.1 then
    entries.map fun (k, v) => if k.sameKey entry.1 then (k, entry.2) else (k, v)
  else entries ++ [entry]

/-- Entries with every key once; a key that stands twice is a fault. -/
def uniqueEntries : (seen entries : List (Value × Value)) → Except Fault (List (Value × Value))
  | seen, [] => .ok seen.reverse
  | seen, entry :: entries =>
    if seen.any fun (k, _) => k.sameKey entry.1 then .error .duplicateKey
    else uniqueEntries (entry :: seen) entries

/-- The entries of a mapping in the order in which they stand. -/
structure Entries where
  /-- The entries merged from other mappings. -/
  merged : List (Value × Value) := []
  /-- The own entries. -/
  own : List (Value × Value) := []

namespace Entries

/-- All entries, the merged ones first. -/
def all (e : Entries) : List (Value × Value) := e.merged ++ e.own

/-- The value of the mapping with the given entries. -/
def value (e : Entries) : Except Fault Value :=
  if e.merged.isEmpty then (uniqueEntries [] e.own).map .mapping
  else .ok (.mapping (e.all.foldl putEntry []))

/-- Adds an own entry in front. -/
def withOwn (key value : Value) (e : Entries) : Except Fault Entries :=
  match key.asKey? with
  | some key => .ok { e with own := (key, value) :: e.own }
  | none => .error .keyValue

/-- Puts merged entries in front, if there are any. -/
def withMerged (entries : List (Value × Value)) (e : Entries) : Entries :=
  if entries.isEmpty then e else { e with merged := entries }

end Entries

/-- Whether a key of a mapping asks for a merge. -/
def isMergeKey : Node → Bool
  | .scalar none true s => s == ['<', '<']
  | _ => false

/-- The text of a key that would be the one of a default value. -/
def defaultKey? : Node → Option Text
  | .scalar none true ['='] => some ['=']
  | _ => none

/-! ## Nodes -/

namespace Node

mutual

/-- The value of a node. -/
def value : Node → Except Fault Value
  | scalar tag plain s => scalarValue tag plain s
  | sequence tag items =>
    if tag.all (· == standardTag "seq") then (values items).map .list else .error .tag
  | mapping tag nodes =>
    if tag.all (· == standardTag "map") then (entries nodes).bind Entries.value
    else .error .tag
  | enclosing kind => .ok (.enclosing kind)

/-- The values of nodes. -/
def values : List Node → Except Fault (List Value)
  | [] => .ok []
  | node :: nodes => do
    let first ← value node
    return first :: (← values nodes)

/-- The entries of a mapping. -/
def entries : List (Node × Node) → Except Fault Entries
  | [] => .ok {}
  | (key, node) :: rest => do
    if isMergeKey key then
      let merged ← mergedEntries node
      if !merged.isEmpty && rest.any (fun (k, _) => isMergeKey k) then throw .duplicateKey
      return (← entries rest).withMerged merged
    else
      let keyValue ← match defaultKey? key with
        | some s => .ok (.text s)
        | none => value key
      let nodeValue ← value node
      (← entries rest).withOwn keyValue nodeValue

/-- The entries that a mapping, or a sequence of mappings, merges into another one.  Of a sequence
the first mapping with a key prevails, so its entries come last. -/
def mergedEntries : Node → Except Fault (List (Value × Value))
  | mapping _ nodes => (entries nodes).map Entries.all
  | sequence _ items => mergedItems items
  | _ => .error .merge

/-- The entries of merged mappings, those of the last one first. -/
def mergedItems : List Node → Except Fault (List (Value × Value))
  | [] => .ok []
  | mapping _ nodes :: items => do
    let first ← entries nodes
    return (← mergedItems items) ++ first.all
  | _ :: _ => .error .merge

end

end Node

/-- The value of the only document of a text; a text without a document stands for no value. -/
def Value.ofText (s : Text) : Except Fault Value := do
  match ← Node.ofTokens (← tokens s) with
  | none => return .null
  | some node => node.value

end PageAssembly.Yaml
