import PageAssembly.Decimal.Shortest
import PageAssembly.Text.Quoted
import PageAssembly.Yaml.Timestamp
import PageAssembly.Yaml.Token

/-!
# Values of YAML documents

## Main definitions

* `Yaml.Value` — the values
* `Value.sameKey` — which values are one key
* `Value.get?` — the value under a textual key
* `Value.isEmpty` — the values that hold nothing
* `Value.shown` — how a value is shown in messages

## Design notes

As keys, numbers are compared by what they are equal to: the integer one, the real number one and
the truth value true are one key.  A list becomes a tuple when it is a key.
-/

namespace PageAssembly.Yaml

/-- The value of a document or of a part of it. -/
inductive Value where
  /-- The absence of a value. -/
  | null
  /-- A truth value. -/
  | boolean (value : Bool)
  /-- An integer. -/
  | integer (value : Int)
  /-- A real number. -/
  | real (value : Binary64)
  /-- A text. -/
  | text (value : Text)
  /-- A point in time. -/
  | timestamp (value : Timestamp)
  /-- Values in order. -/
  | list (items : List Value)
  /-- Values in order, as a key. -/
  | tuple (items : List Value)
  /-- Values under keys, in the order of the keys. -/
  | mapping (entries : List (Value × Value))
  /-- A collection that this value is part of. -/
  | enclosing (kind : Collection)
  deriving Repr

namespace Value

/-! ## Keys -/

/-- The integer that a number or a truth value is equal to. -/
def asInteger? : Value → Option Int
  | boolean b => some (if b then 1 else 0)
  | integer i => some i
  | real r => r.toInt?
  | _ => none

mutual

/-- Whether two values are one key. -/
def sameKey : Value → Value → Bool
  | null, null => true
  | text a, text b => a == b
  | timestamp a, timestamp b => a == b
  | tuple as, tuple bs => sameKeys as bs
  | real a, real b => a.equal b
  | a, b => (asInteger? a).isSome && asInteger? a == asInteger? b

/-- Whether two lists hold the same keys in the same order. -/
def sameKeys : List Value → List Value → Bool
  | [], [] => true
  | a :: as, b :: bs => sameKey a b && sameKeys as bs
  | _, _ => false

end

/-- Whether a value can be a key, and which one. -/
def asKey? : Value → Option Value
  | list items => some (tuple items)
  | mapping _ => none
  | enclosing _ => none
  | v => some v

/-- The value under a textual key of a mapping. -/
def get? (entries : List (Value × Value)) (key : Text) : Option Value :=
  (entries.find? fun (k, _) => k.sameKey (text key)).map Prod.snd

/-- Whether a value holds nothing, as a document without content does. -/
def isEmpty : Value → Bool
  | null => true
  | boolean b => !b
  | integer i => i == 0
  | real r => r.isZero
  | text s => s.isEmpty
  | list items => items.isEmpty
  | tuple items => items.isEmpty
  | mapping entries => entries.isEmpty
  | timestamp _ => false
  | enclosing _ => false

/-! ## Showing values -/

mutual

/-- How a value is shown in messages. -/
def shown : Value → Text
  | null => "None".toList
  | boolean b => if b then "True".toList else "False".toList
  | integer i => (toString i).toList
  | real r => r.text
  | text s => s.quoted
  | timestamp t => t.shown
  | list items => ['['] ++ [',', ' '].intercalate (shownItems items) ++ [']']
  | tuple [item] => ['('] ++ shown item ++ [',', ')']
  | tuple items => ['('] ++ [',', ' '].intercalate (shownItems items) ++ [')']
  | mapping entries => ['\x7b'] ++ [',', ' '].intercalate (shownEntries entries) ++ ['\x7d']
  | enclosing .sequence => "[...]".toList
  | enclosing .mapping => "\x7b...\x7d".toList

/-- How items are shown. -/
def shownItems : List Value → List Text
  | [] => []
  | item :: items => shown item :: shownItems items

/-- How entries are shown. -/
def shownEntries : List (Value × Value) → List Text
  | [] => []
  | (key, value) :: entries => (shown key ++ [':', ' '] ++ shown value) :: shownEntries entries

end

end Value

end PageAssembly.Yaml
