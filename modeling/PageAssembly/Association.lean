/-!
# Associations

Values under keys, kept as a list of pairs in which every key stands once.

## Main definitions

* `Association.erase`, `Association.insert` — an association with one key changed

## Main statements

* `Association.lookup_erase`, `Association.lookup_insert` — a change is seen at its own key only
-/

namespace PageAssembly.Association

variable {κ α : Type} [BEq κ]

/-- The association without a key. -/
def erase (key : κ) (entries : List (κ × α)) : List (κ × α) :=
  entries.filter fun (k, _) => !(k == key)

/-- The association with a value under a key. -/
def insert (key : κ) (value : α) (entries : List (κ × α)) : List (κ × α) :=
  (key, value) :: erase key entries

variable [LawfulBEq κ]

theorem lookup_erase_self (key : κ) (entries : List (κ × α)) :
    (erase key entries).lookup key = none := by
  induction entries with
  | nil => rfl
  | cons e entries ih =>
    obtain ⟨k, v⟩ := e
    by_cases hk : k = key
    · subst hk
      simpa [erase] using ih
    · have hk' : (k == key) = false := by simpa using hk
      have hl : (key == k) = false := by simpa using Ne.symm hk
      simpa [erase, hk', List.lookup_cons, hl] using ih

theorem lookup_erase_ne {key other : κ} (h : other ≠ key) (entries : List (κ × α)) :
    (erase key entries).lookup other = entries.lookup other := by
  induction entries with
  | nil => rfl
  | cons e entries ih =>
    obtain ⟨k, v⟩ := e
    by_cases hk : k = key
    · subst hk
      have ho : (other == k) = false := by simpa using h
      simpa [erase, List.lookup_cons, ho] using ih
    · have hk' : (k == key) = false := by simpa using hk
      rw [erase] at ih
      simp [erase, hk', List.lookup_cons, ih]

/-- An erased key is gone, and nothing else is seen to change. -/
theorem lookup_erase [DecidableEq κ] (key other : κ) (entries : List (κ × α)) :
    (erase key entries).lookup other = if other = key then none else entries.lookup other := by
  by_cases h : other = key
  · rw [h, if_pos rfl, lookup_erase_self]
  · rw [if_neg h, lookup_erase_ne h]

/-- A new value is seen under its key, and nothing else is seen to change. -/
theorem lookup_insert [DecidableEq κ] (key other : κ) (value : α) (entries : List (κ × α)) :
    (insert key value entries).lookup other =
      if other = key then some value else entries.lookup other := by
  by_cases h : other = key
  · subst h
    simp [insert]
  · have hb : (other == key) = false := by simpa using h
    rw [if_neg h, insert, List.lookup_cons, hb, lookup_erase_ne h]

end PageAssembly.Association
