import PageAssembly.Text.Blank

/-!
# Searching a text from the left

A recogniser is a function on texts that succeeds when the text starts in a certain way.
Searching applies it at every position from the left and stops at the first success.

## Main definitions

* `Text.after?` — what follows a literal at the start of a text
* `Text.search` — the leftmost position at which a recogniser succeeds
* `Text.cut?` — the text before and after the leftmost occurrence of a literal
* `Text.through?` — the text up to and including the first occurrence of a character

## Main statements

* `Text.search_eq_some` — the text splits at the position found
* `Text.search_cons` — a search as a recursion over the text
* `Text.after?_eq_some` — a literal found at the start is exactly what was removed
-/

namespace PageAssembly.Text

/-- What follows `mark` when the text starts with it. -/
def after? : (mark s : Text) → Option Text
  | [], s => some s
  | _ :: _, [] => none
  | m :: mark, c :: s => if m = c then after? mark s else none

theorem after?_eq_some {mark s rest : Text} : after? mark s = some rest ↔ s = mark ++ rest := by
  induction mark generalizing s with
  | nil => simp [after?, eq_comm]
  | cons m mark ih =>
    cases s with
    | nil => simp [after?]
    | cons c s =>
      by_cases h : m = c
      · subst h; simp [after?, ih]
      · simp [after?, h, Ne.symm h]

/-- Whether the text starts with `mark`. -/
def startsWith (s mark : Text) : Bool := (after? mark s).isSome

/-- Whether the text ends with `mark`. -/
def endsWith (s mark : Text) : Bool := startsWith s.reverse mark.reverse

/-- The text without `mark` at its end, when it ends with it. -/
def dropEnd? (s mark : Text) : Option Text := (after? mark.reverse s.reverse).map List.reverse

theorem dropEnd?_eq_some {s mark rest : Text} : dropEnd? s mark = some rest ↔ s = rest ++ mark := by
  rw [dropEnd?, Option.map_eq_some_iff]
  constructor
  · rintro ⟨tail, h, rfl⟩
    have := congrArg List.reverse (after?_eq_some.1 h)
    simpa using this
  · rintro rfl
    exact ⟨rest.reverse, after?_eq_some.2 (by simp), by simp⟩

/-- The search behind `Text.search`; `seen` is the text passed so far, last character first. -/
def searchFrom {α : Type} (found : Text → Option α) (seen : Text) : Text → Option (Text × α)
  | [] => (found []).map fun a => (seen.reverse, a)
  | c :: s =>
    match found (c :: s) with
    | some a => some (seen.reverse, a)
    | none => searchFrom found (c :: seen) s

/-- The leftmost position at which `found` succeeds: the text before it and what `found` gave. -/
def search {α : Type} (found : Text → Option α) (s : Text) : Option (Text × α) :=
  searchFrom found [] s

theorem searchFrom_eq_some {α : Type} {found : Text → Option α} {seen s before : Text} {a : α}
    (h : searchFrom found seen s = some (before, a)) :
    ∃ skipped rest, before = seen.reverse ++ skipped ∧ s = skipped ++ rest ∧ found rest = some a := by
  induction s generalizing seen with
  | nil =>
    simp only [searchFrom, Option.map_eq_some_iff, Prod.mk.injEq] at h
    obtain ⟨b, hb, rfl, rfl⟩ := h
    exact ⟨[], [], by simp, rfl, hb⟩
  | cons c s ih =>
    rw [searchFrom] at h
    split at h
    · next b hb =>
      simp only [Option.some.injEq, Prod.mk.injEq] at h
      obtain ⟨rfl, rfl⟩ := h
      exact ⟨[], c :: s, by simp, rfl, hb⟩
    · obtain ⟨skipped, rest, rfl, rfl, hb⟩ := ih h
      exact ⟨c :: skipped, rest, by simp, rfl, hb⟩

/-- A successful search splits the text at the position found. -/
theorem search_eq_some {α : Type} {found : Text → Option α} {s before : Text} {a : α}
    (h : search found s = some (before, a)) :
    ∃ rest, s = before ++ rest ∧ found rest = some a := by
  obtain ⟨skipped, rest, rfl, rfl, hb⟩ := searchFrom_eq_some h
  exact ⟨rest, by simp, hb⟩

theorem searchFrom_eq {α : Type} (found : Text → Option α) (seen s : Text) :
    searchFrom found seen s =
      (search found s).map fun (before, a) => (seen.reverse ++ before, a) := by
  rw [search]
  induction s generalizing seen with
  | nil => cases h : found [] <;> simp [searchFrom, h]
  | cons c s ih =>
    rw [searchFrom, searchFrom]
    cases found (c :: s) with
    | some a => simp
    | none =>
      simp only
      rw [ih (c :: seen), ih [c], Option.map_map]
      refine congrArg (Option.map · _) (funext fun _ => ?_)
      simp

/-- A search tries the first position and goes on behind it. -/
theorem search_cons {α : Type} (found : Text → Option α) (c : Char) (s : Text) :
    search found (c :: s) =
      match found (c :: s) with
      | some a => some ([], a)
      | none => (search found s).map fun (before, a) => (c :: before, a) := by
  rw [search, searchFrom]
  cases found (c :: s) with
  | some a => rfl
  | none => exact searchFrom_eq found [c] s

/-- The text before and after the leftmost occurrence of `mark`. -/
def cut? (mark s : Text) : Option (Text × Text) := search (after? mark) s

theorem cut?_eq_some {mark s before rest : Text} (h : cut? mark s = some (before, rest)) :
    s = before ++ mark ++ rest := by
  obtain ⟨tail, rfl, ht⟩ := search_eq_some h
  simp [after?_eq_some.1 ht]

/-- A literal does not start in a text that lacks its first character. -/
theorem cut?_append_of_notMem {m : Char} {mark s : Text} (absent : m ∉ s) (more : Text) :
    cut? (m :: mark) (s ++ more) =
      (cut? (m :: mark) more).map fun (before, rest) => (s ++ before, rest) := by
  induction s with
  | nil => cases h : cut? (m :: mark) more <;> simp [h]
  | cons c s ih =>
    rw [List.mem_cons, not_or] at absent
    rw [cut?, List.cons_append, search_cons, after?, if_neg absent.1]
    simp only
    rw [← cut?, ih absent.2, Option.map_map]
    rfl

/-- A literal at the start of a text is found there. -/
theorem cut?_mark_append (m : Char) (mark rest : Text) :
    cut? (m :: mark) (m :: mark ++ rest) = some ([], rest) := by
  have here : after? (m :: mark) (m :: mark ++ rest) = some rest := after?_eq_some.2 rfl
  rw [cut?, List.cons_append, search_cons, ← List.cons_append, here]

/-- Whether `mark` occurs in the text. -/
def contains (s mark : Text) : Bool := (cut? mark s).isSome

/-- The text up to and including the first `stop`, and the rest. -/
def through? (stop : Char) (s : Text) : Option (Text × Text) :=
  (cut? [stop] s).map fun (before, rest) => (before ++ [stop], rest)

theorem through?_eq_some {stop : Char} {s taken rest : Text}
    (h : through? stop s = some (taken, rest)) : s = taken ++ rest := by
  simp only [through?, Option.map_eq_some_iff] at h
  obtain ⟨⟨before, tail⟩, hc, he⟩ := h
  simp only [Prod.mk.injEq] at he
  obtain ⟨rfl, rfl⟩ := he
  exact cut?_eq_some hc

end PageAssembly.Text
