import PageAssembly.Text.Search

/-!
# The leftmost place of a literal

## Main definitions

* `Text.Leftmost` — a text splits at the leftmost place of a literal

## Main statements

* `Text.cut?_eq_some_iff` — a cut is made at the leftmost place
* `Text.cut?_eq_none_iff` — and none is made where the literal does not occur
-/

namespace PageAssembly.Text

/-- **The text splits at the leftmost place of the literal.** -/
structure Leftmost (mark s before after : Text) : Prop where
  /-- The literal stands there. -/
  split : s = before ++ mark ++ after
  /-- It stands nowhere further to the left. -/
  first : ∀ before' after', s = before' ++ mark ++ after' → before.length ≤ before'.length

variable {mark s before after : Text} {c : Char}

/-- There is one leftmost place. -/
theorem Leftmost.unique {before' after' : Text} (h : Leftmost mark s before after)
    (h' : Leftmost mark s before' after') : before = before' ∧ after = after' := by
  have length : before.length = before'.length :=
    Nat.le_antisymm (h.first _ _ h'.split) (h'.first _ _ h.split)
  have same := h.split.symm.trans h'.split
  rw [List.append_assoc, List.append_assoc] at same
  obtain ⟨front, back⟩ := List.append_inj same length
  exact ⟨front, List.append_cancel_left back⟩

/-- A literal at the start stands leftmost there. -/
theorem leftmost_of_after? {rest : Text} (h : after? mark s = some rest) :
    Leftmost mark s [] rest where
  split := after?_eq_some.mp h
  first _ _ _ := Nat.zero_le _

theorem ne_append_of_after? (h : after? mark s = none) (rest : Text) : s ≠ mark ++ rest := by
  intro starts
  rw [after?_eq_some.mpr starts] at h
  cases h

/-- Where a literal does not start a text, its leftmost place is the one behind the first
character. -/
theorem leftmost_cons_iff (h : after? mark (c :: s) = none) :
    Leftmost mark (c :: s) before after ↔
      ∃ before', before = c :: before' ∧ Leftmost mark s before' after := by
  constructor
  · rintro ⟨split, first⟩
    cases before with
    | nil => exact absurd split (ne_append_of_after? h after)
    | cons b before =>
        obtain ⟨rfl, behind⟩ := List.cons.inj split
        refine ⟨before, rfl, behind, ?_⟩
        intro before' after' split'
        exact Nat.le_of_succ_le_succ (first (c :: before') after' (congrArg (c :: ·) split'))
  · rintro ⟨before', rfl, split, first⟩
    refine ⟨congrArg (c :: ·) split, ?_⟩
    intro front back split'
    cases front with
    | nil => exact absurd split' (ne_append_of_after? h back)
    | cons b front => exact Nat.succ_le_succ (first front back (List.cons.inj split').2)

/-- **A cut is made at the leftmost place.** -/
theorem cut?_eq_some_iff : cut? mark s = some (before, after) ↔ Leftmost mark s before after := by
  induction s generalizing before with
  | nil =>
      rw [cut?, search, searchFrom, Option.map_eq_some_iff]
      constructor
      · rintro ⟨rest, found, same⟩
        cases same
        exact leftmost_of_after? found
      · intro leftmost
        have split := leftmost.split
        obtain ⟨front, rfl⟩ := List.append_eq_nil_iff.mp split.symm
        obtain ⟨rfl, rfl⟩ := List.append_eq_nil_iff.mp front
        exact ⟨[], rfl, rfl⟩
  | cons c s ih =>
      rw [cut?, search_cons]
      cases here : after? mark (c :: s) with
      | some rest =>
          constructor
          · rintro ⟨⟩
            exact leftmost_of_after? here
          · intro leftmost
            obtain ⟨rfl, rfl⟩ := leftmost.unique (leftmost_of_after? here)
            rfl
      | none =>
          rw [leftmost_cons_iff here]
          simp only [Option.map_eq_some_iff]
          constructor
          · rintro ⟨⟨before', after'⟩, found, same⟩
            cases same
            exact ⟨before', rfl, ih.mp found⟩
          · rintro ⟨before', rfl, leftmost⟩
            exact ⟨(before', after), ih.mpr leftmost, rfl⟩

/-- A piece that is cut off before a character does not hold it. -/
theorem notMem_of_cut? {stop : Char} {rest : Text} (h : cut? [stop] s = some (before, rest)) :
    stop ∉ before := by
  intro member
  obtain ⟨front, back, rfl⟩ := List.append_of_mem member
  have leftmost := cut?_eq_some_iff.mp h
  have first := leftmost.first front (back ++ stop :: rest) (by simp [leftmost.split])
  simp only [List.length_append, List.length_cons] at first
  omega

/-- A literal that occurs has a leftmost place. -/
theorem exists_cut?_of_infix (h : mark <:+: s) :
    ∃ before after, cut? mark s = some (before, after) := by
  induction s with
  | nil =>
      obtain rfl := List.eq_nil_of_infix_nil h
      exact ⟨[], [], rfl⟩
  | cons c s ih =>
      rw [cut?, search_cons]
      cases here : after? mark (c :: s) with
      | some rest => exact ⟨[], rest, rfl⟩
      | none =>
          have inside : mark <:+: s := by
            rcases List.infix_cons_iff.mp h with ⟨rest, starts⟩ | inside
            · exact absurd starts.symm (ne_append_of_after? here rest)
            · exact inside
          obtain ⟨before, after, found⟩ := ih inside
          rw [cut?] at found
          exact ⟨c :: before, after, by rw [found]; rfl⟩

/-- **No cut is made where the literal does not occur.** -/
theorem cut?_eq_none_iff : cut? mark s = none ↔ ¬ mark <:+: s := by
  constructor
  · intro none inside
    obtain ⟨before, after, found⟩ := exists_cut?_of_infix inside
    rw [none] at found
    cases found
  · intro absent
    rw [Option.eq_none_iff_forall_ne_some]
    rintro ⟨before, after⟩ found
    exact absent ⟨before, after, (cut?_eq_some found).symm⟩

end PageAssembly.Text
