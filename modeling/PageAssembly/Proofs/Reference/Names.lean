import PageAssembly.Proofs.Text.Extension
import PageAssembly.Reference

/-!
# The names on a line, character by character

Cutting a line at its terminators first is what makes the search linear.  Here the same names are
found by a recursion over the characters, each candidate with its own end.

## Main definitions

* `Reference.extent` — what a candidate at the start of a text extends over

## Main statements

* `Reference.names_cons` — the names of a line, by a recursion over its characters
* `Reference.names_append_of_notMem` — a text without `<` refers to nothing
* `Reference.names_tag_append` — a tag refers to one name
-/

namespace PageAssembly.Reference

/-- What a candidate at the start of the text extends over: the text up to its first `/>`. -/
def extent : Text → Text
  | [] => []
  | '/' :: '>' :: _ => []
  | c :: s => c :: extent s

/-- The first segment that is cut off is the extent; what follows it does not depend on what has
been passed. -/
theorem exists_segmentsFrom (done : List Text) (seen s : Text) :
    ∃ later, ∀ done' seen',
      segmentsFrom done' seen' s = done'.reverse ++ (seen'.reverse ++ extent s) :: later := by
  fun_induction segmentsFrom done seen s with
  | case1 done seen => exact ⟨[], fun done' seen' => by simp [segmentsFrom, extent]⟩
  | case2 done seen s ih =>
      obtain ⟨later, h⟩ := ih
      refine ⟨extent s :: later, fun done' seen' => ?_⟩
      rw [segmentsFrom, h]
      simp [extent]
  | case3 done seen c s inner ih =>
      obtain ⟨later, h⟩ := ih
      refine ⟨later, fun done' seen' => ?_⟩
      rw [segmentsFrom.eq_3 _ _ _ _ inner, extent.eq_3 _ _ inner, h]
      simp

theorem extent_cons (c : Char) (s : Text) :
    (∃ s', c = '/' ∧ s = '>' :: s' ∧ extent (c :: s) = []) ∨
      (∀ s', c = '/' → s = '>' :: s' → False) ∧ extent (c :: s) = c :: extent s := by
  by_cases ended : ∃ s', c = '/' ∧ s = '>' :: s'
  · obtain ⟨s', rfl, rfl⟩ := ended
    exact .inl ⟨s', rfl, rfl, rfl⟩
  · have inner : ∀ s', c = '/' → s = '>' :: s' → False := fun s' hc hs => ended ⟨s', hc, hs⟩
    exact .inr ⟨inner, extent.eq_3 _ _ inner⟩

/-- A candidate is found only where a `<` stands. -/
theorem nameAt?_of_ne {c : Char} (s : Text) (h : c ≠ '<') : nameAt? (c :: s) = none := by
  rw [nameAt?]
  rintro c' body same
  exact h (List.cons.inj same).1

theorem nameAt?_extent_of_ne {c : Char} (s : Text) (h : c ≠ '<') :
    nameAt? (extent (c :: s)) = none := by
  rcases extent_cons c s with ⟨s', -, -, ended⟩ | ⟨-, goes⟩
  · rw [ended]
    rfl
  · rw [goes, nameAt?_of_ne _ h]

/-- **The names of a line, by a recursion over its characters**: those of the candidate at its
start, which reaches to the first `/>`, and those of the rest. -/
theorem names_cons (c : Char) (s : Text) :
    names (c :: s) = (nameAt? (extent (c :: s))).toList ++ names s := by
  have inside (c : Char) (s : Text) (inner : ∀ s', c = '/' → s = '>' :: s' → False) :
      names (c :: s) = (nameAt? (extent (c :: s))).toList ++ names s := by
    obtain ⟨later, h⟩ := exists_segmentsFrom [] [] s
    rw [names, names, segments, segments, segmentsFrom.eq_3 _ _ _ _ inner, h, h,
      extent.eq_3 _ _ inner]
    simp [namesIn_cons]
  rcases extent_cons c s with ⟨s', rfl, rfl, ended⟩ | ⟨inner, -⟩
  · -- the terminator closes an empty segment, and its second character refers to nothing
    have second : names ('>' :: s') = names s' := by
      rw [inside '>' s' fun _ h => absurd h (by decide), nameAt?_extent_of_ne _ (by decide)]
      rfl
    obtain ⟨later, h⟩ := exists_segmentsFrom [] [] s'
    rw [ended, second, names, names, segments, segments, segmentsFrom, h, h]
    rfl
  · exact inside c s inner

@[simp] theorem names_nil : names [] = [] := rfl

/-- A text without `<` refers to nothing. -/
theorem names_append_of_notMem {s : Text} (absent : '<' ∉ s) (more : Text) :
    names (s ++ more) = names more := by
  induction s with
  | nil => rfl
  | cons c s ih =>
      rw [List.mem_cons, not_or] at absent
      rw [List.cons_append, names_cons, nameAt?_extent_of_ne _ (Ne.symm absent.1), ih absent.2]
      rfl

/-- A candidate ends at the terminator behind a text that has none. -/
theorem extent_append_terminator {s : Text} (absent : '/' ∉ s) (more : Text) :
    extent (s ++ terminator ++ more) = s := by
  induction s with
  | nil => rfl
  | cons c s ih =>
      rw [List.mem_cons, not_or] at absent
      have inner : ∀ s', c = '/' → s ++ terminator ++ more = '>' :: s' → False :=
        fun _ slash _ => absent.1 slash.symm
      rw [List.cons_append, List.cons_append, extent.eq_3 _ _ inner, ih absent.2]

/-- **A tag refers to one name**, without the blanks at its end. -/
theorem names_tag_append {body : Text} (slash : '/' ∉ body) (bracket : '<' ∉ body) (more : Text) :
    names (tag body ++ more) = Text.trimEnd body :: names more := by
  have spelled : tag body ++ more = '<' :: (marker ++ body ++ terminator ++ more) := by
    simp [tag]
  have reach : extent ('<' :: (marker ++ body ++ terminator ++ more)) = '<' :: marker ++ body := by
    have h := extent_append_terminator (s := '<' :: marker ++ body) (by simp [marker, slash]) more
    simpa using h
  have found : nameAt? ('<' :: marker ++ body) = some (Text.trimEnd body) := by
    have start : Text.trimStart (marker ++ body) = marker ++ body := by
      simp [Text.trimStart, marker, show Text.isBlank 'a' = false by decide]
    have removed : Text.after? marker (marker ++ body) = some body := Text.after?_eq_some.mpr rfl
    show (Text.after? marker (Text.trimStart (marker ++ body))).map Text.trimEnd = _
    rw [start, removed]
    rfl
  have rest : names (marker ++ body ++ terminator ++ more) = names more :=
    names_append_of_notMem (by simp [marker, terminator, bracket]) more
  rw [spelled, names_cons, reach, found, rest]
  rfl

end PageAssembly.Reference
