import PageAssembly.Comment
import PageAssembly.Proofs.Text.Leftmost

/-!
# Texts divided at comments

Which parts of a text are comments, said without the search that takes them out: a comment starts at
the leftmost opening and ends with the leftmost closing behind it, and the search goes on behind the
comment.

## Main definitions

* `Comment.Division` — a text with its comments marked
* `Comment.Divides` — the division of a text
* `Comment.outside`, `Comment.within` — the text outside the comments and the text of the comments

## Main statements

* `Comment.exists_divides`, `Comment.Divides.unique` — every text has one division
* `Comment.Divides.outside_eq` — what is outside its comments is the text without comments
-/

namespace PageAssembly

namespace Comment

/-! ## Divisions -/

/-- **A text with its comments marked.** -/
inductive Division where
  /-- Text in which no comment is marked. -/
  | text (t : Text)
  /-- The text before the first comment, what is between its opening and its closing, and what
  follows it. -/
  | comment (before body : Text) (later : Division)
  deriving DecidableEq, Repr

/-- The characters of a division, each with whether it is outside the comments. -/
def Division.marked : Division → List (Char × Bool)
  | .text t => t.map (·, true)
  | .comment before body later =>
    before.map (·, true) ++ ((opening ++ body ++ closing).map (·, false) ++ later.marked)

/-- All characters, without their marks. -/
def spelled (marked : List (Char × Bool)) : Text := marked.map Prod.fst

/-- The characters outside the comments. -/
def outside (marked : List (Char × Bool)) : Text :=
  marked.filterMap fun (c, isOutside) => if isOutside then some c else none

/-- The characters of the comments. -/
def within (marked : List (Char × Bool)) : Text :=
  marked.filterMap fun (c, isOutside) => if isOutside then none else some c

@[simp] theorem outside_append (m m' : List (Char × Bool)) :
    outside (m ++ m') = outside m ++ outside m' :=
  List.filterMap_append

@[simp] theorem outside_map_true (t : Text) : outside (t.map (·, true)) = t := by
  induction t with
  | nil => rfl
  | cons c t ih => exact congrArg (c :: ·) ih

@[simp] theorem outside_map_false (t : Text) : outside (t.map (·, false)) = [] := by
  induction t with
  | nil => rfl
  | cons c t ih => exact ih

@[simp] theorem spelled_append (m m' : List (Char × Bool)) :
    spelled (m ++ m') = spelled m ++ spelled m' :=
  List.map_append

@[simp] theorem spelled_map (t : Text) (isOutside : Bool) : spelled (t.map (·, isOutside)) = t := by
  simp [spelled, Function.comp_def]

theorem outside_subset (m : List (Char × Bool)) : outside m ⊆ spelled m := by
  intro c h
  obtain ⟨⟨c', isOutside⟩, member, found⟩ := List.mem_filterMap.mp h
  cases isOutside <;> cases found
  exact List.mem_map.mpr ⟨_, member, rfl⟩

/-- Every character is outside the comments or of a comment. -/
theorem countP_spelled (P : Char → Bool) (m : List (Char × Bool)) :
    (spelled m).countP P = (outside m).countP P + (within m).countP P := by
  induction m with
  | nil => rfl
  | cons marked m ih =>
      obtain ⟨c, isOutside⟩ := marked
      cases isOutside with
      | false =>
          show (c :: spelled m).countP P = (outside m).countP P + (c :: within m).countP P
          rw [List.countP_cons, List.countP_cons, ih, Nat.add_assoc]
      | true =>
          show (c :: spelled m).countP P = (c :: outside m).countP P + (within m).countP P
          rw [List.countP_cons, List.countP_cons, ih, Nat.add_right_comm]

/-! ## The division of a text -/

/-- **The division of a text.** -/
inductive Divides : Text → Division → Prop
  /-- Nothing closes an opening. -/
  | rest {s : Text} : (∀ before behind, s = before ++ opening ++ behind → ¬ closing <:+: behind) →
      Divides s (.text s)
  /-- The first comment, and what is behind it. -/
  | comment {s before behind body rest : Text} {later : Division} :
      Text.Leftmost opening s before behind → Text.Leftmost closing behind body rest →
      Divides rest later → Divides s (.comment before body later)

/-- A text is split at its first comment. -/
theorem split?_eq_some_iff {s before rest : Text} :
    split? s = some (before, rest) ↔ ∃ behind body, Text.Leftmost opening s before behind ∧
      Text.Leftmost closing behind body rest := by
  simp only [split?, Option.bind_eq_some_iff, Option.map_eq_some_iff, Prod.exists, Prod.mk.injEq,
    Text.cut?_eq_some_iff]
  constructor
  · rintro ⟨_, behind, opened, body, _, closed, rfl, rfl⟩
    exact ⟨behind, body, opened, closed⟩
  · rintro ⟨behind, body, opened, closed⟩
    exact ⟨_, behind, opened, body, _, closed, rfl, rfl⟩

/-- When nothing closes the first opening, nothing closes any. -/
theorem not_closed_of_split? {s : Text} (none : split? s = none) (before behind : Text)
    (opened : s = before ++ opening ++ behind) : ¬ closing <:+: behind := by
  have occurs : opening <:+: s := ⟨_, _, opened.symm⟩
  obtain ⟨front, back, first⟩ := Text.exists_cut?_of_infix occurs
  have leftmost := Text.cut?_eq_some_iff.mp first
  rw [split?, first, Option.bind_some, Option.map_eq_none_iff, Text.cut?_eq_none_iff] at none
  -- what is behind another opening is behind the first one
  have suffix : behind <:+ back := by
    have width := leftmost.first before behind opened
    have lengths := congrArg List.length (leftmost.split.symm.trans opened)
    simp only [List.length_append] at lengths
    exact List.suffix_of_suffix_length_le ⟨_, opened.symm⟩ ⟨_, leftmost.split.symm⟩ (by omega)
  exact fun inside => none (inside.trans suffix.isInfix)

/-- Every text is divided. -/
theorem exists_divides (s : Text) : ∃ D, Divides s D := by
  match found : split? s with
  | none => exact ⟨_, .rest (not_closed_of_split? found)⟩
  | some (before, rest) =>
      obtain ⟨D, later⟩ := exists_divides rest
      obtain ⟨behind, body, opened, closed⟩ := split?_eq_some_iff.mp found
      exact ⟨_, .comment opened closed later⟩
termination_by s.length
decreasing_by exact length_lt_of_split? found

namespace Divides

variable {s : Text} {D E : Division}

/-- **The text leaves no choice.** -/
theorem unique (divides : Divides s D) (divides' : Divides s E) : D = E := by
  induction divides generalizing E with
  | rest none =>
      cases divides' with
      | rest _ => rfl
      | comment opened closed _ =>
          exact absurd ⟨_, _, closed.split.symm⟩ (none _ _ opened.split)
  | comment opened closed _ ih =>
      cases divides' with
      | rest none => exact absurd ⟨_, _, closed.split.symm⟩ (none _ _ opened.split)
      | comment opened' closed' later' =>
          obtain ⟨rfl, rfl⟩ := opened.unique opened'
          obtain ⟨rfl, rfl⟩ := closed.unique closed'
          rw [ih later']

/-- The division spells the text. -/
theorem spelled_eq (divides : Divides s D) : spelled D.marked = s := by
  induction divides with
  | rest _ => exact spelled_map _ true
  | comment opened closed _ ih =>
      rw [Division.marked, spelled_append, spelled_append, spelled_map, spelled_map, ih,
        opened.split, closed.split]
      simp only [List.append_assoc]

/-- The work behind `strip` goes through the comments of the division. -/
theorem stripFrom_eq (divides : Divides s D) (kept : List Text) :
    stripFrom kept s = kept.reverse.flatten ++ outside D.marked := by
  induction divides generalizing kept with
  | @rest s none =>
      rw [stripFrom]
      split
      · rw [Division.marked, outside_map_true]
        simp
      · next found =>
          obtain ⟨behind, body, opened, closed⟩ := split?_eq_some_iff.mp found
          exact absurd ⟨_, _, closed.split.symm⟩ (none _ _ opened.split)
  | comment opened closed _ ih =>
      have found := split?_eq_some_iff.mpr ⟨_, _, opened, closed⟩
      rw [stripFrom]
      split
      · next none =>
          rw [found] at none
          cases none
      · next found' =>
          obtain ⟨rfl, rfl⟩ := Prod.mk.inj (Option.some.inj (found.symm.trans found'))
          rw [ih, Division.marked, outside_append, outside_append, outside_map_true,
            outside_map_false]
          simp

/-- **What is outside the comments of the division is the text without its comments.** -/
theorem outside_eq (divides : Divides s D) : outside D.marked = strip s :=
  (divides.stripFrom_eq []).symm

end Divides

end Comment

end PageAssembly
