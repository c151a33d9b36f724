import Mathlib.Logic.ExistsUnique
import PageAssembly.Proofs.Comment.Division

/-!
# The parts of a text with comments

The division of a text at its comments is fixed by its parts alone: by each comment with the text
before it, and by the text behind the last comment.  No part is described by what follows it, so
nothing is said about a search that goes from left to right.

## Main definitions

* `Comment.Division.comments`, `Comment.Division.last` — the parts of a division
* `Comment.Division.written`, `Comment.Division.kept` — what the parts make up with and without the
  comments
* `Comment.Decomposes` — the parts that a text has

## Main statements

* `Comment.decomposes_iff_divides` — the parts are those of the division
* `Comment.strip_decomposed` — every text has one decomposition, and without its comments it is what
  the decomposition keeps

### Why the parts say enough

Whether a literal stands leftmost does not depend on what follows it.  So the first opening of a
text is seen in the text before the comment and the opening alone, and the first closing in the
comment alone.
-/

namespace PageAssembly

namespace Text

variable {mark before : Text}

/-- A literal that stands leftmost does so whatever follows it. -/
theorem leftmost_append_iff (rest : Text) :
    Leftmost mark (before ++ mark ++ rest) before rest ↔
      Leftmost mark (before ++ mark) before [] := by
  constructor
  · rintro ⟨-, first⟩
    refine ⟨(List.append_nil _).symm, fun front back split => first front (back ++ rest) ?_⟩
    rw [split, List.append_assoc (front ++ mark)]
  · rintro ⟨-, first⟩
    refine ⟨rfl, fun front back split => Nat.le_of_not_lt fun further => ?_⟩
    -- a place further to the left ends before the literal does
    have short : (front ++ mark).length ≤ (before ++ mark).length := by
      simp only [List.length_append]
      omega
    obtain ⟨more, inside⟩ := List.prefix_of_prefix_length_le ⟨back, split.symm⟩ ⟨rest, rfl⟩ short
    exact Nat.not_le.mpr further (first front more inside.symm)

end Text

namespace Comment

/-! ## The parts of a division -/

/-- A comment as it is written. -/
def enclosed (body : Text) : Text := opening ++ body ++ closing

namespace Division

/-- The comments without their delimiters, each with the text before it. -/
def comments : Division → List (Text × Text)
  | .text _ => []
  | .comment before body later => (before, body) :: later.comments

/-- The text behind the last comment. -/
def last : Division → Text
  | .text t => t
  | .comment _ _ later => later.last

/-- All parts one after the other. -/
def written (D : Division) : Text :=
  (D.comments.flatMap fun (before, body) => before ++ enclosed body) ++ D.last

/-- The parts that are no comments one after the other. -/
def kept (D : Division) : Text := (D.comments.map Prod.fst).flatten ++ D.last

theorem written_comment (before body : Text) (later : Division) :
    (comment before body later).written = before ++ enclosed body ++ later.written := by
  simp only [written, comments, last, List.flatMap_cons, List.append_assoc]

/-- What a division keeps is what it has outside the comments. -/
theorem kept_eq_outside (D : Division) : D.kept = outside D.marked := by
  induction D with
  | text t => exact (outside_map_true t).symm
  | comment before body later ih =>
      rw [marked, outside_append, outside_append, outside_map_true, outside_map_false, ← ih]
      exact List.append_assoc before _ _

end Division

/-! ## The parts of a text -/

/-- **The division has the parts of the text.** -/
structure Decomposes (s : Text) (D : Division) : Prop where
  /-- The parts make up the text. -/
  written : s = D.written
  /-- A comment ends with the first closing behind its opening. -/
  closed : ∀ c ∈ D.comments, ∀ front back, c.2 ++ closing = front ++ closing ++ back →
    c.2.length ≤ front.length
  /-- No opening stands in the text before a comment. -/
  unopened : ∀ c ∈ D.comments, ¬ opening <:+: c.1
  /-- No opening starts in the text before a comment and ends in the comment. -/
  unbroken : ∀ c ∈ D.comments, ∀ front back, c.1 ++ enclosed c.2 = front ++ opening ++ back →
    ¬ (front.length < c.1.length ∧ c.1.length < front.length + opening.length)
  /-- Nothing closes an opening behind the last comment. -/
  unclosed : ∀ front back, D.last = front ++ opening ++ back → ¬ closing <:+: back

variable {s before body : Text} {later D : Division}

/-- The opening of a comment is the first one when none stands before it and none reaches into
it. -/
theorem leftmost_opening_iff (body : Text) : Text.Leftmost opening (before ++ opening) before [] ↔
    ¬ opening <:+: before ∧ ∀ front back, before ++ enclosed body = front ++ opening ++ back →
      ¬ (front.length < before.length ∧ before.length < front.length + opening.length) := by
  have whole : before ++ enclosed body = before ++ opening ++ (body ++ closing) := by
    simp only [enclosed, List.append_assoc]
  rw [← Text.leftmost_append_iff (body ++ closing), ← whole]
  constructor
  · rintro ⟨-, first⟩
    refine ⟨?_, fun front back split reaches => ?_⟩
    · rintro ⟨front, back, inside⟩
      have place := first front (back ++ enclosed body) (by rw [← inside, List.append_assoc])
      have lengths := congrArg List.length inside
      simp only [List.length_append, opening, List.length_cons, List.length_nil] at lengths
      omega
    · exact absurd (first front back split) (by omega)
  · rintro ⟨absent, unbroken⟩
    refine ⟨whole, fun front back split => Nat.le_of_not_lt fun further => ?_⟩
    have inside : (front ++ opening).length ≤ before.length := by
      have := unbroken front back split
      rw [List.length_append]
      omega
    obtain ⟨more, starts⟩ := List.prefix_of_prefix_length_le ⟨back, split.symm⟩ ⟨_, rfl⟩ inside
    exact absent ⟨front, more, starts⟩

/-- The first comment is described by itself and the text before it. -/
theorem decomposes_comment_iff : Decomposes s (.comment before body later) ↔
    s = before ++ enclosed body ++ later.written ∧
      Text.Leftmost opening (before ++ opening) before [] ∧
      Text.Leftmost closing (body ++ closing) body [] ∧ Decomposes later.written later := by
  rw [leftmost_opening_iff body]
  constructor
  · rintro ⟨written, closed, unopened, unbroken, unclosed⟩
    rw [Division.written_comment] at written
    rw [Division.comments, List.forall_mem_cons] at closed unopened unbroken
    exact ⟨written, ⟨unopened.1, unbroken.1⟩, ⟨(List.append_nil _).symm, closed.1⟩,
      rfl, closed.2, unopened.2, unbroken.2, unclosed⟩
  · rintro ⟨written, ⟨absent, unbroken⟩, ⟨-, closed⟩, rest⟩
    refine ⟨by rwa [Division.written_comment], ?_, ?_, ?_, rest.unclosed⟩ <;>
      rw [Division.comments, List.forall_mem_cons]
    · exact ⟨closed, rest.closed⟩
    · exact ⟨absent, rest.unopened⟩
    · exact ⟨unbroken, rest.unbroken⟩

/-- **The parts of a text are those of its division.** -/
theorem decomposes_iff_divides : Decomposes s D ↔ Divides s D := by
  induction D generalizing s with
  | text t =>
      constructor
      · rintro ⟨written, -, -, -, unclosed⟩
        obtain rfl : s = t := written
        exact .rest unclosed
      · rintro ⟨unclosed⟩
        refine ⟨rfl, ?_, ?_, ?_, unclosed⟩ <;> exact fun c member => absurd member List.not_mem_nil
  | comment before body later ih =>
      rw [decomposes_comment_iff]
      constructor
      · rintro ⟨rfl, opened, closed, rest⟩
        have split : before ++ enclosed body ++ later.written =
            before ++ opening ++ (body ++ closing ++ later.written) := by
          simp only [enclosed, List.append_assoc]
        rw [split]
        exact .comment ((Text.leftmost_append_iff _).mpr opened)
          ((Text.leftmost_append_iff _).mpr closed)
          (ih.mp rest)
      · rintro (_ | ⟨opened, closed, rest⟩)
        have parts := ih.mpr rest
        obtain rfl := parts.written
        obtain rfl := closed.split
        obtain rfl := opened.split
        refine ⟨?_, (Text.leftmost_append_iff _).mp opened,
          (Text.leftmost_append_iff _).mp closed, parts⟩
        simp only [enclosed, List.append_assoc]

/-- **Every text has one decomposition, and without its comments it is what that keeps.**  So a
comment starts at the leftmost opening and ends with the first closing behind it, across any line
ends; what is outside the comments stays, in its order; and an opening that nothing closes stays with
all that follows it. -/
theorem strip_decomposed (s : Text) :
    (∃! D, Decomposes s D) ∧ ∀ D, Decomposes s D → strip s = D.kept := by
  constructor
  · obtain ⟨D, divides⟩ := exists_divides s
    refine ⟨D, decomposes_iff_divides.mpr divides, fun E other => ?_⟩
    exact (decomposes_iff_divides.mp other).unique divides
  · intro D parts
    rw [Division.kept_eq_outside, (decomposes_iff_divides.mp parts).outside_eq]

/-- The dashes of an opening close nothing, and an opening that nothing closes stays. -/
example : strip "a<!-->b-->c<!--d".toList = "ac<!--d".toList := by cbv

end Comment

end PageAssembly
