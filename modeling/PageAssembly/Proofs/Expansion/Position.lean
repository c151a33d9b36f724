import PageAssembly.Proofs.Comment.Division
import PageAssembly.Proofs.Expansion.Occurrence
import PageAssembly.Proofs.Members
import PageAssembly.Proofs.Text.LineEnds

/-!
# Where references stand in a document with comments

The references of a document are numbered by lines when its comments have been taken out and the
rest has been cut at every kind of line end.  Here the numbers are compared with the lines of the
document as it is written, which end at line feeds.

## Main definitions

* `Expansion.Precedes` — what stands before a reference, without comments
* `Expansion.Stands` — what stands before a reference, comments and all
* `Expansion.lineBehind` — the number of the line on which a text leaves off

## Main statements

* `Expansion.exists_stands`, `Expansion.Stands.unique` — every reference has one place
* `Expansion.Stands.line_eq` — how the number of its line is off
-/

namespace PageAssembly.Expansion

open Reference (Piece)

/-! ## References by what stands before them -/

/-- **What stands before a reference** of a document without comments: all that is written before
it, with as many references as the reference has before it. -/
def Precedes (text : Text) (o : Occurrence) (before : Text) : Prop :=
  ∃ front back,
    (Text.splitLines text).flatMap Reference.pieces = front ++ .reference o.name :: back ∧
      o.index = (front.filterMap Piece.name?).length ∧ before = front.flatMap Piece.written

section Placed

variable {owner : Option Text} {o : Occurrence} {number index : Nat}

/-- A reference of a line is one of its pieces. -/
theorem exists_of_mem_placed_pieces {pieces : List Piece}
    (ho : o ∈ placed owner index ((pieces.filterMap Piece.name?).map (number, ·))) :
    ∃ front back, pieces = front ++ .reference o.name :: back ∧ o.line = number ∧
      o.index = index + (front.filterMap Piece.name?).length := by
  induction pieces generalizing index with
  | nil => exact absurd ho List.not_mem_nil
  | cons piece pieces ih =>
      cases piece with
      | literal text =>
          obtain ⟨front, back, rfl, line, position⟩ := ih ho
          exact ⟨.literal text :: front, back, rfl, line, position⟩
      | untaken name =>
          obtain ⟨front, back, rfl, line, position⟩ := ih ho
          exact ⟨.untaken name :: front, back, rfl, line, position⟩
      | reference name =>
          have first : o ∈ ⟨owner, index, number, name⟩ ::
              placed owner (index + 1) ((pieces.filterMap Piece.name?).map (number, ·)) := ho
          rcases List.mem_cons.mp first with rfl | later
          · exact ⟨[], pieces, rfl, rfl, rfl⟩
          · obtain ⟨front, back, rfl, line, position⟩ := ih later
            refine ⟨.reference name :: front, back, rfl, line, ?_⟩
            rw [position, Nat.add_assoc, Nat.add_comm 1]
            rfl

/-- A reference of some lines is on one of them. -/
theorem exists_of_mem_placed {lines : List Text}
    (ho : o ∈ placed owner index (referencesFrom number lines)) :
    ∃ above line below front back, lines = above ++ line :: below ∧
      Reference.pieces line = front ++ .reference o.name :: back ∧
      o.line = number + above.length ∧
      o.index = index +
        ((above.flatMap Reference.pieces ++ front).filterMap Piece.name?).length := by
  induction lines generalizing number index with
  | nil => exact absurd ho List.not_mem_nil
  | cons line lines ih =>
      have split : referencesFrom number (line :: lines) =
          (Reference.taken line).map (number, ·) ++ referencesFrom (number + 1) lines := rfl
      rw [split, placed_append, List.mem_append, List.length_map] at ho
      rcases ho with here | later
      · obtain ⟨front, back, pieces, same, position⟩ := exists_of_mem_placed_pieces here
        exact ⟨[], line, lines, front, back, rfl, pieces, same, position⟩
      · obtain ⟨above, line', below, front, back, rfl, pieces, same, position⟩ := ih later
        refine ⟨line :: above, line', below, front, back, rfl, pieces, ?_, ?_⟩
        · rw [same, List.length_cons]
          omega
        · rw [position, List.flatMap_cons, List.append_assoc,
            List.filterMap_append (l := Reference.pieces line), List.length_append, Nat.add_assoc]
          rfl

end Placed

section Precedes

variable {text before before' : Text} {o : Occurrence}

theorem written_flatMap_pieces (lines : List Text) :
    (lines.flatMap Reference.pieces).flatMap Piece.written = lines.flatten := by
  induction lines with
  | nil => rfl
  | cons line lines ih =>
      rw [List.flatMap_cons, List.flatMap_append, Reference.written_pieces, ih, List.flatten_cons]

/-- The reference is written behind what stands before it. -/
theorem Precedes.written (precedes : Precedes text o before) :
    ∃ rest, text = before ++ Reference.tag o.name ++ rest := by
  obtain ⟨front, back, pieces, -, rfl⟩ := precedes
  refine ⟨back.flatMap Piece.written, ?_⟩
  have spelled := written_flatMap_pieces (Text.splitLines text)
  rw [Text.flatten_splitLines, pieces, List.flatMap_append, List.flatMap_cons] at spelled
  rw [List.append_assoc]
  exact spelled.symm

/-- One text stands before a reference. -/
theorem Precedes.unique (precedes : Precedes text o before) (precedes' : Precedes text o before') :
    before = before' := by
  obtain ⟨front, back, pieces, index, rfl⟩ := precedes
  obtain ⟨front', back', pieces', index', rfl⟩ := precedes'
  rw [front_eq_of_length_filterMap (pieces.symm.trans pieces') rfl rfl (index.symm.trans index')]

/-- **The number of a reference's line** counts the line ends of every kind before it, when there
are no carriage returns. -/
theorem exists_precedes (plain : '\r' ∉ text) (ho : o ∈ occurrences none (Text.splitLines text)) :
    ∃ before, Precedes text o before ∧ o.line = 1 + before.countP Text.endsLine := by
  obtain ⟨above, line, below, front, back, lines, pieces, number, index⟩ := exists_of_mem_placed ho
  refine ⟨above.flatten ++ front.flatMap Piece.written,
    ⟨above.flatMap Reference.pieces ++ front, back ++ below.flatMap Reference.pieces, ?_, ?_, ?_⟩,
    ?_⟩
  · rw [lines, List.flatMap_append, List.flatMap_cons, pieces]
    simp only [List.append_assoc, List.cons_append]
  · rw [index, Nat.zero_add]
  · rw [List.flatMap_append, written_flatMap_pieces]
  · have place : line = front.flatMap Piece.written ++
        (Reference.tag o.name ++ back.flatMap Piece.written) := by
      rw [← Reference.written_pieces line, pieces, List.flatMap_append, List.flatMap_cons]
      rfl
    rw [(Text.lined_splitLines plain).countP_before lines place (List.cons_ne_nil _ _)]
    exact number

end Precedes

/-! ## Places in the document as written -/

open Comment (outside within spelled)

/-- **What stands before a reference** of a document whose comments are marked.  The reference
starts behind it with a character outside the comments. -/
structure Stands (D : Comment.Division) (o : Occurrence) (front : List (Char × Bool)) : Prop where
  /-- It is a reference of the document without comments. -/
  reference : o ∈ occurrences none (Text.splitLines (outside D.marked))
  /-- Without comments, this stands before it. -/
  precedes : Precedes (outside D.marked) o (outside front)
  /-- The reference starts here. -/
  starts : ∃ back, D.marked = front ++ ('<', true) :: back

/-- The number of the line on which a text leaves off, when lines end at line feeds. -/
def lineBehind (text : Text) : Nat := 1 + text.count '\n'

/-- Whether a character other than a line feed ends a line. -/
def endsOtherwise (c : Char) : Bool := Text.endsLine c && c != '\n'

theorem countP_endsLine (text : Text) :
    text.countP Text.endsLine = text.count '\n' + text.countP endsOtherwise := by
  induction text with
  | nil => rfl
  | cons c text ih =>
      rw [List.countP_cons, List.count_cons, List.countP_cons, ih]
      by_cases feed : c = '\n'
      · subst feed
        have ends : Text.endsLine '\n' = true := by decide
        have once : endsOtherwise '\n' = false := by decide
        simp only [ends, once, beq_self_eq_true, if_true, Bool.false_eq_true, if_false]
        omega
      · have same : endsOtherwise c = Text.endsLine c := by simp [endsOtherwise, feed]
        simp only [same, beq_iff_eq, feed, if_false]
        omega

section Stands

variable {D : Comment.Division} {o : Occurrence} {front front' : List (Char × Bool)}

/-- Every reference has a place. -/
theorem exists_stands (ho : o ∈ occurrences none (Text.splitLines (outside D.marked)))
    (plain : '\r' ∉ outside D.marked) : ∃ front, Stands D o front := by
  obtain ⟨before, precedes, -⟩ := exists_precedes plain ho
  obtain ⟨rest, written⟩ := precedes.written
  rw [List.append_assoc] at written
  obtain ⟨front, behind, marked, same, starts⟩ := List.filterMap_eq_append_iff.mp written
  -- comments that end where the reference starts stand before it
  obtain ⟨comments, ⟨first, isOutside⟩, back, rfl, commented, found, -⟩ :=
    List.filterMap_eq_cons_iff.mp starts
  have bracket : (first, isOutside) = ('<', true) := by
    cases isOutside <;> cases found
    rfl
  refine ⟨front ++ comments, ho, ?_, back, ?_⟩
  · have nothing : outside comments = [] := List.filterMap_eq_nil_iff.mpr commented
    have here : outside (front ++ comments) = before := by
      rw [Comment.outside_append, nothing, List.append_nil]
      exact same
    rwa [here]
  · rw [marked, bracket, List.append_assoc]

namespace Stands

/-- **A reference has one place.** -/
theorem unique (stands : Stands D o front) (stands' : Stands D o front') : front = front' := by
  obtain ⟨back, marked⟩ := stands.starts
  obtain ⟨back', marked'⟩ := stands'.starts
  exact front_eq_of_length_filterMap (marked.symm.trans marked') rfl rfl
    (congrArg List.length (stands.precedes.unique stands'.precedes))

/-- **How the number of a reference's line is off**: line feeds inside comments before it are left
out, and other line ends outside the comments are counted. -/
theorem line_eq (stands : Stands D o front) (plain : '\r' ∉ outside D.marked) :
    o.line + (within front).count '\n' =
      lineBehind (spelled front) + (outside front).countP endsOtherwise := by
  obtain ⟨before, precedes, number⟩ := exists_precedes plain stands.reference
  obtain rfl := precedes.unique stands.precedes
  have feeds : (spelled front).count '\n' =
      (outside front).count '\n' + (within front).count '\n' := Comment.countP_spelled _ front
  rw [number, countP_endsLine, lineBehind, feeds]
  omega

/-- **The number is right** exactly when as many line feeds are left out as other line ends are
counted. -/
theorem line_eq_iff (stands : Stands D o front) (plain : '\r' ∉ outside D.marked) :
    o.line = lineBehind (spelled front) ↔
      (within front).count '\n' = (outside front).countP endsOtherwise := by
  have off := stands.line_eq plain
  omega

end Stands

end Stands

end PageAssembly.Expansion
