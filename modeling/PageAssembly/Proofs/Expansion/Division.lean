import PageAssembly.Proofs.Expansion.Reporting
import PageAssembly.Proofs.Reference.Division

/-!
# Expansion replaces the references of the division

An expansion of a document changes nothing but the references that are taken, and which these are is
known from the text alone: it is the division of the text, with the text between the references kept
and each reference replaced by what its expansion returns.

## Main definitions

* `Expansion.filledWith` — a division with its references replaced, one after the other

## Main statements

* `Expansion.noticesAside_pieces` — the pieces of a line fill the division of the line
* `Expansion.noticesAside_numbered` — so do lines, one after the other
* `Expansion.document_eq_filled` — so does a document, and its division is the only one

### What the pieces have more than the division

A name whose tag is not found makes a piece that takes up no text and reports a notice.  The
division has nothing for it, so the two agree on outcomes and on what is remembered, not on notices.
-/

namespace PageAssembly.Expansion

open Reference (Division Takes DividesFrom Divides)

/-- **A division with `expand` for its references**, one after the other. -/
def filledWith (expand : Place → Text → Expanding Text) (source : Text) :
    Division → Expanding Text
  | .text t => return t
  | .reference before line name later => do
    let markup ← expand ⟨source, (line : Nat)⟩ name
    let rest ← filledWith expand source later
    return before ++ (markup ++ rest)

section Filled

variable {expand : Place → Text → Expanding Text} {source : Text}

/-- Two divisions run together are filled one after the other. -/
theorem filledWith_append (D E : Division) :
    filledWith expand source (D.append E) = (do
      let first ← filledWith expand source D
      let second ← filledWith expand source E
      return first ++ second) := by
  induction D with
  | text t => cases E <;> simp [Division.append, filledWith]
  | reference before line name later ih =>
      simp only [Division.append, filledWith, ih, bind_assoc, pure_bind, List.append_assoc]

/-- A name that is not taken is noted. -/
theorem joined_untaken (place : Place) (name : Text) (pieces : List Reference.Piece) :
    joined (pieceWith (expand place) place) (.untaken name :: pieces) = (do
      Expanding.note (.notSelfClosing name place.line place.source)
      joined (pieceWith (expand place) place) pieces) := by
  simp [joined_cons, pieceWith]

/-- A name that is taken is expanded between the text before it and the pieces behind it. -/
theorem joined_reference (place : Place) (before name : Text) (pieces : List Reference.Piece) :
    joined (pieceWith (expand place) place) (.literal before :: .reference name :: pieces) = (do
      let markup ← expand place name
      let rest ← joined (pieceWith (expand place) place) pieces
      return before ++ (markup ++ rest)) := by
  simp [joined_cons, pieceWith]

variable (h : ∀ place name, NoticesAside (expand place name) (expand place name))

include h

/-- **The names fill what they take**: by the steps of the taking, each of which is a step of the
expansion. -/
theorem noticesAside_pieces {number : Nat} {names : List Text} {rest : Text} {D : Division}
    (takes : Takes number names rest D) :
    NoticesAside
      (joined (pieceWith (expand ⟨source, number⟩) ⟨source, number⟩)
        (Reference.piecesOf names rest))
      (filledWith expand source D) := by
  induction takes with
  | @done rest =>
      have same : joined (pieceWith (expand ⟨source, number⟩) ⟨source, number⟩)
          (Reference.piecesOf [] rest) = pure rest := by
        simp [joined, Reference.piecesOf, pieceWith]
      rw [same]
      exact noticesAside_congruence.pure rest
  | passed absent _ ih =>
      rw [Reference.piecesOf, Text.cut?_eq_none_iff.mpr absent]
      dsimp only
      rw [joined_untaken]
      exact ih.note_left _
  | taken leftmost _ ih =>
      rw [Reference.piecesOf, Text.cut?_eq_some_iff.mpr leftmost]
      dsimp only
      rw [joined_reference]
      refine noticesAside_congruence.bind (h _ _) fun markup => ?_
      exact noticesAside_congruence.bind ih fun rest => noticesAside_congruence.pure _

/-- **Lines fill their divisions**, whatever number the first line has. -/
theorem noticesAside_numbered {number : Nat} {lines : List Text} {D : Division}
    (divides : DividesFrom number lines D) :
    NoticesAside (joined (numberedWith expand source) (lines.zipIdx number))
      (filledWith expand source D) := by
  induction divides with
  | done => exact noticesAside_congruence.pure []
  | line takes _ ih =>
      rw [List.zipIdx_cons, joined_cons, filledWith_append]
      refine noticesAside_congruence.bind (noticesAside_pieces h takes) fun first => ?_
      exact noticesAside_congruence.bind ih fun second => noticesAside_congruence.pure _

end Filled

/-- A division without references is its text. -/
theorem eq_text_of_names_eq_nil {D : Division} (none : D.names = []) : D = .text D.written := by
  cases D with
  | text t => rfl
  | reference before line name later => cases none

/-- **Nothing but the taken references changes.**  Every text has one division, which spells it.
Wherever references lead and whatever is remembered, the expansion of the text has the outcome of
the division with its references replaced, and remembers the same.  When no reference is taken, it
returns the text. -/
theorem document_eq_filled (text : Text) :
    ∃ D, Divides text D ∧ (∀ E, Divides text E → E = D) ∧ D.written = text ∧
      ∀ (t : FileTree) (directory : Path) (source : Text) (s : Expanding.State),
        ((document t directory source text).run.run s).1 =
            ((filledWith (component t directory) source D).run.run s).1 ∧
          ((document t directory source text).run.run s).2.memo =
            ((filledWith (component t directory) source D).run.run s).2.memo ∧
          (D.names = [] → ((document t directory source text).run.run s).1 = .ok text) := by
  obtain ⟨D, divides⟩ := Reference.exists_divides 1 (Text.splitLines text)
  have written : D.written = text := divides.written.trans (Text.flatten_splitLines text)
  refine ⟨D, divides, fun E other => other.unique divides, written, ?_⟩
  intro t directory source s
  have same : NoticesAside (document t directory source text)
      (filledWith (component t directory) source D) :=
    noticesAside_numbered noticesAside_component divides
  obtain ⟨r, m, after, after', run, filled⟩ := same s.memo s.notices s.notices
  rw [run, filled]
  refine ⟨rfl, rfl, ?_⟩
  intro none
  rw [eq_text_of_names_eq_nil none, written] at filled
  exact (Prod.mk.inj filled).1.symm

end PageAssembly.Expansion
