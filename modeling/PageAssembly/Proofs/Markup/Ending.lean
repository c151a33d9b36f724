import PageAssembly.Proofs.Markup.Decision

/-!
# The end of the input

The end of the input changes what a reader does only where it waits.  Markup that is cut off becomes
text, a reference of two characters loses its ampersand, and everything else stays as it is.

## Main statements

* `Markup.move_true_of_waits` — what the end of the input makes of a move that waits
-/

namespace PageAssembly.Markup

variable {s : Text}

/-! ## Moves that wait -/

theorem moveFound_true_of_waits {found : Option (List Event × Text)}
    (waits : moveFound false s found = .halt [] ('<' :: s)) :
    moveFound true s found = moveCutOff true s := by
  cases found with
  | none => rfl
  | some read => cases waits

theorem moveStartTag_true_of_waits (waits : moveStartTag false s = .ok (.halt [] ('<' :: s))) :
    moveStartTag true s = .ok (moveCutOff true s) := by
  simp only [moveStartTag, Place.ending_of_moveStartTag waits]

theorem moveMarkup_true_of_waits (filled : s ≠ [])
    (waits : moveMarkup false s = .ok (.halt [] ('<' :: s))) :
    moveMarkup true s = .ok (moveCutOff true s) := by
  rcases moveMarkup_cases s with rfl | tag | ⟨found, -, moved⟩ | ⟨e, failed⟩ | text
  · exact absurd rfl filled
  · rw [tag] at waits ⊢
    exact moveStartTag_true_of_waits waits
  · rw [moved] at waits ⊢
    rw [moveFound_true_of_waits (Except.ok.inj waits)]
  · rw [failed] at waits
    cases waits
  · rw [text] at waits
    cases waits

theorem moveReference_true_of_waits (waits : moveReference false s = .halt [] ('&' :: s)) :
    moveReference true s = .halt [] ('&' :: s) ∨
      ∃ c, s = [c] ∧ Text.isLetter c = true ∧ moveReference true s = .halt [] [c] := by
  unfold moveReference at waits ⊢
  split at waits
  · exact Or.inl rfl
  · exact Or.inl waits
  · next c body hash =>
      split at waits
      · next letter =>
          rw [if_pos letter]
          cases read : readEntity? (c :: body) with
          | some found =>
              rw [read] at waits
              cases waits
          | none =>
              cases body with
              | nil => exact Or.inr ⟨c, rfl, letter, rfl⟩
              | cons d body => exact Or.inl rfl
      · cases waits

/-- **What the end of the input makes of a move that waits**: nothing, or text of markup that is cut
off, or nothing but the loss of an ampersand. -/
theorem move_true_of_waits {raw : Option RawElement} (waits : move false raw s = .ok (.halt [] s)) :
    move true raw s = .ok (.halt [] s) ∨
      (∃ t, s = '<' :: t ∧
        move true raw s = .ok (.advance [.text (abandon t).1] (abandon t).2 none)) ∨
      ∃ c, s = ['&', c] ∧ Text.isLetter c = true ∧ move true raw s = .ok (.halt [] [c]) := by
  cases raw with
  | some element => exact Or.inl waits
  | none =>
      simp only [move] at waits ⊢
      split at waits
      · cases waits
      · next special =>
          simp only [if_neg special]
          split at waits
          · next t =>
              by_cases filled : t = []
              · subst filled
                exact Or.inl rfl
              · refine Or.inr (Or.inl ⟨t, rfl, ?_⟩)
                exact moveMarkup_true_of_waits filled waits
          · next t =>
              rcases moveReference_true_of_waits (Except.ok.inj waits) with
                same | ⟨c, rfl, letter, lost⟩
              · exact Or.inl (congrArg _ same)
              · exact Or.inr (Or.inr ⟨c, rfl, letter, congrArg _ lost⟩)
          · exact Or.inl rfl

end PageAssembly.Markup
