import Mathlib.Data.List.TakeWhile
import PageAssembly.Text.Blank

/-!
# Trimming

A text is the text without the blanks at its ends, with blanks on either side.

## Main statements

* `Text.exists_trim` — the blanks that trimming takes off
* `Text.trim_blank_append`, `Text.trim_append_blank` — blanks at the ends do not matter
* `Text.trim_of_ends` — a text between two characters that are not blank stays as it is
-/

namespace PageAssembly.Text

variable {blank s : Text}

@[simp] theorem isAllBlank_nil : isAllBlank [] = true := rfl

@[simp] theorem isAllBlank_append (s t : Text) :
    isAllBlank (s ++ t) = (isAllBlank s && isAllBlank t) :=
  List.all_append

@[simp] theorem isAllBlank_reverse (s : Text) : isAllBlank s.reverse = isAllBlank s :=
  List.all_reverse

theorem dropWhile_isBlank_eq_nil (h : isAllBlank s = true) : s.dropWhile isBlank = [] := by
  rw [List.dropWhile_eq_nil_iff]
  intro c hc
  exact List.all_eq_true.mp h c hc

theorem dropWhile_isBlank_append (h : isAllBlank blank = true) (s : Text) :
    (blank ++ s).dropWhile isBlank = s.dropWhile isBlank := by
  rw [List.dropWhile_append, dropWhile_isBlank_eq_nil h]
  rfl

theorem trimEnd_append_blank (s : Text) (h : isAllBlank blank = true) :
    trimEnd (s ++ blank) = trimEnd s := by
  rw [trimEnd, trimEnd, List.reverse_append, dropWhile_isBlank_append (by simpa using h)]

/-- Blanks in front do not matter. -/
theorem trim_blank_append (h : isAllBlank blank = true) (s : Text) :
    trim (blank ++ s) = trim s := by
  rw [trim, trim, trimStart, trimStart, dropWhile_isBlank_append h]

/-- Blanks behind do not matter. -/
theorem trim_append_blank (s : Text) (h : isAllBlank blank = true) :
    trim (s ++ blank) = trim s := by
  rw [trim, trim, trimStart, trimStart, List.dropWhile_append]
  cases rest : s.dropWhile isBlank with
  | nil =>
      rw [dropWhile_isBlank_eq_nil h]
      rfl
  | cons c t => exact trimEnd_append_blank (c :: t) h

theorem trim_of_isAllBlank (h : isAllBlank s = true) : trim s = [] := by
  rw [trim, trimStart, dropWhile_isBlank_eq_nil h, trimEnd_nil]

/-- **What trimming takes off** is blank. -/
theorem exists_trim (s : Text) : ∃ lead trail : Text,
    isAllBlank lead = true ∧ isAllBlank trail = true ∧ s = lead ++ trim s ++ trail := by
  have front := List.takeWhile_append_dropWhile (p := isBlank) (l := s)
  have back := congrArg List.reverse
    (List.takeWhile_append_dropWhile (p := isBlank) (l := s.trimStart.reverse))
  rw [List.reverse_append, List.reverse_reverse] at back
  refine ⟨s.takeWhile isBlank, (s.trimStart.reverse.takeWhile isBlank).reverse, ?_, ?_, ?_⟩
  · exact List.all_takeWhile
  · rw [isAllBlank_reverse]
    exact List.all_takeWhile
  · rw [trim, trimEnd, List.append_assoc, back]
    exact front.symm

/-- A text that is not blank keeps something. -/
theorem trim_ne_nil (h : isAllBlank s = false) : trim s ≠ [] := by
  intro empty
  obtain ⟨lead, trail, hlead, htrail, split⟩ := exists_trim s
  rw [empty] at split
  rw [split] at h
  simp [hlead, htrail] at h

theorem trim_trim (s : Text) : trim (trim s) = trim s := by
  obtain ⟨lead, trail, hlead, htrail, split⟩ := exists_trim s
  calc trim (trim s)
      = trim (lead ++ trim s) := (trim_blank_append hlead _).symm
    _ = trim (lead ++ trim s ++ trail) := (trim_append_blank _ htrail).symm
    _ = trim s := by rw [← split]

/-- A text between two characters that are not blank stays as it is. -/
theorem trim_of_ends {first last : Char} (hf : isBlank first = false) (hl : isBlank last = false)
    (s : Text) : trim (first :: s ++ [last]) = first :: s ++ [last] := by
  have start : trimStart (first :: s ++ [last]) = first :: s ++ [last] := by
    simp [trimStart, hf]
  rw [trim, start, trimEnd, List.reverse_append]
  simp [hl]

end PageAssembly.Text
