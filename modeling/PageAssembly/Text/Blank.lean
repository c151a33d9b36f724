/-!
# Texts and blanks

A text is a list of code points.  Everything the library reads, searches or prints passes
through this type, so a position in a text is a number of code points and the order of texts is
the order of their code points.

## Main definitions

* `PageAssembly.Text` — texts as lists of code points
* `Text.isBlank` — the characters that trimming removes
* `Text.trimStart`, `Text.trimEnd`, `Text.trim` — blanks taken off the ends

## Design notes

Blanks are the characters with a Unicode white-space or separator control function, which is a
wider class than `Char.isWhitespace`: it holds the four information separators and every space of
the general punctuation block.  All trimming, all gaps inside tags and all gaps before a comment's
end use this one class.
-/

namespace PageAssembly

/-- A text: its code points in reading order. -/
abbrev Text := List Char

instance : LawfulBEq Text := inferInstance

namespace Text

/-- The characters that count as blank. -/
def isBlank (c : Char) : Bool :=
  let n := c.toNat
  (9 ≤ n && n ≤ 13) || (28 ≤ n && n ≤ 32) || n == 0x85 || n == 0xA0 || n == 0x1680 ||
    (0x2000 ≤ n && n ≤ 0x200A) || n == 0x2028 || n == 0x2029 || n == 0x202F || n == 0x205F ||
    n == 0x3000

/-- Every character of the core white-space class is blank. -/
theorem isBlank_of_isWhitespace {c : Char} (h : c.isWhitespace = true) : isBlank c = true := by
  simp only [Char.isWhitespace, Bool.or_eq_true, decide_eq_true_eq] at h
  rcases h with ((h | h) | h) | h <;> subst h <;> decide

/-- The text without the blanks at its start. -/
def trimStart (s : Text) : Text := s.dropWhile isBlank

/-- The text without the blanks at its end. -/
def trimEnd (s : Text) : Text := (s.reverse.dropWhile isBlank).reverse

/-- The text without the blanks at either end. -/
def trim (s : Text) : Text := trimEnd (trimStart s)

@[simp] theorem trimStart_nil : trimStart [] = [] := rfl

@[simp] theorem trimEnd_nil : trimEnd [] = [] := rfl

@[simp] theorem trim_nil : trim [] = [] := rfl

/-- Whether a text holds blanks only. -/
def isAllBlank (s : Text) : Bool := s.all isBlank

/-- The order of texts: code point by code point, a text before its extensions. -/
def le (a b : Text) : Bool := @decide _ (List.decidableLE a b)

/-- Texts in ascending order, repetitions kept. -/
def sort (ts : List Text) : List Text := ts.mergeSort le

/-- Texts in ascending order, each once. -/
def sortUnique (ts : List Text) : List Text := sort ts.eraseDups

@[simp] theorem mem_sort {t : Text} {ts : List Text} : t ∈ sort ts ↔ t ∈ ts :=
  List.mem_mergeSort

/-- Sorting and dropping repetitions neither adds nor loses a text. -/
@[simp] theorem mem_sortUnique {t : Text} {ts : List Text} : t ∈ sortUnique ts ↔ t ∈ ts := by
  rw [sortUnique, mem_sort, List.mem_eraseDups]

/-- The text as a string. -/
def str (s : Text) : String := String.ofList s

end Text

end PageAssembly
