import PageAssembly.Yaml.Character

/-!
# Cursors

A place in a text: what is left to read, and the line and column it stands in.

## Main definitions

* `Yaml.Cursor` — the place
* `Cursor.skip`, `Cursor.skipWhile` — places further on
* `Cursor.breakLine` — behind a line break

## Main statements

* `Cursor.rest_skip` — skipping drops that many characters

## Design notes

Lines are counted by line feeds.  A byte order mark takes no column.
-/

namespace PageAssembly.Yaml

/-- A place in a text. -/
structure Cursor where
  /-- What is left to read. -/
  rest : Text
  /-- The number of characters read. -/
  index : Nat := 0
  /-- The number of line feeds read. -/
  line : Nat := 0
  /-- The number of characters read since then, byte order marks left out. -/
  column : Nat := 0
  deriving DecidableEq, Repr

namespace Cursor

/-- The next character. -/
def peek? (c : Cursor) : Option Char := c.rest.head?

/-- The character that many places further on. -/
def ahead? (c : Cursor) (n : Nat) : Option Char := (c.rest.drop n).head?

/-- Whether the next character is the given one. -/
def isAt (c : Cursor) (char : Char) : Bool := c.peek? == some char

/-- The place behind a character, with the rest that follows it. -/
def behind (c : Cursor) (char : Char) (rest : Text) : Cursor where
  rest
  index := c.index + 1
  line := if char = '\n' then c.line + 1 else c.line
  column :=
    if char = '\n' then 0 else if char = byteOrderMark then c.column else c.column + 1

/-- The place behind the next character. -/
def step (c : Cursor) : Cursor :=
  match c.rest with
  | [] => c
  | char :: rest => c.behind char rest

/-- The place that many characters further on. -/
def skip : Nat → Cursor → Cursor
  | 0, c => c
  | n + 1, c => skip n c.step

/-- The characters of a class that come next. -/
def run (c : Cursor) (p : Char → Bool) : Text := c.rest.takeWhile p

/-- The place behind the characters of a class that come next. -/
def skipWhile (c : Cursor) (p : Char → Bool) : Cursor := c.skip (c.run p).length

/-- The place behind the spaces that come next. -/
def skipSpaces (c : Cursor) : Cursor := c.skipWhile (· == ' ')

/-- The place where the current line ends. -/
def toLineEnd (c : Cursor) : Cursor := c.skipWhile fun char => !isLineEnd (some char)

/-- The place behind the comment that comes next, if there is one. -/
def skipComment (c : Cursor) : Cursor := if c.isAt '#' then c.toLineEnd else c

/-- The line break that comes next, as it stands in a scalar; nothing when there is none. -/
def lineBreak (c : Cursor) : Text :=
  match c.peek? with
  | some char => if isBreak char then [if char = '\x85' then '\n' else char] else []
  | none => []

/-- The place behind the line break that comes next, if there is one. -/
def breakLine (c : Cursor) : Cursor := if c.lineBreak.isEmpty then c else c.step

@[simp] theorem rest_step (c : Cursor) : c.step.rest = c.rest.tail := by
  unfold step
  split
  · next h => simp [h]
  · next h => simp [h, behind]

/-- Skipping drops that many characters. -/
@[simp] theorem rest_skip (n : Nat) (c : Cursor) : (c.skip n).rest = c.rest.drop n := by
  induction n generalizing c with
  | zero => rfl
  | succ n ih => simp [skip, ih, List.drop_tail]

theorem rest_skipWhile (c : Cursor) (p : Char → Bool) :
    (c.skipWhile p).rest = c.rest.dropWhile p := by
  rw [skipWhile, rest_skip, run]
  generalize c.rest = s
  induction s with
  | nil => rfl
  | cons char s ih => by_cases h : p char <;> simp [h, ih]

theorem length_rest_skipWhile_le (p : Char → Bool) (c : Cursor) :
    (c.skipWhile p).rest.length ≤ c.rest.length := by
  simp [skipWhile]

theorem length_rest_skipComment_le (c : Cursor) : c.skipComment.rest.length ≤ c.rest.length := by
  unfold skipComment
  split
  · exact length_rest_skipWhile_le _ c
  · exact Nat.le_refl _

theorem length_rest_breakLine_le (c : Cursor) : c.breakLine.rest.length ≤ c.rest.length := by
  unfold breakLine
  split <;> simp

theorem length_rest_breakLine_lt {c : Cursor} (h : c.lineBreak ≠ []) :
    c.breakLine.rest.length < c.rest.length := by
  have hc : c.rest ≠ [] := by
    rintro h'
    simp [lineBreak, peek?, h'] at h
  have := List.length_pos_iff.2 hc
  simp [breakLine, h]
  omega

end Cursor

end PageAssembly.Yaml
