import PageAssembly.Yaml.Cursor

/-!
# Folded lines

A plain or quoted scalar may go on in the next line.  One line break stands for a space; of several
the first one is left out.

## Main definitions

* `Yaml.Breaks`, `Cursor.breaks` — the line breaks that come next
* `Yaml.folded` — what line breaks stand for

## Design notes

A document marker at the start of a line ends every scalar, so the breaks are followed only up to
the first one.
-/

namespace PageAssembly.Yaml

/-- Line breaks, and what stands behind them. -/
structure Breaks where
  /-- The line breaks. -/
  text : Text
  /-- The place behind the line breaks and the blanks at the start of the last line. -/
  behind : Cursor
  /-- Whether a document marker stands there. -/
  atMarker : Bool

theorem Cursor.length_rest_nextLine_lt {p : Char → Bool} {c : Cursor}
    (h : (c.skipWhile p).lineBreak ≠ []) :
    (c.skipWhile p).breakLine.rest.length < c.rest.length :=
  Nat.lt_of_lt_of_le (Cursor.length_rest_breakLine_lt h) (Cursor.length_rest_skipWhile_le p c)

/-- The line breaks that come next at the start of a line, with blanks around them left out. -/
def Cursor.breaks (blank : Char → Bool) (c : Cursor) : Breaks :=
  if isAnyMarker c.rest then { text := [], behind := c, atMarker := true }
  else if h : (c.skipWhile blank).lineBreak = [] then
    { text := [], behind := c.skipWhile blank, atMarker := false }
  else
    have := Cursor.length_rest_nextLine_lt h
    let more := (c.skipWhile blank).breakLine.breaks blank
    { more with text := (c.skipWhile blank).lineBreak ++ more.text }
termination_by c.rest.length

theorem Cursor.length_rest_breaks_le (blank : Char → Bool) (c : Cursor) :
    (c.breaks blank).behind.rest.length ≤ c.rest.length := by
  fun_induction Cursor.breaks blank c with
  | case1 => exact Nat.le_refl _
  | case2 => exact Cursor.length_rest_skipWhile_le blank _
  | case3 c _ _ hlt more ih => exact Nat.le_trans ih (Nat.le_of_lt hlt)

/-- What a line break and those after it stand for. -/
def folded (first more : Text) : Text :=
  if first = ['\n'] then (if more = [] then [' '] else more) else first ++ more

end PageAssembly.Yaml
