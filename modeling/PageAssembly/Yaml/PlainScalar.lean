import PageAssembly.Yaml.LineFold

/-!
# Plain scalars

A scalar without quotes.  It ends at a colon with a gap behind it, at a comment, at a bracket or a
comma inside a flow collection, and at a line that is indented too little.

## Main definitions

* `Yaml.plainLength` — the number of characters up to the next gap or end
* `Yaml.PlainScalar`, `Cursor.plainScalar` — the plain scalar that comes next

## Design notes

Between two words stand spaces, which are kept, or line breaks, which are folded.  A tab is neither
and ends the scalar.
-/

namespace PageAssembly.Yaml

/-- The number of characters of a plain scalar up to the next gap or to its end, added to
`passed`. -/
def plainLength (flow : Bool) (passed : Nat) : Text → Nat
  | [] => passed
  | char :: rest =>
    if isGap (some char) then passed
    else if char = ':' then
      if isGap rest.head? then passed else plainLength flow (passed + 1) rest
    else if flow && isFlowIndicator char then passed
    else plainLength flow (passed + 1) rest

/-- What stands between two words of a plain scalar, or behind the last one. -/
structure WordGap where
  /-- What it stands for in the scalar; nothing when the scalar ends. -/
  text : Text
  /-- The place behind it. -/
  behind : Cursor
  /-- Whether a line ends in it. -/
  breaksLine : Bool

/-- What stands behind a word of a plain scalar. -/
def Cursor.wordGap (c : Cursor) : WordGap :=
  if c.skipSpaces.lineBreak = [] then
    { text := c.run (· == ' '), behind := c.skipSpaces, breaksLine := false }
  else
    let more := c.skipSpaces.breakLine.breaks (· == ' ')
    { text := if more.atMarker then [] else folded c.skipSpaces.lineBreak more.text
      behind := more.behind
      breaksLine := true }

theorem length_rest_wordGap_le (c : Cursor) : c.wordGap.behind.rest.length ≤ c.rest.length := by
  have hs : c.skipSpaces.rest.length ≤ c.rest.length := Cursor.length_rest_skipWhile_le _ c
  unfold Cursor.wordGap
  split
  · exact hs
  · exact Nat.le_trans (Cursor.length_rest_breaks_le _ _)
      (Nat.le_trans (Cursor.length_rest_breakLine_le _) hs)

theorem length_rest_wordGap_skip_lt {flow : Bool} {c : Cursor}
    (h : plainLength flow 0 c.rest ≠ 0) :
    (c.skip (plainLength flow 0 c.rest)).wordGap.behind.rest.length < c.rest.length := by
  have hc : 0 < c.rest.length := by
    rw [List.length_pos_iff]
    rintro hc
    simp [hc, plainLength] at h
  have hg := length_rest_wordGap_le (c.skip (plainLength flow 0 c.rest))
  rw [Cursor.rest_skip, List.length_drop] at hg
  omega

/-- A plain scalar and the place behind it. -/
structure PlainScalar where
  /-- The text of the scalar. -/
  text : Text
  /-- The place behind the scalar and the blanks that follow it. -/
  behind : Cursor
  /-- Whether a line ends between the scalar and that place. -/
  breaksLine : Bool

/-- The plain scalar that goes on at a place.  `done` holds its words and the gaps between them in
reverse, and `before` is the gap behind them. -/
def Cursor.plainScalarFrom (flow : Bool) (margin : Nat) (done : List Text) (before : Text)
    (breaksLine : Bool) (c : Cursor) : PlainScalar :=
  if h : c.isAt '#' ∨ plainLength flow 0 c.rest = 0 then
    { text := done.reverse.flatten, behind := c, breaksLine }
  else
    have := length_rest_wordGap_skip_lt (not_or.1 h).2
    let word := c.rest.take (plainLength flow 0 c.rest)
    let gap := (c.skip (plainLength flow 0 c.rest)).wordGap
    let done := word :: before :: done
    if gap.text = [] ∨ (flow = false ∧ gap.behind.column < margin) then
      { text := done.reverse.flatten, behind := gap.behind, breaksLine := gap.breaksLine }
    else gap.behind.plainScalarFrom flow margin done gap.text gap.breaksLine
termination_by c.rest.length

/-- The plain scalar that comes next.  Outside flow collections its lines are indented by `margin`
columns at least. -/
def Cursor.plainScalar (flow : Bool) (margin : Nat) (c : Cursor) : PlainScalar :=
  c.plainScalarFrom flow margin [] [] false

end PageAssembly.Yaml
