import PageAssembly.Yaml.Fault
import PageAssembly.Yaml.Cursor

/-!
# Block scalars

A scalar that is written in lines of its own, indented below the line of its header.

## Main definitions

* `Yaml.Chomping` — what is kept of the line breaks at the end
* `Yaml.BlockHeader`, `Cursor.blockHeader` — the line with the indicators
* `Cursor.blockScalar` — the block scalar that comes next

## Design notes

The indentation is given in the header, or it is that of the first line that is not empty.  In a
folded scalar the break between two lines stands for a space, unless one of the lines starts with a
blank.  At the top of a document the lines may start in the first column, and a document marker
ends the scalar.
-/

namespace PageAssembly.Yaml

/-- What is kept of the line breaks at the end of a block scalar. -/
inductive Chomping where
  /-- None. -/
  | strip
  /-- The first one. -/
  | clip
  /-- All of them. -/
  | keep
  deriving DecidableEq, Repr

/-- The line in front of a block scalar. -/
structure BlockHeader where
  /-- What is kept of the line breaks at the end. -/
  chomping : Chomping
  /-- The indentation, counted from the one of the collection around it. -/
  increment : Option Nat
  /-- The start of the next line. -/
  behind : Cursor

/-- The chomping indicator that comes next, if there is one. -/
def Cursor.chomping? (c : Cursor) : Option Chomping :=
  match c.peek? with
  | some '+' => some .keep
  | some '-' => some .strip
  | _ => none

/-- The indentation indicator that comes next, if there is one. -/
def Cursor.increment? (c : Cursor) : Option Nat :=
  match c.peek? with
  | some char => if Text.isDigit char then some (char.toNat - 48) else none
  | none => none

/-- The place behind an indicator, if there is one. -/
def Cursor.behindIndicator {α : Type} (c : Cursor) : Option α → Cursor
  | some _ => c.step
  | none => c

/-- The header of a block scalar, behind the character that starts it. -/
def Cursor.blockHeader (c : Cursor) : Except Fault BlockHeader := do
  let before := c.chomping?
  let atIncrement := c.behindIndicator before
  let increment := atIncrement.increment?
  let atEnd := atIncrement.behindIndicator increment
  let after := if before.isNone then atEnd.chomping? else none
  let behind := atEnd.behindIndicator after
  let lineEnd := behind.skipSpaces.skipComment
  if increment = some 0 ∨ !endsTag behind.peek? ∨ !isLineEnd lineEnd.peek? then
    throw .blockScalar
  return { chomping := (before.or after).getD .clip, increment, behind := lineEnd.breakLine }

/-- Empty lines, and the place behind them. -/
structure EmptyLines where
  /-- The line breaks. -/
  text : Text
  /-- The place behind the spaces that follow. -/
  behind : Cursor

/-- The place behind spaces, up to the column `indent`. -/
def Cursor.skipIndent (indent : Nat) (c : Cursor) : Cursor :=
  c.skip (min (indent - c.column) (c.run (· == ' ')).length)

theorem length_rest_skipIndent_le (indent : Nat) (c : Cursor) :
    (c.skipIndent indent).rest.length ≤ c.rest.length := by
  simp [Cursor.skipIndent]

/-- The empty lines that come next, of which each has `indent` spaces at most. -/
def Cursor.emptyLines (indent : Nat) (c : Cursor) : EmptyLines :=
  if h : (c.skipIndent indent).lineBreak = [] then { text := [], behind := c.skipIndent indent }
  else
    have := Nat.lt_of_lt_of_le (Cursor.length_rest_breakLine_lt h)
      (length_rest_skipIndent_le indent c)
    let more := (c.skipIndent indent).breakLine.emptyLines indent
    { more with text := (c.skipIndent indent).lineBreak ++ more.text }
termination_by c.rest.length

theorem length_rest_emptyLines_le (indent : Nat) (c : Cursor) :
    (c.emptyLines indent).behind.rest.length ≤ c.rest.length := by
  fun_induction Cursor.emptyLines indent c with
  | case1 c _ => exact length_rest_skipIndent_le indent c
  | case2 c _ hlt more ih => exact Nat.le_trans ih (Nat.le_of_lt hlt)

/-- The empty lines at the start of a block scalar whose indentation is not given: the place behind
them, the column where the first one of them ends, and the widest indentation. -/
structure LeadingLines extends EmptyLines where
  /-- The column where the first empty line ends. -/
  first : Option Nat
  /-- The widest indentation of them and of the line that follows. -/
  widest : Nat

/-- The empty lines at the start of a block scalar. -/
def Cursor.leadingLines (c : Cursor) : LeadingLines :=
  if h : c.skipSpaces.lineBreak = [] then
    { text := [], behind := c.skipSpaces, first := none, widest := c.skipSpaces.column }
  else
    have := Nat.lt_of_lt_of_le (Cursor.length_rest_breakLine_lt h)
      (Cursor.length_rest_skipWhile_le _ c)
    let more := c.skipSpaces.breakLine.leadingLines
    { text := c.skipSpaces.lineBreak ++ more.text
      behind := more.behind
      first := some c.skipSpaces.column
      widest := max c.skipSpaces.column more.widest }
termination_by c.rest.length

/-- The start of a block scalar: the column of its lines and the empty lines in front of them. -/
def BlockHeader.indentation (margin : Nat) (header : BlockHeader) :
    Except Fault (Nat × EmptyLines) :=
  match header.increment with
  | some increment =>
    let indent := max margin 1 + increment - 1
    .ok (indent, header.behind.emptyLines indent)
  | none =>
    let leading := header.behind.leadingLines
    match leading.first with
    | some first =>
      if 0 < first ∧ first < leading.widest then .error .blockScalar
      else .ok (max margin leading.widest, leading.toEmptyLines)
    | none => .ok (max margin leading.widest, leading.toEmptyLines)

/-- What stands between two lines of a block scalar. -/
def blockSeparator (isFolded : Bool) (lineBreak emptyLines line next : Text) : Text :=
  let startsBlank := fun (s : Text) => s.head?.any isBlank
  if isFolded && lineBreak == ['\n'] && !startsBlank line && !startsBlank next then
    if emptyLines.isEmpty then [' '] else []
  else lineBreak

/-- The characters up to the end of the line. -/
def Cursor.lineText (c : Cursor) : Text := c.run fun char => !isLineEnd (some char)

/-- The empty lines behind the current line. -/
def Cursor.behindLine (indent : Nat) (c : Cursor) : EmptyLines :=
  c.toLineEnd.breakLine.emptyLines indent

theorem length_rest_behindLine_lt (indent : Nat) {c : Cursor} (h : c.lineText ≠ []) :
    (c.behindLine indent).behind.rest.length < c.rest.length := by
  have hl := List.length_pos_iff.2 h
  have hr : c.lineText.length ≤ c.rest.length :=
    (List.takeWhile_prefix _ (l := c.rest)).length_le
  have he : c.toLineEnd.rest.length < c.rest.length := by
    rw [Cursor.toLineEnd, Cursor.skipWhile, Cursor.rest_skip, List.length_drop]
    simp only [Cursor.lineText] at hl hr
    omega
  exact Nat.lt_of_le_of_lt (length_rest_emptyLines_le indent _)
    (Nat.lt_of_le_of_lt (Cursor.length_rest_breakLine_le _) he)

/-- The lines of a block scalar as far as they are known. -/
structure BlockLines where
  /-- The parts of the text in reverse. -/
  parts : List Text := []
  /-- The line break behind the last line. -/
  lineBreak : Text := []
  /-- The empty lines behind that. -/
  empty : EmptyLines

/-- The lines of a block scalar from a place on, which is behind the empty lines of what is known. -/
def BlockLines.more (isFolded : Bool) (indent : Nat) (endsAtMarker : Bool) (known : BlockLines) :
    BlockLines :=
  let c := known.empty.behind
  if h : c.column = indent ∧ c.lineText ≠ [] then
    have := length_rest_behindLine_lt indent h.2
    let next := c.behindLine indent
    let parts := c.lineText :: known.empty.text :: known.parts
    let lineBreak := c.toLineEnd.lineBreak
    if next.behind.column = indent ∧ !next.behind.rest.isEmpty ∧
        !(endsAtMarker && isAnyMarker next.behind.rest) then
      let separator := blockSeparator isFolded lineBreak next.text c.lineText next.behind.rest
      BlockLines.more isFolded indent endsAtMarker
        { parts := separator :: parts, lineBreak, empty := next }
    else { parts, lineBreak, empty := next }
  else known
termination_by known.empty.behind.rest.length

/-- The block scalar that comes next, and the place behind it.  The content of the collection
around it is indented by `margin` columns at least. -/
def Cursor.blockScalar (isFolded : Bool) (margin : Nat) (c : Cursor) :
    Except Fault (Text × Cursor) := do
  let header ← c.step.blockHeader
  let (indent, empty) ← header.indentation margin
  let endsAtMarker := margin == 0 && header.increment.isNone
  let lines := BlockLines.more isFolded indent endsAtMarker { empty }
  let ending := match header.chomping with
    | .strip => []
    | .clip => lines.lineBreak
    | .keep => lines.lineBreak ++ lines.empty.text
  return ((ending :: lines.parts).reverse.flatten, lines.empty.behind)

end PageAssembly.Yaml
