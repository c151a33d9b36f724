import PageAssembly.Yaml.BlockScalar
import PageAssembly.Yaml.PlainScalar
import PageAssembly.Yaml.QuotedScalar
import PageAssembly.Yaml.TagName

/-!
# From a text to tokens

## Main definitions

* `Yaml.Candidate` — a place where a key may have started
* `Yaml.Lexing` — a text of which the tokens in front of a place are known
* `Yaml.tokens` — the tokens of a text

## Design notes

A key is known to be one only at the colon behind it.  So every token that may start a key is noted
as a candidate, one for each open flow collection and one for the block around them; the colon puts
the key's token in front of it.  A candidate is given up when its line ends or after 1024
characters.  A candidate at the very column of the innermost block collection can be nothing but a
key there, so giving it up is a fault.

The columns of the open block collections rise from the outermost to the innermost one.  A token
that stands further left ends those that it does not belong to.
-/

namespace PageAssembly.Yaml

/-- A place where a key may have started. -/
structure Candidate where
  /-- The number of tokens in front of it. -/
  number : Nat
  /-- Whether nothing but a key can stand there. -/
  isRequired : Bool
  /-- The place. -/
  start : Cursor

/-- The longest distance between a key and the colon behind it. -/
def keyLimit : Nat := 1024

/-- A text of which the tokens in front of a place are known. -/
structure Lexing where
  /-- The place. -/
  cursor : Cursor
  /-- The tokens in front of it. -/
  tokens : Array Token := #[]
  /-- The columns of the open block collections, innermost first. -/
  columns : List Nat := []
  /-- The open flow collections, innermost first. -/
  brackets : List Collection := []
  /-- Whether a key may start here. -/
  keyAllowed : Bool := true
  /-- The candidate in the innermost open collection. -/
  candidate : Option Candidate := none
  /-- The candidates in the collections around it, innermost first. -/
  outer : List (Option Candidate) := []

namespace Lexing

/-- Whether the place is inside a flow collection. -/
def inFlow (s : Lexing) : Bool := !s.brackets.isEmpty

/-- The least column for what belongs into the innermost open block collection. -/
def margin (s : Lexing) : Nat :=
  match s.columns with
  | [] => 0
  | column :: _ => column + 1

/-- Adds a token and goes on behind it. -/
def emit (s : Lexing) (token : Token) (behind : Cursor) : Lexing :=
  { s with tokens := s.tokens.push token, cursor := behind }

/-! ## Candidates -/

/-- Gives a candidate up, which is a fault for a required one. -/
def giveUp : Option Candidate → Except Fault (Option Candidate)
  | some candidate => if candidate.isRequired then .error .keyWithoutValue else .ok none
  | none => .ok none

/-- Keeps a candidate while a colon may still turn it into a key. -/
def keepNear (c : Cursor) : Option Candidate → Except Fault (Option Candidate)
  | some candidate =>
    if candidate.start.line ≠ c.line ∨ candidate.start.index + keyLimit < c.index then
      giveUp (some candidate)
    else .ok (some candidate)
  | none => .ok none

/-- Gives up the candidates that are too far away. -/
def dropStale (s : Lexing) : Except Fault Lexing := do
  return { s with
    candidate := ← keepNear s.cursor s.candidate
    outer := ← s.outer.mapM (keepNear s.cursor) }

/-- Gives up the innermost candidate. -/
def dropCandidate (s : Lexing) : Except Fault Lexing := do
  return { s with candidate := ← giveUp s.candidate }

/-- Notes that a key may start here, if one may, and not right behind it. -/
def noteCandidate (s : Lexing) : Except Fault Lexing := do
  if s.keyAllowed then
    let _ ← giveUp s.candidate
    let isRequired := !s.inFlow && s.columns.head? == some s.cursor.column
    return { s with
      candidate := some { number := s.tokens.size, isRequired, start := s.cursor }
      keyAllowed := false }
  else return s

/-! ## Block collections -/

/-- Ends the block collections whose columns the given one does not reach. -/
def unwind (column : Nat) (s : Lexing) : Lexing :=
  if s.inFlow then s
  else
    let ended := s.columns.takeWhile (column < ·)
    { s with
      columns := s.columns.drop ended.length
      tokens := ended.foldl (fun tokens _ => tokens.push .blockEnd) s.tokens }

/-- Ends all block collections. -/
def unwindAll (s : Lexing) : Lexing :=
  if s.inFlow then s
  else { s with
    columns := []
    tokens := s.columns.foldl (fun tokens _ => tokens.push .blockEnd) s.tokens }

/-- Starts a block collection in front of a token when the column lies inside the innermost one. -/
def open? (kind : Collection) (column number : Nat) (s : Lexing) : Lexing :=
  if !s.inFlow ∧ s.margin ≤ column then
    { s with
      columns := column :: s.columns
      tokens := s.tokens.insertIdxIfInBounds number (.blockStart kind) }
  else s

/-! ## The tokens -/

/-- A line with a directive. -/
def directive (s : Lexing) : Except Fault Lexing := do
  let s ← s.unwindAll.dropCandidate
  let (token, behind) ← s.cursor.directiveToken
  return { s with keyAllowed := false }.emit token behind

/-- A document marker. -/
def marker (token : Token) (s : Lexing) : Except Fault Lexing := do
  let s ← s.unwindAll.dropCandidate
  return { s with keyAllowed := false }.emit token (s.cursor.skip 3)

/-- An opening bracket. -/
def openBracket (kind : Collection) (s : Lexing) : Except Fault Lexing := do
  let s ← s.noteCandidate
  return { s with
    brackets := kind :: s.brackets
    outer := s.candidate :: s.outer
    candidate := none
    keyAllowed := true }.emit (.flowStart kind) s.cursor.step

/-- A closing bracket. -/
def closeBracket (kind : Collection) (s : Lexing) : Except Fault Lexing := do
  let _ ← giveUp s.candidate
  match s.brackets, s.outer with
  | _ :: brackets, candidate :: outer =>
    return { s with brackets, outer, candidate, keyAllowed := false }.emit
      (.flowEnd kind) s.cursor.step
  | _, _ => throw .bracket

/-- A comma. -/
def comma (s : Lexing) : Except Fault Lexing := do
  let s ← s.dropCandidate
  return { s with keyAllowed := true }.emit .flowEntry s.cursor.step

/-- A hyphen in front of an entry. -/
def entry (s : Lexing) : Except Fault Lexing := do
  if !s.inFlow && !s.keyAllowed then throw .entryPlace
  let s ← (s.open? .sequence s.cursor.column s.tokens.size).dropCandidate
  return { s with keyAllowed := true }.emit .blockEntry s.cursor.step

/-- A question mark in front of a key. -/
def key (s : Lexing) : Except Fault Lexing := do
  if !s.inFlow && !s.keyAllowed then throw .keyPlace
  let s ← (s.open? .mapping s.cursor.column s.tokens.size).dropCandidate
  return { s with keyAllowed := !s.inFlow }.emit .key s.cursor.step

/-- A colon in front of a value. -/
def value (s : Lexing) : Except Fault Lexing := do
  match s.candidate with
  | some candidate =>
    let s := { s with
      tokens := s.tokens.insertIdxIfInBounds candidate.number .key
      candidate := none
      keyAllowed := false }
    return (s.open? .mapping candidate.start.column candidate.number).emit .value s.cursor.step
  | none =>
    if !s.inFlow && !s.keyAllowed then throw .valuePlace
    let s := s.open? .mapping s.cursor.column s.tokens.size
    return { s with keyAllowed := !s.inFlow }.emit .value s.cursor.step

/-- An alias. -/
def aliased (s : Lexing) : Except Fault Lexing := do
  let s ← s.noteCandidate
  let (name, behind) ← s.cursor.anchorName
  return s.emit (.alias name) behind

/-- An anchor. -/
def anchor (s : Lexing) : Except Fault Lexing := do
  let s ← s.noteCandidate
  let (name, behind) ← s.cursor.anchorName
  return s.emit (.anchor name) behind

/-- A tag. -/
def tag (s : Lexing) : Except Fault Lexing := do
  let s ← s.noteCandidate
  let (token, behind) ← s.cursor.tagToken
  return s.emit token behind

/-- A quoted scalar. -/
def quoted (quote : Quote) (s : Lexing) : Except Fault Lexing := do
  let s ← s.noteCandidate
  let (text, behind) ← s.cursor.quotedScalar quote
  return s.emit (.scalar false text) behind

/-- A plain scalar. -/
def plain (s : Lexing) : Except Fault Lexing := do
  let s ← s.noteCandidate
  let scalar := s.cursor.plainScalar s.inFlow s.margin
  return { s with keyAllowed := scalar.breaksLine }.emit (.scalar true scalar.text) scalar.behind

/-- A block scalar. -/
def block (isFolded : Bool) (s : Lexing) : Except Fault Lexing := do
  let s ← s.dropCandidate
  let (text, behind) ← s.cursor.blockScalar isFolded s.margin
  return { s with keyAllowed := true }.emit (.scalar false text) behind

/-! ## The dispatch on characters -/

/-- The place behind a byte order mark at the start of the text. -/
def behindMark (c : Cursor) : Cursor :=
  if c.index = 0 ∧ c.isAt byteOrderMark then c.step else c

/-- The place behind blanks and a comment in the current line.  A tab is a blank in flow collections
only. -/
def behindBlanks (inFlow : Bool) (c : Cursor) : Cursor :=
  ((behindMark c).skipWhile fun char => char == ' ' || (inFlow && char == '\t')).skipComment

theorem length_rest_behindBlanks_le (inFlow : Bool) (c : Cursor) :
    (behindBlanks inFlow c).rest.length ≤ c.rest.length := by
  have hm : (behindMark c).rest.length ≤ c.rest.length := by
    unfold behindMark
    split <;> simp
  exact Nat.le_trans (Cursor.length_rest_skipComment_le _)
    (Nat.le_trans (Cursor.length_rest_skipWhile_le _ _) hm)

/-- Goes on to the next token, past blanks, comments and line breaks.  Behind a line break a key may
start in a block collection. -/
def skipBlanks (s : Lexing) : Lexing :=
  if h : (behindBlanks s.inFlow s.cursor).lineBreak = [] then
    { s with cursor := behindBlanks s.inFlow s.cursor }
  else
    have := Nat.lt_of_lt_of_le (Cursor.length_rest_breakLine_lt h)
      (length_rest_behindBlanks_le s.inFlow s.cursor)
    skipBlanks { s with
      cursor := (behindBlanks s.inFlow s.cursor).breakLine
      keyAllowed := s.keyAllowed || !s.inFlow }
termination_by s.cursor.rest.length

/-- Whether the colon at the place stands in front of a value.  In a mapping in brackets no gap is
needed behind it, except right behind another colon when a key may turn out to have started further
out. -/
def startsValue (s : Lexing) : Bool :=
  isGap (s.cursor.ahead? 1) ||
    match s.brackets with
    | .mapping :: _ => !(s.tokens.back? == some .value && s.outer.any Option.isSome)
    | _ => false

/-- Whether a plain scalar starts with the given character at the place. -/
def startsPlain (s : Lexing) (c : Char) : Bool :=
  let next := s.cursor.ahead? 1
  !isIndicator c || (c == '-' && !isGap next) ||
    (c == ':' && s.inFlow && !(next.any isBlank)) || (!s.inFlow && (c == '?' || c == ':') && !isGap next)

/-- Adds the token that starts with the given character. -/
def token (s : Lexing) (c : Char) : Except Fault Lexing :=
  let atStart := s.cursor.column == 0
  let gapBehind := isGap (s.cursor.ahead? 1)
  if c = '%' && atStart then s.directive
  else if atStart && isMarker '-' s.cursor.rest then s.marker .documentStart
  else if atStart && isMarker '.' s.cursor.rest then s.marker .documentEnd
  else if c = '[' then s.openBracket .sequence
  else if c = '\x7b' then s.openBracket .mapping
  else if c = ']' then s.closeBracket .sequence
  else if c = '\x7d' then s.closeBracket .mapping
  else if c = ',' then s.comma
  else if c = '-' && gapBehind then s.entry
  else if c = '?' && (s.inFlow || gapBehind) then s.key
  else if c = ':' && s.startsValue then s.value
  else if c = '*' then s.aliased
  else if c = '&' then s.anchor
  else if c = '!' then s.tag
  else if c = '|' && !s.inFlow then s.block false
  else if c = '>' && !s.inFlow then s.block true
  else if c = '\'' then s.quoted .single
  else if c = '"' then s.quoted .double
  else if s.startsPlain c then s.plain
  else .error .token

/-- All tokens from a place on.  Every token but the ends of block collections takes a character at
least, so the number of characters left bounds the number of steps. -/
def finish : (budget : Nat) → Lexing → Except Fault (Array Token)
  | 0, _ => .error .token
  | budget + 1, s => do
    let s ← s.skipBlanks.dropStale
    match s.cursor.peek? with
    | none => return (← s.unwindAll.dropCandidate).tokens
    | some c => ((s.unwind s.cursor.column).token c).bind (finish budget)

end Lexing

/-- The tokens of a text. -/
def tokens (s : Text) : Except Fault (List Token) :=
  if s.all isAllowed then
    (Lexing.finish (s.length + 1) { cursor := { rest := s } }).map Array.toList
  else .error .character

end PageAssembly.Yaml
