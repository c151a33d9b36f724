import PageAssembly.Text.Run

/-!
# Characters of YAML

## Main definitions

* `Yaml.isAllowed` — the characters that may stand in a document at all
* `Yaml.isGap`, `Yaml.isLineEnd`, `Yaml.isBreak` — what may follow an indicator, and ends of lines
* `Yaml.isAnchorCharacter`, `Yaml.isTagCharacter` — names of anchors and tags

## Design notes

A place in a text is looked at through `Option Char`, where `none` is the end of the text.  Reading
has turned every newline into a line feed, so there is no carriage return.  The three other line
ends of the Unicode standard count as breaks inside scalars, but only the next-line character among
them ends a line elsewhere.
-/

namespace PageAssembly.Yaml

/-- The character that may stand at the start of a text to tell its encoding. -/
def byteOrderMark : Char := '\uFEFF'

/-- The characters that may stand in a document. -/
def isAllowed (c : Char) : Bool :=
  let n := c.toNat
  n == 9 || n == 10 || n == 13 || (0x20 ≤ n && n ≤ 0x7E) || n == 0x85 || (0xA0 ≤ n && n ≤ 0xFFFD) ||
    0x10000 ≤ n

/-- Whether a line of a comment or a block scalar ends here. -/
def isLineEnd : Option Char → Bool
  | none => true
  | some c => c == '\n' || c == '\x85'

/-- Whether an indicator may end here: at a blank, at the end of a line or at the end of the
text. -/
def isGap : Option Char → Bool
  | none => true
  | some c => c == ' ' || c == '\t' || isLineEnd (some c)

/-- The characters that break a line. -/
def isBreak (c : Char) : Bool := c == '\n' || c == '\x85' || c == '\u2028' || c == '\u2029'

/-- The characters that separate words inside a quoted scalar. -/
def isBlank (c : Char) : Bool := c == ' ' || c == '\t'

/-- Whether a tag or a header may end here. -/
def endsTag : Option Char → Bool
  | none => true
  | some c => c == ' ' || isBreak c

/-- The indicators that structure flow collections. -/
def isFlowIndicator (c : Char) : Bool := ",[]\x7b\x7d".toList.elem c

/-- The characters of an anchor's name. -/
def isAnchorCharacter (c : Char) : Bool :=
  let n := c.toNat
  ((0x21 ≤ n && n ≤ 0x7E) || 0xA0 ≤ n) && c != byteOrderMark && !isFlowIndicator c

/-- Whether an anchor's name may end here. -/
def endsAnchor : Option Char → Bool
  | none => true
  | some c => isBlank c || isBreak c || "?:,[]\x7b\x7d%@\x60".toList.elem c

/-- The characters of a handle's or a directive's name, without those of a class of their own. -/
def isWordCharacter (c : Char) : Bool := Text.isLetter c || Text.isDigit c || c == '-' || c == '_'

/-- The characters of a tag behind its handle; the per cent sign starts an escape. -/
def isTagCharacter (c : Char) : Bool :=
  Text.isLetter c || Text.isDigit c || "-;/?:@&=+$,_.!~*'()[]%#".toList.elem c

/-- The characters that cannot start a plain scalar on their own. -/
def isIndicator (c : Char) : Bool :=
  isBlank c || isBreak c || "-?:,[]\x7b\x7d#&*!|>'\"%@\x60".toList.elem c

/-- A document marker at the start of a text: three equal characters with a gap behind them. -/
def isMarker (c : Char) : Text → Bool
  | a :: b :: d :: rest => a == c && b == c && d == c && isGap rest.head?
  | _ => false

/-- Whether a text starts with a marker that ends or starts a document. -/
def isAnyMarker (s : Text) : Bool := isMarker '-' s || isMarker '.' s

/-- A marker is recognised by its three characters and what follows them. -/
theorem isMarker_iff (c : Char) (s : Text) :
    isMarker c s = true ↔ ∃ rest, s = [c, c, c] ++ rest ∧ isGap rest.head? = true := by
  constructor
  · intro h
    match s, h with
    | a :: b :: d :: rest, h =>
      simp only [isMarker, Bool.and_eq_true, beq_iff_eq] at h
      obtain ⟨⟨⟨rfl, rfl⟩, rfl⟩, hg⟩ := h
      exact ⟨rest, rfl, hg⟩
  · rintro ⟨rest, rfl, hg⟩
    simp [isMarker, hg]

end PageAssembly.Yaml
