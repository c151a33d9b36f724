import PageAssembly.Text.Search
import PageAssembly.Text.PrintableRanges

/-!
# Quoted texts

Texts inside messages are quoted so that their ends and their invisible characters show.

## Main definitions

* `Text.quoted` — the text between quotes, escaped where needed
* `Text.quotedList` — quoted texts between square brackets

## Design notes

Single quotes are used unless the text holds a single quote and no double quote.  Inside, the
backslash, the quote in use, line feed, carriage return and tab have two-character escapes; any
other character that is not printable is written by its code point with two, four or eight
hexadecimal digits.
-/

namespace PageAssembly.Text

/-- The hexadecimal digits of `n`, at least `width` of them. -/
def hex (width n : Nat) : Text :=
  let digits := Nat.toDigits 16 n
  List.replicate (width - digits.length) '0' ++ digits

/-- One character inside quotes of the given kind. -/
def quotedChar (quote c : Char) : Text :=
  if c = quote ∨ c = '\\' then ['\\', c]
  else if c = '\n' then ['\\', 'n']
  else if c = '\r' then ['\\', 'r']
  else if c = '\t' then ['\\', 't']
  else if isPrintable c then [c]
  else if c.toNat < 0x100 then '\\' :: 'x' :: hex 2 c.toNat
  else if c.toNat < 0x10000 then '\\' :: 'u' :: hex 4 c.toNat
  else '\\' :: 'U' :: hex 8 c.toNat

/-- The quotes that a text is put between. -/
def quoteFor (s : Text) : Char :=
  if s.elem '\'' && !s.elem '"' then '"' else '\''

/-- The text between quotes. -/
def quoted (s : Text) : Text :=
  let quote := quoteFor s
  quote :: s.flatMap (quotedChar quote) ++ [quote]

/-- Quoted texts between square brackets. -/
def quotedList (ts : List Text) : Text :=
  '[' :: [',', ' '].intercalate (ts.map quoted) ++ [']']

end PageAssembly.Text
