import PageAssembly.Yaml.Fault
import PageAssembly.Yaml.LineFold

/-!
# Quoted scalars

## Main definitions

* `Yaml.Quote` — the two kinds of quotes
* `Yaml.escaped?` — what an escape of one letter stands for
* `Cursor.quotedScalar` — the quoted scalar that comes next

## Design notes

Between single quotes a quote is written twice and nothing else is special.  Between double quotes
a backslash starts an escape: a letter, a code point in hexadecimal digits, or a line break that is
left out.  Line breaks between quotes are folded, with the blanks around them.
-/

namespace PageAssembly.Yaml

/-- The kinds of quotes. -/
inductive Quote where
  /-- An apostrophe. -/
  | single
  /-- A quotation mark. -/
  | double
  deriving DecidableEq, Repr

/-- The character that a quote is written with. -/
def Quote.char : Quote → Char
  | .single => '\''
  | .double => '"'

/-- The characters that escapes of one letter stand for. -/
def escapes : List (Char × Char) := [
  ('0', '\x00'), ('a', '\x07'), ('b', '\x08'), ('t', '\t'), ('\t', '\t'), ('n', '\n'),
  ('v', '\x0B'), ('f', '\x0C'), ('r', '\r'), ('e', '\x1B'), (' ', ' '), ('"', '"'), ('/', '/'),
  ('\\', '\\'), ('N', '\x85'), ('_', '\xA0'), ('L', '\u2028'), ('P', '\u2029')]

/-- The number of hexadecimal digits behind the letter of an escape. -/
def escapeDigits : List (Char × Nat) := [('x', 2), ('u', 4), ('U', 8)]

/-- The number that hexadecimal digits stand for. -/
def hexValue (digits : Text) : Nat :=
  digits.foldl (fun n c =>
    16 * n + (if Text.isDigit c then c.toNat - 48 else c.toLower.toNat - 87)) 0

/-- The character with the given number of hexadecimal digits for its code point. -/
def codePoint (count : Nat) (s : Text) : Except Fault Char :=
  let digits := s.take count
  if digits.length = count ∧ digits.all Text.isHexDigit then
    let code := hexValue digits
    if code.isValidChar then .ok (Char.ofNat code) else .error .escape
  else .error .escape

/-- What stands between two words of a quoted scalar. -/
def Cursor.quotedGap (c : Cursor) : Except Fault (Text × Cursor) :=
  let blanks := c.skipWhile isBlank
  if blanks.rest.isEmpty then .error .unclosedQuote
  else if blanks.lineBreak = [] then .ok (c.run isBlank, blanks)
  else
    let more := blanks.breakLine.breaks isBlank
    if more.atMarker then .error .unclosedQuote
    else .ok (folded blanks.lineBreak more.text, more.behind)

/-- What an escape stands for; the place is behind its backslash. -/
def Cursor.escape (c : Cursor) : Except Fault (Text × Cursor) :=
  match c.rest with
  | [] => .error .escape
  | letter :: rest =>
    match escapes.lookup letter, escapeDigits.lookup letter with
    | some char, _ => .ok ([char], c.step)
    | none, some count => (codePoint count rest).map fun char => ([char], c.skip (count + 1))
    | none, none =>
      if isBreak letter then
        let more := c.breakLine.breaks isBlank
        if more.atMarker then .error .unclosedQuote else .ok (more.text, more.behind)
      else .error .escape

/-- The next part of a quoted scalar and the place behind it; nothing at the closing quote. -/
def Cursor.quotedPart (quote : Quote) (c : Cursor) : Except Fault (Option (Text × Cursor)) :=
  match c.rest with
  | [] => .error .unclosedQuote
  | char :: rest =>
    if char = quote.char then
      if quote = .single ∧ rest.head? = some '\'' then .ok (some (['\''], c.skip 2)) else .ok none
    else if quote = .double ∧ char = '\\' then c.step.escape.map some
    else if isBlank char || isBreak char then c.quotedGap.map some
    else .ok (some ([char], c.step))

theorem exists_of_map_eq_ok {ε α β : Type} {f : α → β} {x : Except ε α} {b : β}
    (h : x.map f = .ok b) : ∃ a, x = .ok a ∧ f a = b := by
  cases x with
  | error => cases h
  | ok a => exact ⟨a, rfl, by simpa [Except.map] using h⟩

theorem length_rest_quotedGap_lt {c d : Cursor} {text : Text} {char : Char} {rest : Text}
    (h : c.quotedGap = .ok (text, d)) (hc : c.rest = char :: rest)
    (hs : isBlank char = true ∨ isBreak char = true) : d.rest.length < c.rest.length := by
  unfold Cursor.quotedGap at h
  simp only at h
  split at h
  · cases h
  · split at h
    · next hb =>
      cases h
      rw [Cursor.rest_skipWhile, hc]
      by_cases hblank : isBlank char = true
      · have := (List.dropWhile_suffix isBlank (l := rest)).length_le
        simp [hblank]
        omega
      · have hbreak := hs.resolve_left hblank
        have hrun : c.skipWhile isBlank = c := by
          simp [Cursor.skipWhile, Cursor.run, hc, hblank, Cursor.skip]
        rw [hrun] at hb
        simp [Cursor.lineBreak, Cursor.peek?, hc, hbreak] at hb
    · next hb =>
      split at h
      · cases h
      · cases h
        exact Nat.lt_of_le_of_lt (Cursor.length_rest_breaks_le _ _)
          (Cursor.length_rest_nextLine_lt hb)

theorem length_rest_escape_le {c d : Cursor} {text : Text} (h : c.escape = .ok (text, d)) :
    d.rest.length ≤ c.rest.length := by
  unfold Cursor.escape at h
  split at h
  · cases h
  · split at h
    · cases h
      simp
    · obtain ⟨_, _, hp⟩ := exists_of_map_eq_ok h
      cases hp
      simp
    · split at h
      · simp only at h
        split at h
        · cases h
        · cases h
          exact Nat.le_trans (Cursor.length_rest_breaks_le _ _) (Cursor.length_rest_breakLine_le c)
      · cases h

/-- Every part of a quoted scalar takes a character at least. -/
theorem length_rest_quotedPart_lt {quote : Quote} {c d : Cursor} {text : Text}
    (h : c.quotedPart quote = .ok (some (text, d))) : d.rest.length < c.rest.length := by
  unfold Cursor.quotedPart at h
  split at h
  · cases h
  · next char rest hc =>
    have hstep : c.step.rest.length < c.rest.length := by simp [hc]
    split at h
    · split at h
      · cases h
        simp only [Cursor.rest_skip, hc, List.length_drop, List.length_cons]
        omega
      · cases h
    · split at h
      · obtain ⟨_, he, hp⟩ := exists_of_map_eq_ok h
        cases hp
        exact Nat.lt_of_le_of_lt (length_rest_escape_le he) hstep
      · split at h
        · next hs =>
          obtain ⟨_, hg, hp⟩ := exists_of_map_eq_ok h
          cases hp
          exact length_rest_quotedGap_lt hg hc (by simpa using hs)
        · cases h
          exact hstep

/-- The rest of a quoted scalar, behind the parts in `done`, which are in reverse. -/
def Cursor.quotedFrom (quote : Quote) (done : List Text) (c : Cursor) :
    Except Fault (Text × Cursor) :=
  match h : c.quotedPart quote with
  | .error fault => .error fault
  | .ok none => .ok (done.reverse.flatten, c.step)
  | .ok (some (text, behind)) =>
    have := length_rest_quotedPart_lt h
    behind.quotedFrom quote (text :: done)
termination_by c.rest.length

/-- The quoted scalar that comes next, and the place behind it. -/
def Cursor.quotedScalar (quote : Quote) (c : Cursor) : Except Fault (Text × Cursor) :=
  c.step.quotedFrom quote []

end PageAssembly.Yaml
