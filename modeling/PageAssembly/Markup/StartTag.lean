import PageAssembly.Text.Run
import PageAssembly.Text.Search

/-!
# Start tags

The tolerant grammar of a start tag: a name, and attributes separated by blanks and slashes.

## Main definitions

* `Markup.Attribute` — a name, an equals sign with its blanks, a value, and the gap behind it
* `Markup.StartTag` — a tag as written, part by part, up to its ending
* `StartTag.read` — the tag at the start of a text
* `StartTag.Ending` — what stands where the grammar stops

## Main statements

* `StartTag.read_written` — the parts of a tag spell what was read

## Design notes

A tag is kept part by part, so its spelling is the concatenation of the parts and nothing about it
is computed twice.  The reader never fails: where the grammar stops, the tag has one of four
endings, and only the caller decides what an ending means.

An attribute may start only behind a quote, a blank or a slash.  A quoted value needs its closing
quote somewhere in the text.  Without one the value is taken back: if blanks stand before the
quote, the value is empty and the quote starts the next attribute; if several equals signs stand
before it, the value starts with the last of them and runs to a blank or to the end of the tag;
otherwise the attribute has no value.
-/

namespace PageAssembly.Markup

/-- The characters that end a tag name. -/
def endsTagName (c : Char) : Bool :=
  c == '\t' || c == '\n' || c == '\r' || c == '\x0c' || c == ' ' || c == '/' || c == '>' ||
    c == '\x00'

/-- The characters that start a quoted value. -/
def isQuote (c : Char) : Bool := c == '\'' || c == '"'

/-! ## Gaps -/

/-- The work behind `readGap`; `taken` is in reverse. -/
def readGapFrom (taken : Text) : Text → Text × Text
  | [] => (taken.reverse, [])
  | c :: s =>
    if Text.isBlank c || (c == '/' && s.head? != some '>') then readGapFrom (c :: taken) s
    else (taken.reverse, c :: s)

/-- The blanks and slashes at the start of the text, and the rest.  A slash right before `>` is
left, for it ends the tag. -/
def readGap (s : Text) : Text × Text := readGapFrom [] s

theorem readGapFrom_written (taken s : Text) :
    (readGapFrom taken s).1 ++ (readGapFrom taken s).2 = taken.reverse ++ s := by
  induction s generalizing taken with
  | nil => simp [readGapFrom]
  | cons c s ih =>
    rw [readGapFrom]
    split
    · rw [ih]; simp
    · rfl

theorem readGap_written (s : Text) : (readGap s).1 ++ (readGap s).2 = s := by
  simpa [readGap] using readGapFrom_written [] s

/-! ## Attributes -/

/-- An attribute as written. -/
structure Attribute where
  /-- The name. -/
  name : Text
  /-- The equals signs and the blanks around them; empty when there is no value. -/
  sign : Text
  /-- The value, with its quotes. -/
  value : Text
  /-- What separates the attribute from what follows. -/
  gap : Text

/-- The spelling of an attribute. -/
def Attribute.written (a : Attribute) : Text := a.name ++ a.sign ++ a.value ++ a.gap

/-- The characters of a value without quotes. -/
def isBare (c : Char) : Bool := !(c == '>' || Text.isBlank c)

/-- The quoted value at the start of the text, quotes included, and the rest. -/
def readQuoted? : Text → Option (Text × Text)
  | [] => none
  | q :: body =>
    if isQuote q then (Text.through? q body).map fun (inner, rest) => (q :: inner, rest) else none

theorem readQuoted?_written {s value rest : Text} (h : readQuoted? s = some (value, rest)) :
    value ++ rest = s := by
  cases s with
  | nil => simp [readQuoted?] at h
  | cons q body =>
    rw [readQuoted?] at h
    split at h
    · simp only [Option.map_eq_some_iff, Prod.mk.injEq] at h
      obtain ⟨⟨inner, tail⟩, ht, rfl, rfl⟩ := h
      simp [Text.through?_eq_some ht]
    · simp at h

/-- Whether the text starts with a quote. -/
def startsQuoted (s : Text) : Bool := s.head?.any isQuote

/-- The sign and the value at the start of the text, and the rest. -/
def readValue (s : Text) : Text × Text × Text :=
  let before := Text.run Text.isBlank s
  let equals := Text.run (· == '=') before.2
  let behind := Text.run Text.isBlank equals.2
  if equals.1.isEmpty then ([], [], s)
  else
    match readQuoted? behind.2 with
    | some (value, rest) => (before.1 ++ equals.1 ++ behind.1, value, rest)
    | none =>
      let bare := Text.run isBare behind.2
      if !startsQuoted behind.2 then (before.1 ++ equals.1 ++ behind.1, bare.1, bare.2)
      else if !behind.1.isEmpty then (before.1 ++ equals.1 ++ behind.1, [], behind.2)
      else if equals.1.length = 1 then ([], [], s)
      else (before.1 ++ equals.1.dropLast, '=' :: bare.1, bare.2)

/-- A run of equals signs ends with one. -/
theorem dropLast_run_equals {s : Text} (h : (Text.run (· == '=') s).1 ≠ []) :
    (Text.run (· == '=') s).1.dropLast ++ ['='] = (Text.run (· == '=') s).1 := by
  have hl : (Text.run (· == '=') s).1.getLast h = '=' := by
    have := List.all_takeWhile (p := (· == '=')) (l := s)
    rw [List.all_eq_true] at this
    simpa using this _ (List.getLast_mem h)
  conv => rhs; rw [← List.dropLast_concat_getLast h, hl]

theorem readValue_written (s : Text) :
    (readValue s).1 ++ ((readValue s).2.1 ++ (readValue s).2.2) = s := by
  have hb := Text.run_written Text.isBlank s
  have he := Text.run_written (· == '=') (Text.run Text.isBlank s).2
  have hd := Text.run_written Text.isBlank (Text.run (· == '=') (Text.run Text.isBlank s).2).2
  generalize hbe : Text.run Text.isBlank s = before at *
  generalize hee : Text.run (· == '=') before.2 = equals at *
  generalize hde : Text.run Text.isBlank equals.2 = behind at *
  simp only [readValue, hbe, hee, hde]
  have hr := Text.run_written isBare behind.2
  split
  · simp
  · next hne =>
    split
    · next value rest hq =>
      simp [readQuoted?_written hq, hd, he, hb]
    · split
      · simp [hr, hd, he, hb]
      · split
        · simp [hd, he, hb]
        · split
          · simp
          · next hblank _ =>
            have hempty : behind.1 = [] := by simpa using hblank
            have hlast : equals.1.dropLast ++ ['='] = equals.1 := by
              rw [← hee]; exact dropLast_run_equals (by rw [hee]; simpa using hne)
            calc before.1 ++ equals.1.dropLast ++ ('=' :: (Text.run isBare behind.2).1 ++
                  (Text.run isBare behind.2).2)
                = before.1 ++ ((equals.1.dropLast ++ ['=']) ++
                    ((Text.run isBare behind.2).1 ++ (Text.run isBare behind.2).2)) := by simp
              _ = s := by rw [hlast, hr, ← hb, ← he, ← hd, hempty]; simp

/-- Whether an attribute may start behind the character. -/
def precedesAttribute (c : Char) : Bool := isQuote c || Text.isBlank c || c == '/'

/-- Whether an attribute may start with the character. -/
def startsAttribute (c : Char) : Bool := !(Text.isBlank c || c == '/' || c == '>')

/-- The characters of an attribute name behind the first one. -/
def isAttributeName (c : Char) : Bool := startsAttribute c && c != '='

/-- The attribute at the start of the text, which stands behind `previous`, and the rest. -/
def readAttribute? (previous : Char) : Text → Option (Attribute × Text)
  | [] => none
  | c :: s =>
    if precedesAttribute previous && startsAttribute c then
      let name := Text.run isAttributeName s
      let value := readValue name.2
      let gap := readGap value.2.2
      some (⟨c :: name.1, value.1, value.2.1, gap.1⟩, gap.2)
    else none

theorem readAttribute?_written {previous : Char} {s rest : Text} {a : Attribute}
    (h : readAttribute? previous s = some (a, rest)) : a.written ++ rest = s := by
  cases s with
  | nil => simp [readAttribute?] at h
  | cons c s =>
    rw [readAttribute?] at h
    split at h
    · simp only [Option.some.injEq, Prod.mk.injEq] at h
      obtain ⟨rfl, rfl⟩ := h
      simp [Attribute.written, readGap_written, readValue_written, Text.run_written]
    · simp at h

theorem readAttribute?_name {previous : Char} {s rest : Text} {a : Attribute}
    (h : readAttribute? previous s = some (a, rest)) : a.name ≠ [] := by
  cases s with
  | nil => simp [readAttribute?] at h
  | cons c s =>
    rw [readAttribute?] at h
    split at h
    · simp only [Option.some.injEq, Prod.mk.injEq] at h
      obtain ⟨rfl, rfl⟩ := h
      simp
    · simp at h

theorem length_lt_of_readAttribute? {previous : Char} {s rest : Text} {a : Attribute}
    (h : readAttribute? previous s = some (a, rest)) : rest.length < s.length := by
  have hn := List.length_pos_iff.2 (readAttribute?_name h)
  rw [← readAttribute?_written h, Attribute.written]
  simp only [List.length_append]
  omega

/-- The work behind `readAttributes`; `done` is in reverse. -/
def readAttributesFrom (done : List Attribute) (previous : Char) (s : Text) :
    List Attribute × Text :=
  match _h : readAttribute? previous s with
  | none => (done.reverse, s)
  | some (a, rest) => readAttributesFrom (a :: done) (a.written.getLastD previous) rest
termination_by s.length
decreasing_by exact length_lt_of_readAttribute? _h

/-- The attributes at the start of the text, which stands behind `previous`, and the rest. -/
def readAttributes (previous : Char) (s : Text) : List Attribute × Text :=
  readAttributesFrom [] previous s

theorem readAttributesFrom_written (done : List Attribute) (previous : Char) (s : Text) :
    (readAttributesFrom done previous s).1.flatMap Attribute.written ++
        (readAttributesFrom done previous s).2 =
      done.reverse.flatMap Attribute.written ++ s := by
  fun_induction readAttributesFrom done previous s with
  | case1 => rfl
  | case2 done previous s a rest h ih =>
    rw [ih, ← readAttribute?_written h]
    simp

/-! ## Tags -/

/-- A start tag as written, without what ends it. -/
structure StartTag where
  /-- The name. -/
  name : Text
  /-- The blanks and slashes behind the name. -/
  gap : Text
  /-- The attributes. -/
  attributes : List Attribute

namespace StartTag

/-- The spelling of a tag up to what ends it. -/
def written (tag : StartTag) : Text :=
  '<' :: tag.name ++ tag.gap ++ tag.attributes.flatMap Attribute.written

/-- The tag whose name starts the text, and the rest; the text stands behind a `<`. -/
def read (s : Text) : StartTag × Text :=
  let name := Text.run (fun c => !endsTagName c) s
  let gap := readGap name.2
  let attributes := readAttributes ((name.1 ++ gap.1).getLastD '<') gap.2
  (⟨name.1, gap.1, attributes.1⟩, attributes.2)

theorem read_written (s : Text) : (read s).1.written ++ (read s).2 = '<' :: s := by
  simp only [read, written, List.cons_append, List.append_assoc, readAttributes]
  rw [readAttributesFrom_written]
  simp [readGap_written, Text.run_written]

/-- What stands where the grammar of a start tag stops. -/
inductive Ending where
  /-- The end of a tag, and the rest. -/
  | plain (rest : Text)
  /-- The end of a self-closing tag, and the rest. -/
  | selfClosing (rest : Text)
  /-- The tag is cut off. -/
  | unfinished
  /-- A character that no tag can go on with. -/
  | broken
  deriving DecidableEq, Repr

/-- The ending that the rest behind a tag shows.  An equals sign whose value lacks its closing
quote may still get it. -/
def ending : Text → Ending
  | [] => .unfinished
  | '>' :: rest => .plain rest
  | '/' :: '>' :: rest => .selfClosing rest
  | c :: _ => if c == '=' || c == '/' || Text.isLetter c then .unfinished else .broken

end StartTag

end PageAssembly.Markup
