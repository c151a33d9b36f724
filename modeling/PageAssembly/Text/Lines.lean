import PageAssembly.Text.Utf8

/-!
# Lines

## Main definitions

* `Text.splitLines` — a document cut behind every line end
* `Text.unifyNewlines` — every kind of newline as a line feed
* `Text.newlineLines` — a text cut behind every line feed
* `Stored` — a file as read line by line or in chunks

## Design notes

A document in memory has the line ends of the Unicode standard: line feed, carriage return, both
together, vertical tab, form feed, three separators, next line, and the line and paragraph
separators.  A file that is read line by line has line feeds only, because reading turns the three
newlines into one.

A file is decoded in blocks.  A fault inside a small file is therefore found before its first line
is delivered.  A character cut off by the end of the file is found only when more is asked for, so
the finished lines come first and the fault counts from the cut.
-/

namespace PageAssembly

namespace Text

/-- The characters that end a line of a document on their own. -/
def endsLine (c : Char) : Bool :=
  let n := c.toNat
  (10 ≤ n && n ≤ 13) || (28 ≤ n && n ≤ 30) || n == 0x85 || n == 0x2028 || n == 0x2029

/-- The work behind `splitLines`: `done` holds the finished lines and `seen` the current one, both
in reverse. -/
def splitLinesFrom (done : List Text) (seen : Text) : Text → List Text
  | [] => (if seen.isEmpty then done else seen.reverse :: done).reverse
  | '\r' :: '\n' :: s => splitLinesFrom (('\n' :: '\r' :: seen).reverse :: done) [] s
  | c :: s =>
    if endsLine c then splitLinesFrom ((c :: seen).reverse :: done) [] s
    else splitLinesFrom done (c :: seen) s

/-- The lines of a document, each with its line end. -/
def splitLines (s : Text) : List Text := splitLinesFrom [] [] s

theorem flatten_splitLinesFrom (done : List Text) (seen s : Text) :
    (splitLinesFrom done seen s).flatten = done.reverse.flatten ++ seen.reverse ++ s := by
  fun_induction splitLinesFrom done seen s with
  | case1 done seen =>
    by_cases h : seen.isEmpty
    · simp only [List.isEmpty_iff] at h
      simp [h]
    · simp [h]
  | case2 done seen s ih => rw [ih]; simp
  | case3 done seen c s _ hc ih => rw [ih]; simp
  | case4 done seen c s _ hc ih => rw [ih]; simp

/-- The lines of a document spell the document. -/
theorem flatten_splitLines (s : Text) : (splitLines s).flatten = s := by
  simpa [splitLines] using flatten_splitLinesFrom [] [] s

/-- The work behind `unifyNewlines`; `done` is in reverse. -/
def unifyNewlinesFrom (done : Text) : Text → Text
  | [] => done.reverse
  | '\r' :: '\n' :: s => unifyNewlinesFrom ('\n' :: done) s
  | c :: s => unifyNewlinesFrom ((if c = '\r' then '\n' else c) :: done) s

/-- The text with every newline written as a line feed. -/
def unifyNewlines (s : Text) : Text := unifyNewlinesFrom [] s

theorem length_unifyNewlinesFrom_le (done s : Text) :
    (unifyNewlinesFrom done s).length ≤ done.length + s.length := by
  fun_induction unifyNewlinesFrom done s with
  | case1 => simp
  | case2 done s ih =>
    simp only [List.length_cons] at ih ⊢
    omega
  | case3 done c s _ ih =>
    simp only [List.length_cons] at ih ⊢
    omega

theorem length_unifyNewlines_le (s : Text) : (unifyNewlines s).length ≤ s.length := by
  simpa [unifyNewlines] using length_unifyNewlinesFrom_le [] s

/-- The work behind `newlineLines`: the finished lines and the current one, both in reverse. -/
def newlineLinesFrom (done : List Text) (seen : Text) : Text → List Text × Text
  | [] => (done.reverse, seen.reverse)
  | c :: s =>
    if c = '\n' then newlineLinesFrom ((c :: seen).reverse :: done) [] s
    else newlineLinesFrom done (c :: seen) s

/-- The lines that a line feed ends, and the text behind the last of them. -/
def newlineLines (s : Text) : List Text × Text := newlineLinesFrom [] [] s

theorem flatten_newlineLinesFrom (done : List Text) (seen s : Text) :
    (newlineLinesFrom done seen s).1.flatten ++ (newlineLinesFrom done seen s).2 =
      done.reverse.flatten ++ seen.reverse ++ s := by
  fun_induction newlineLinesFrom done seen s with
  | case1 => simp
  | case2 done seen s ih => rw [ih]; simp
  | case3 done seen c s hc ih => rw [ih]; simp

/-- The lines that a line feed ends and the text behind them spell the text. -/
theorem flatten_newlineLines (s : Text) :
    (newlineLines s).1.flatten ++ (newlineLines s).2 = s := by
  simpa [newlineLines] using flatten_newlineLinesFrom [] [] s

end Text

/-! ## Stored texts -/

/-- A stored text as it is delivered: what could be delivered before a fault, and the fault. -/
structure Stored (α : Type) where
  /-- What is delivered. -/
  delivered : α
  /-- The fault behind it. -/
  fault : Option Utf8.Fault := none

namespace Stored

/-- The lines that a finished or unfinished stored text delivers. -/
def linesOf (finished : Bool) (s : Text) : List Text :=
  let (lines, rest) := Text.newlineLines s
  if finished && !rest.isEmpty then lines ++ [rest] else lines

theorem length_linesOf_le (finished : Bool) (s : Text) :
    (linesOf finished s).flatten.length ≤ s.length := by
  have h := congrArg List.length (Text.flatten_newlineLines s)
  rw [List.length_append] at h
  simp only [linesOf]
  split
  · rw [List.flatten_append, List.length_append]
    simpa using Nat.le_of_eq h
  · omega

/-- The text that waits for a line feed when the last character is a carriage return. -/
def holdReturn (s : Text) : Text := if s.getLast? = some '\r' then s.dropLast else s

theorem length_holdReturn_le (s : Text) : (holdReturn s).length ≤ s.length := by
  rw [holdReturn]
  split <;> simp

/-- A fault as it is found by a reader that has delivered what stands before a cut. -/
def fromCut (f : Utf8.Fault) : Utf8.Fault :=
  if f.reason = .unexpectedEnd then { f with position := 0 } else f

/-- The lines of stored bytes. -/
def lines (bytes : List UInt8) : Stored (List Text) :=
  match Utf8.decode bytes with
  | (s, none) => { delivered := linesOf true (Text.unifyNewlines s) }
  | (s, some f) =>
    { delivered :=
        if f.reason = .unexpectedEnd then linesOf false (Text.unifyNewlines (holdReturn s)) else []
      fault := some (fromCut f) }

/-- The lines of stored bytes hold no more characters than there are bytes. -/
theorem length_delivered_lines_le (bytes : List UInt8) :
    (lines bytes).delivered.flatten.length ≤ bytes.length := by
  have h := Utf8.length_decode_le bytes
  rw [lines]
  split
  · next s hs =>
    rw [hs] at h
    calc (linesOf true (Text.unifyNewlines s)).flatten.length
        ≤ (Text.unifyNewlines s).length := length_linesOf_le true _
      _ ≤ s.length := Text.length_unifyNewlines_le s
      _ ≤ bytes.length := h
  · next s f hs =>
    rw [hs] at h
    simp only
    split
    · calc (linesOf false (Text.unifyNewlines (holdReturn s))).flatten.length
          ≤ (Text.unifyNewlines (holdReturn s)).length := length_linesOf_le false _
        _ ≤ (holdReturn s).length := Text.length_unifyNewlines_le _
        _ ≤ s.length := length_holdReturn_le s
        _ ≤ bytes.length := h
    · simp

/-- The text of stored bytes that are read in one go. -/
def whole (bytes : List UInt8) : Except Utf8.Fault Text :=
  match Utf8.decode bytes with
  | (s, none) => .ok (Text.unifyNewlines s)
  | (_, some f) => .error f

/-- The text of stored bytes that are read in large chunks. -/
def streamed (bytes : List UInt8) : Except Utf8.Fault Text :=
  match whole bytes with
  | .ok s => .ok s
  | .error f => .error (fromCut f)

end Stored

end PageAssembly
