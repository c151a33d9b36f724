import PageAssembly.Markup.OpenTags
import PageAssembly.Markup.Token

/-!
# Printing one token per line

The printer writes every token that is not blank on a line of its own, trimmed, behind one
indentation for each open tag.

## Main definitions

* `Markup.Printer` — an indentation and the open tags
* `Printer.feed` — what one token writes and the printer after it
* `Printer.print` — what a list of tokens writes

## Design notes

A start tag is written before its tag is opened; an end tag that names the innermost open tag is
written after that tag is closed, so that both stand at the same depth.  Every other token, an end
tag that names another tag among them, is written at the current depth and leaves the open tags as
they are.  Mismatched markup therefore never stops the printer.
-/

namespace PageAssembly.Markup

/-- A printer between two tokens. -/
structure Printer where
  /-- The text written once for each open tag. -/
  indent : Text := [' ', ' ', ' ', ' ']
  /-- The tags open at this point. -/
  openTags : OpenTags := .empty
  deriving DecidableEq, Repr

namespace Printer

/-- The number of indentations of the next line. -/
def depth (p : Printer) : Nat := p.openTags.depth

/-- A line with the given body at the current depth. -/
def line (p : Printer) (body : Text) : Text :=
  (List.replicate p.depth p.indent).flatten ++ body ++ ['\n']

/-- The printer with the tag opened. -/
def opening (p : Printer) (tag : Text) : Printer := { p with openTags := p.openTags.push tag }

/-- The printer with the innermost tag closed. -/
def closing (p : Printer) : Printer := { p with openTags := p.openTags.pop }

/-- Whether the token closes the innermost open tag. -/
def closes (p : Printer) (token : Token) : Bool :=
  token.kind = .endTag && token.tag.isSome && token.tag = p.openTags.peek?

/-- What one token writes, and the printer after it. -/
def feed (p : Printer) (token : Token) : Text × Printer :=
  let body := token.text.trim
  if body.isEmpty then ([], p)
  else if p.closes token then (p.closing.line body, p.closing)
  else
    match token.kind, token.tag with
    | .startTag, some tag => (p.line body, p.opening tag)
    | _, _ => (p.line body, p)

/-- The work behind `print`; `done` holds the lines written so far in reverse. -/
def printFrom (done : List Text) (p : Printer) : List Token → List Text × Printer
  | [] => (done.reverse, p)
  | token :: tokens =>
    let (written, q) := p.feed token
    printFrom (written :: done) q tokens

/-- What a list of tokens writes, and the printer after it. -/
def print (p : Printer) (tokens : List Token) : Text × Printer :=
  let (lines, q) := printFrom [] p tokens
  (lines.flatten, q)

/-- The tags still open, innermost first. -/
def unclosed (p : Printer) : List Text := p.openTags.toList

/-! ## Lemmas -/

theorem feed_blank {p : Printer} {token : Token} (h : token.text.trim = []) :
    p.feed token = ([], p) := by
  simp [feed, h]

@[simp] theorem depth_opening (p : Printer) (tag : Text) :
    (p.opening tag).depth = p.depth + 1 := rfl

@[simp] theorem indent_opening (p : Printer) (tag : Text) :
    (p.opening tag).indent = p.indent := rfl

@[simp] theorem indent_closing (p : Printer) : p.closing.indent = p.indent := rfl

theorem printFrom_eq (done : List Text) (p : Printer) (tokens : List Token) :
    printFrom done p tokens =
      (done.reverse ++ (printFrom [] p tokens).1, (printFrom [] p tokens).2) := by
  induction tokens generalizing done p with
  | nil => simp [printFrom]
  | cons token tokens ih =>
    simp only [printFrom]
    rw [ih, ih [(p.feed token).1]]
    simp

@[simp] theorem print_nil (p : Printer) : p.print [] = ([], p) := rfl

theorem print_cons (p : Printer) (token : Token) (tokens : List Token) :
    p.print (token :: tokens) =
      ((p.feed token).1 ++ ((p.feed token).2.print tokens).1,
        ((p.feed token).2.print tokens).2) := by
  simp only [print, printFrom]
  rw [printFrom_eq]
  simp

theorem print_append (p : Printer) (first second : List Token) :
    p.print (first ++ second) =
      ((p.print first).1 ++ ((p.print first).2.print second).1,
        ((p.print first).2.print second).2) := by
  induction first generalizing p with
  | nil => simp
  | cons token first ih => simp [print_cons, ih]

end Printer

end PageAssembly.Markup
