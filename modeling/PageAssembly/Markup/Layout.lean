import PageAssembly.Markup.Printer
import PageAssembly.Markup.Tokenize

/-!
# Indented markup

Markup laid out with one token per line, indented by the tags around it.

## Main definitions

* `Markup.Layout` — the text written and how the input ended
* `Markup.layout` — the layout of markup that arrives in chunks
* `Markup.indented` — the layout of markup that is known at once
-/

namespace PageAssembly.Markup

/-- What laying out an input gives. -/
structure Layout where
  /-- The text written, up to the chunk that could not be read. -/
  text : Text
  /-- The tags left open, innermost first, or what stopped the reader. -/
  ending : Except Malformed (List Text)

/-- The layout of the tokens of an input. -/
def Layout.ofTokens (read : Tokens) : Layout :=
  let (text, printer) := Printer.print {} read.tokens
  { text, ending := match read.failure with
      | none => .ok printer.unclosed
      | some e => .error e }

/-- The layout of markup that arrives in chunks. -/
def layout (chunks : List Text) : Layout := .ofTokens (tokenize chunks)

/-- The layout of what is known when the input breaks off behind the given chunks. -/
def layoutBroken (chunks : List Text) : Layout := .ofTokens (tokenizeBroken chunks)

/-- The layout of markup that is known at once. -/
def indented (markup : Text) : Except Malformed Text :=
  (layout [markup]).ending.map fun _ => (layout [markup]).text

end PageAssembly.Markup
