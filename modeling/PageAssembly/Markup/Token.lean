import PageAssembly.Text.Blank

/-!
# Markup tokens

A token is one unit of markup together with the tag name it refers to, if any.

## Main definitions

* `Markup.Kind` — the categories of markup
* `Markup.Token` — a category, the markup as printed, and a tag name
-/

namespace PageAssembly.Markup

/-- Categories of markup. -/
inductive Kind where
  /-- A tag that opens an element. -/
  | startTag
  /-- A tag that closes an element. -/
  | endTag
  /-- A tag of an element without content. -/
  | selfClosing
  /-- Text between tags. -/
  | text
  /-- A comment. -/
  | comment
  /-- A document type, a processing instruction or a marked section. -/
  | declaration
  deriving DecidableEq, Repr

/-- One unit of markup. -/
structure Token where
  /-- The category. -/
  kind : Kind
  /-- The markup of the token. -/
  text : Text
  /-- The tag name that the token refers to. -/
  tag : Option Text := none
  deriving DecidableEq, Repr

end PageAssembly.Markup
