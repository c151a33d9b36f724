import PageAssembly.Markup.Reader

/-!
# Tokens of chunked markup

Tokens of markup that arrives in chunks.  The tokens of a chunk become known together, when the
whole chunk has been read, so a chunk that cannot be read gives none.

## Main definitions

* `Markup.Tokenizer` — a reader and the text that may still grow
* `Tokenizer.feed`, `Tokenizer.close` — the tokens of one more chunk, and of the end
* `Markup.tokenize` — the tokens of a list of chunks and what stopped the reader, if anything did
-/

namespace PageAssembly.Markup

/-- A tokenizer between two chunks. -/
structure Tokenizer where
  /-- The reader of the markup. -/
  reader : Reader := {}
  /-- The text behind the last token, in reverse. -/
  buffered : Text := []
  deriving DecidableEq, Repr

namespace Tokenizer

/-- The tokens that one more chunk finishes. -/
def feed (t : Tokenizer) (chunk : Text) : Except Malformed (List Token × Tokenizer) :=
  (t.reader.feed chunk).map fun (events, reader) =>
    let (tokens, buffered) := collect t.buffered events
    (tokens, { reader, buffered })

/-- The tokens at the end of the input. -/
def close (t : Tokenizer) : Except Malformed (List Token) :=
  t.reader.close.map fun events =>
    let (tokens, buffered) := collect t.buffered events
    tokens ++ flush buffered

end Tokenizer

/-- The tokens of an input, and what stopped the reader. -/
structure Tokens where
  /-- The tokens known before the reader stopped. -/
  tokens : List Token
  /-- What stopped the reader before the end of the input. -/
  failure : Option Malformed := none
  deriving DecidableEq, Repr

/-- The work behind `tokenize`; `done` holds the tokens of each chunk in reverse. -/
def tokenizeFrom (complete : Bool) (done : List (List Token)) (t : Tokenizer) :
    List Text → Tokens
  | [] =>
    if complete then
      match t.close with
      | .ok tokens => { tokens := (tokens :: done).reverse.flatten }
      | .error e => { tokens := done.reverse.flatten, failure := some e }
    else { tokens := done.reverse.flatten }
  | chunk :: chunks =>
    match t.feed chunk with
    | .ok (tokens, t) => tokenizeFrom complete (tokens :: done) t chunks
    | .error e => { tokens := done.reverse.flatten, failure := some e }

/-- The tokens of markup that arrives in chunks. -/
def tokenize (chunks : List Text) : Tokens := tokenizeFrom true [] {} chunks

/-- The tokens known when the input breaks off behind the given chunks. -/
def tokenizeBroken (chunks : List Text) : Tokens := tokenizeFrom false [] {} chunks

end PageAssembly.Markup
