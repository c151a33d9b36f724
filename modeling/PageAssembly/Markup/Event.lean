import PageAssembly.Markup.Token

/-!
# Events of the markup reader

The reader reports pieces of text and finished markup tokens in the order of the input.  Pieces of
text that follow one another make one text token, also across the boundaries of the input's chunks.

## Main definitions

* `Markup.Event` — a piece of text or a token
* `Markup.collect` — the tokens of a list of events, with the text that may still grow
* `Markup.flush` — the token of the text that is left at the end
-/

namespace PageAssembly.Markup

/-- What the reader reports. -/
inductive Event where
  /-- A piece of text. -/
  | text (piece : Text)
  /-- A token that is not text. -/
  | mark (token : Token)
  deriving DecidableEq, Repr

/-- The token of the text collected so far, if there is any.  The text is held in reverse. -/
def flush (buffered : Text) : List Token :=
  if buffered.isEmpty then [] else [{ kind := .text, text := buffered.reverse }]

/-- The work behind `collect`; `done` is in reverse. -/
def collectFrom (done : List Token) (buffered : Text) : List Event → List Token × Text
  | [] => (done.reverse, buffered)
  | .text piece :: events => collectFrom done (piece.reverse ++ buffered) events
  | .mark token :: events => collectFrom (token :: (flush buffered ++ done)) [] events

/-- The tokens that the events finish, and the text behind the last of them, both texts in
reverse. -/
def collect (buffered : Text) (events : List Event) : List Token × Text :=
  collectFrom [] buffered events

theorem collectFrom_eq (done : List Token) (buffered : Text) (events : List Event) :
    collectFrom done buffered events =
      (done.reverse ++ (collect buffered events).1, (collect buffered events).2) := by
  induction events generalizing done buffered with
  | nil => simp [collect, collectFrom]
  | cons event events ih =>
    cases event with
    | text piece =>
      rw [collect, collectFrom, collectFrom, ih, ih []]
      simp
    | mark token =>
      rw [collect, collectFrom, collectFrom, ih, ih (token :: (flush buffered ++ []))]
      simp

@[simp] theorem collect_nil (buffered : Text) : collect buffered [] = ([], buffered) := rfl

@[simp] theorem collect_text (buffered piece : Text) (events : List Event) :
    collect buffered (.text piece :: events) = collect (piece.reverse ++ buffered) events := rfl

theorem reverse_flush (buffered : Text) : (flush buffered).reverse = flush buffered := by
  rw [flush]
  split <;> rfl

@[simp] theorem collect_mark (buffered : Text) (token : Token) (events : List Event) :
    collect buffered (.mark token :: events) =
      (flush buffered ++ token :: (collect [] events).1, (collect [] events).2) := by
  rw [collect, collectFrom, collectFrom_eq]
  simp [reverse_flush]

/-- Events may be collected in two parts. -/
theorem collect_append (buffered : Text) (first second : List Event) :
    collect buffered (first ++ second) =
      ((collect buffered first).1 ++ (collect (collect buffered first).2 second).1,
        (collect (collect buffered first).2 second).2) := by
  induction first generalizing buffered with
  | nil => simp
  | cons event first ih => cases event <;> simp [ih]

end PageAssembly.Markup
