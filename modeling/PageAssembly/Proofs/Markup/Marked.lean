import PageAssembly.Proofs.Markup.Reading

/-!
# Tokens determine symbols

The reader reports no token of its own that is text.  The tokens of an input therefore tell the
symbols they were made from.

## Main definitions

* `Markup.Marked` — symbols without text tokens
* `Token.symbols` — the symbols that a token was made from

## Main statements

* `Markup.move_marked` — what a move reports as a token is not text
* `Markup.tokensFrom_injective` — inputs with the same tokens have the same symbols
-/

namespace PageAssembly.Markup

/-- No token among the symbols is text. -/
def Marked (symbols : List Symbol) : Prop := ∀ token, .token token ∈ symbols → token.kind ≠ .text

/-! ## Moves -/

theorem marked_chars (s : Text) : Marked (chars s) := by
  intro token h
  simp [chars] at h

theorem Marked.append {first later : List Symbol} (h : Marked first) (h' : Marked later) :
    Marked (first ++ later) := by
  intro token member
  exact (List.mem_append.mp member).elim (h token) (h' token)

theorem marked_mark {token : Token} (h : token.kind ≠ .text) : Marked (spelling [.mark token]) := by
  intro token' member
  rw [spelling_mark, spelling_nil, List.mem_singleton] at member
  cases member
  exact h

/-- Pieces of text spell their characters. -/
theorem spelling_map_text (pieces : List Text) :
    spelling (pieces.map .text) = chars pieces.flatten := by
  induction pieces with
  | nil => rfl
  | cons piece pieces ih =>
      rw [List.map_cons, spelling_text, ih, List.flatten_cons, chars_append]

theorem Construct.kind_token_ne_text (c : Construct) : c.token.kind ≠ .text := by
  rcases c.isConstruct_token with kind | kind <;> simp [kind]

/-- No report holds a token that is text. -/
theorem Report.marked {raw : Option RawElement} {s source : Text} {events : List Event}
    (report : Report raw s source events) : Marked (spelling events) := by
  cases report with
  | @text source pieces _ =>
      rw [spelling_map_text]
      exact marked_chars _
  | construct c _ => exact marked_mark c.kind_token_ne_text
  | startTag kind _ => exact marked_mark (by rcases kind with kind | kind <;> simp [kind])
  | @endTag before inner name pieces _ _ _ =>
      rw [spelling_append, spelling_map_text]
      exact (marked_chars _).append (marked_mark (by simp [endTagToken]))

/-- **What a move reports as a token is not text.** -/
theorem move_marked {closing : Bool} {raw : Option RawElement} {s : Text} {m : Move}
    (h : move closing raw s = .ok m) : Marked (spelling m.events) := by
  obtain ⟨source, -, report⟩ := move_report h
  exact report.marked

/-! ## Inputs -/

theorem Pass.after_marked {first : List Event} {q : Pass} (h : Marked (spelling first))
    (h' : Marked (spelling q.events)) : Marked (spelling (Pass.after first q).events) := by
  rw [Pass.after, spelling_append]
  exact h.append h'

theorem pass_marked {closing : Bool} {raw : Option RawElement} {s : Text} {q : Pass}
    (h : pass closing raw s = .ok q) : Marked (spelling q.events) := by
  generalize size : s.length = n
  induction n using Nat.strongRecOn generalizing raw s q with
  | ind n ih =>
      subst size
      by_cases filled : s = []
      · rw [filled, pass_nil] at h
        cases h
        exact marked_chars []
      · cases moved : move closing raw s with
        | error e => rw [pass_of_error filled moved] at h; cases h
        | ok m =>
            cases m with
            | halt events rest =>
                rw [pass_of_halt filled moved] at h
                cases h
                exact move_marked moved
            | advance events rest raw' =>
                rw [pass_of_advance filled moved] at h
                obtain ⟨q', later, rfl⟩ := exists_of_map_ok h
                exact Pass.after_marked (move_marked moved)
                  (ih _ (move_length_lt moved) later rfl)

theorem Place.pass_marked {closing : Bool} {p : Place} {read : List Symbol × Place}
    (h : p.pass closing = .ok read) : Marked read.1 := by
  rw [pass] at h
  obtain ⟨q, passed, rfl⟩ := exists_of_map_ok h
  exact Markup.pass_marked passed

theorem Place.finish_marked {p : Place} {symbols : List Symbol} (h : p.finish = .ok symbols) :
    Marked symbols := by
  rw [finish] at h
  obtain ⟨read, passed, rfl⟩ := exists_of_map_ok h
  refine (pass_marked passed).append ?_
  rw [leftover]
  split
  · exact marked_chars _
  · exact marked_chars []

theorem readFrom_marked {p : Place} {chunks : List Text} {symbols : List Symbol}
    (h : readFrom p chunks = .ok symbols) : Marked symbols := by
  induction chunks generalizing p symbols with
  | nil =>
      rw [readFrom_nil] at h
      exact Place.finish_marked h
  | cons chunk chunks ih =>
      rw [readFrom_cons] at h
      obtain ⟨read, passed, h⟩ := exists_of_bind_ok h
      obtain ⟨later, onward, rfl⟩ := exists_of_map_ok h
      exact (Place.pass_marked passed).append (ih onward)

/-- The symbols that a token was made from. -/
def Token.symbols (token : Token) : List Symbol :=
  if token.kind = .text then chars token.text else [.token token]

theorem symbols_flush (buffered : Text) :
    (flush buffered).flatMap Token.symbols = chars buffered.reverse := by
  rw [flush]
  split
  · next empty =>
      rw [List.isEmpty_iff.mp empty]
      rfl
  · simp [Token.symbols]

theorem symbols_tokensFrom {symbols : List Symbol} (marked : Marked symbols) (buffered : Text) :
    (tokensFrom buffered symbols).flatMap Token.symbols = chars buffered.reverse ++ symbols := by
  induction symbols generalizing buffered with
  | nil => rw [tokensFrom, symbols_flush, List.append_nil]
  | cons symbol symbols ih =>
      have later : Marked symbols := fun token h => marked token (List.mem_cons_of_mem _ h)
      cases symbol with
      | char c =>
          rw [tokensFrom, ih later]
          simp
      | token token =>
          have kind := marked token List.mem_cons_self
          rw [tokensFrom, List.flatMap_append, List.flatMap_cons, symbols_flush, ih later,
            Token.symbols, if_neg kind]
          rfl

/-- **Inputs with the same tokens have the same symbols.** -/
theorem tokensFrom_injective {first later : List Symbol} (h : Marked first) (h' : Marked later)
    (same : tokensFrom [] first = tokensFrom [] later) : first = later := by
  have spelled := symbols_tokensFrom h []
  rw [same, symbols_tokensFrom h' []] at spelled
  exact spelled.symm

end PageAssembly.Markup
