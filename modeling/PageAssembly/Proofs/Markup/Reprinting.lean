import PageAssembly.Proofs.Markup.Portion

/-!
# Comments and declarations as they are reported

The reader reports the inside of a comment or a declaration in fixed delimiters, which are not
always those of the source.

## Main definitions

* `Markup.Framed` — comments and declarations among some events are reported for a construct
* `Markup.Reprinted` — they are reported as they are written

## Main statements

* `Markup.move_framed` — what a move reports as a comment or a declaration is a construct that the
  move takes
* `Markup.reprinted_iff_isPlain` — of chunked input, exactly the plain constructs are reported as
  they are written
-/

namespace PageAssembly.Markup

/-! ## Moves -/

/-- **A comment or a declaration among some events** is reported alone, and for a construct that
stands before the rest. -/
def Framed (s rest : Text) (events : List Event) : Prop :=
  ∀ token, .mark token ∈ events → token.IsConstruct →
    ∃ c : Construct, c.WellFormed ∧ s = c.written ++ rest ∧ events = [.mark c.token]

/-- **What a move reports as a comment or a declaration** is a construct that the move takes. -/
theorem move_framed {closing : Bool} {raw : Option RawElement} {s : Text} {m : Move}
    (h : move closing raw s = .ok m) : Framed s m.rest m.events := by
  obtain ⟨source, split, report⟩ := move_report h
  generalize m.events = events at report ⊢
  rintro token member construct
  cases report with
  | text _ => simp at member
  | construct c formed => exact ⟨c, formed, split, rfl⟩
  | startTag kind _ =>
      cases List.mem_singleton.mp member
      rcases kind with kind | kind <;> simp [Token.IsConstruct, kind] at construct
  | endTag _ _ _ =>
      have token := List.mem_append.mp member
      simp at token
      subst token
      simp [Token.IsConstruct, endTagToken] at construct

/-! ## Inputs -/

/-- What is left at the end of the input holds no token. -/
theorem Place.not_mem_remainder (p : Place) (token : Token) : .mark token ∉ p.remainder.events := by
  rw [remainder]
  simp only
  split <;> simp

/-- **Comments and declarations are reported as they are written**: each of them is the piece of the
source that the reader took for it. -/
def Reprinted (chunks : List Text) : Prop :=
  ∀ found, portions chunks = .ok found → ∀ portion ∈ found, ∀ token, .mark token ∈ portion.events →
    token.IsConstruct → token.text = portion.source

/-- **Exactly the plain constructs are reported as they are written.**  The tokens of an input that
is read to its end are those of portions that make up the input, a portion for which a comment or a
declaration is reported is a construct and reports its token, and all of them are reported as they
are written if and only if all of them are plain. -/
theorem reprinted_iff_isPlain {chunks : List Text} (success : (tokenize chunks).failure = none) :
    ∃ found, portions chunks = .ok found ∧
      found.flatMap Portion.source = chunks.flatten ∧
      (tokenize chunks).tokens = tokensFrom [] (found.flatMap Portion.symbols) ∧
      (∀ portion ∈ found, ∀ token, .mark token ∈ portion.events → token.IsConstruct →
        ∃ c : Construct, c.WellFormed ∧ token = c.token ∧ portion = ⟨c.written, [.mark c.token]⟩) ∧
      (Reprinted chunks ↔ ∀ portion ∈ found, ∀ c : Construct,
        portion = ⟨c.written, [.mark c.token]⟩ → c.IsPlain) := by
  obtain ⟨found, taken⟩ := exists_portions_of_tokenize success
  have framed : ∀ portion ∈ found, ∀ token, .mark token ∈ portion.events → token.IsConstruct →
      ∃ c : Construct, c.WellFormed ∧ token = c.token ∧
        portion = ⟨c.written, [.mark c.token]⟩ := by
    intro portion member token reported construct
    rcases exists_move_of_mem_portions taken member with
      ⟨closing, raw, s, m, moved, rfl⟩ | ⟨q, rfl⟩
    · obtain ⟨c, formed, split, events⟩ := move_framed moved token reported construct
      rw [Move.portion, events, List.mem_singleton] at reported
      cases reported
      refine ⟨c, formed, rfl, ?_⟩
      rw [← Move.source_portion split, ← events]
      rfl
    · exact absurd reported (q.not_mem_remainder token)
  refine ⟨found, taken, flatMap_source_portions taken,
    congrArg Tokens.tokens (tokenize_of_portions taken), framed, ?_⟩
  constructor
  · intro reprinted portion member c same
    subst same
    exact c.text_token_eq_written_iff.mp
      (reprinted found taken _ member c.token List.mem_cons_self c.isConstruct_token)
  · intro plain found' taken' portion member token reported construct
    rw [taken] at taken'
    cases taken'
    obtain ⟨c, -, rfl, rfl⟩ := framed portion member token reported construct
    exact c.text_token_eq_written_iff.mpr (plain _ member c rfl)

/-- A comment that is cut by a chunk's end and a marked section, with the portions they make up. -/
theorem reprinted_example : (tokenize ["<!--a-".toList, "-><![CDATA[x]]>".toList]).failure = none ∧
    ∃ found, portions ["<!--a-".toList, "-><![CDATA[x]]>".toList] = .ok found ∧
      found.flatMap Portion.source = "<!--a--><![CDATA[x]]>".toList := by
  have success : (tokenize ["<!--a-".toList, "-><![CDATA[x]]>".toList]).failure = none := by
    decide +kernel
  obtain ⟨found, taken, source, -⟩ := reprinted_iff_isPlain success
  exact ⟨success, found, taken, source⟩

/-- **Some constructs are reported in another spelling**: a marked section loses a bracket, a
comment the blanks before its `>`, and a declaration that is taken for a comment gets other
delimiters. -/
theorem constructs_respelled : ¬ Reprinted ["<![CDATA[x]]>".toList] ∧
    ¬ Reprinted ["<!-- a -- >".toList] ∧ ¬ Reprinted ["<!x>".toList] := by
  have respelled (source : Text) (token : Token)
      (taken : portions [source] = .ok [⟨source, [.mark token]⟩, ⟨[], [.text []]⟩])
      (construct : token.IsConstruct) (differ : token.text ≠ source) : ¬ Reprinted [source] := by
    intro reprinted
    exact differ (reprinted _ taken _ List.mem_cons_self token List.mem_cons_self construct)
  refine ⟨?_, ?_, ?_⟩
  · exact respelled _ (declarationToken "<![CDATA[x]>".toList) (by decide +kernel) (Or.inr rfl)
      (by decide)
  · exact respelled _ (commentToken " a ".toList) (by decide +kernel) (Or.inl rfl)
      (by decide)
  · exact respelled _ (commentToken "x".toList) (by decide +kernel) (Or.inl rfl)
      (by decide)

end PageAssembly.Markup
