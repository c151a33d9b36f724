import PageAssembly.Markup.Declaration

/-!
# Comments and declarations

The reader reports the inside of a comment or a declaration in fixed delimiters.  They are those of
the source in the plainest spelling of a construct only.

## Main definitions

* `Markup.Construct` — the spellings that are reported as a comment or a declaration
* `Construct.written`, `Construct.token` — the source of a construct and what is reported for it
* `Construct.IsPlain` — the spellings that are reported as they are written

## Main statements

* `Construct.text_token_eq_written_iff` — the plain spellings are those whose token is their source
-/

namespace PageAssembly.Markup

/-! ## Constructs -/

/-- **What is reported as a comment or a declaration.** -/
inductive Construct where
  /-- A comment, `<!--inner--gap>`. -/
  | comment (inner gap : Text)
  /-- A declaration that is taken for a comment, `<!inner>`. -/
  | looseDeclaration (inner : Text)
  /-- An end tag without a name, which is taken for a comment, `</inner>`. -/
  | looseEndTag (inner : Text)
  /-- A processing instruction, `<?inner>`. -/
  | instruction (inner : Text)
  /-- A document type, `<!word inner>` with `doctype` in any case for the word. -/
  | doctype (word inner : Text)
  /-- A conditional section, `<![inner]gap>`. -/
  | conditional (inner gap : Text)
  /-- A marked section, `<![inner]gap]gap>`. -/
  | standard (inner gap gap' : Text)
  deriving DecidableEq, Repr

/-- The token is a comment or a declaration. -/
def Token.IsConstruct (token : Token) : Prop := token.kind = .comment ∨ token.kind = .declaration

namespace Construct

/-- The construct in the source. -/
def written : Construct → Text
  | comment inner gap => ['<', '!', '-', '-'] ++ inner ++ (['-', '-'] ++ (gap ++ ['>']))
  | looseDeclaration inner => ['<', '!'] ++ inner ++ ['>']
  | looseEndTag inner => ['<', '/'] ++ inner ++ ['>']
  | instruction inner => ['<', '?'] ++ inner ++ ['>']
  | doctype word inner => ['<', '!'] ++ word ++ inner ++ ['>']
  | conditional inner gap => ['<', '!', '['] ++ inner ++ ([']'] ++ (gap ++ ['>']))
  | standard inner gap gap' =>
    ['<', '!', '['] ++ inner ++ ([']'] ++ (gap ++ ([']'] ++ (gap' ++ ['>']))))

/-- The token that is reported for the construct. -/
def token : Construct → Token
  | comment inner _ => commentToken inner
  | looseDeclaration inner => commentToken inner
  | looseEndTag inner => commentToken inner
  | instruction inner => declarationToken (['<', '?'] ++ inner ++ ['>'])
  | doctype word inner => declarationToken (['<', '!'] ++ word ++ inner ++ ['>'])
  | conditional inner _ => declarationToken (['<', '!', '['] ++ inner ++ [']', '>'])
  | standard inner _ _ => declarationToken (['<', '!', '['] ++ inner ++ [']', '>'])

/-- **The spellings that are reported as they are written**: a comment or a conditional section
without blanks before its `>`, an instruction, and a document type. -/
def IsPlain : Construct → Prop
  | comment _ gap => gap = []
  | looseDeclaration _ => False
  | looseEndTag _ => False
  | instruction _ => True
  | doctype _ _ => True
  | conditional _ gap => gap = []
  | standard _ _ _ => False

/-- What holds of the pieces of a construct that is read: a construct that runs to the first `>` has
none inside, gaps are blank, and the word of a document type is `doctype`. -/
def WellFormed : Construct → Prop
  | comment _ gap => gap.isAllBlank = true
  | looseDeclaration inner => '>' ∉ inner
  | looseEndTag inner => '>' ∉ inner
  | instruction inner => '>' ∉ inner
  | doctype word inner =>
    word.map Char.toLower = ['d', 'o', 'c', 't', 'y', 'p', 'e'] ∧ '>' ∉ inner
  | conditional _ gap => gap.isAllBlank = true
  | standard _ gap gap' => gap.isAllBlank = true ∧ gap'.isAllBlank = true

theorem isConstruct_token (c : Construct) : c.token.IsConstruct := by
  cases c with
  | comment => exact Or.inl rfl
  | looseDeclaration => exact Or.inl rfl
  | looseEndTag => exact Or.inl rfl
  | instruction => exact Or.inr rfl
  | doctype => exact Or.inr rfl
  | conditional => exact Or.inr rfl
  | standard => exact Or.inr rfl

/-- **The plain spellings are those whose token is their source**: every other one is longer or
shorter than its token. -/
theorem text_token_eq_written_iff (c : Construct) : c.token.text = c.written ↔ c.IsPlain := by
  constructor
  · intro h
    have length := congrArg List.length h
    cases c with
    | comment inner gap =>
        simp only [token, commentToken, written, List.length_append, List.length_cons,
          List.length_nil] at length
        exact List.eq_nil_of_length_eq_zero (by omega)
    | looseDeclaration inner =>
        simp only [token, commentToken, written, List.length_append, List.length_cons,
          List.length_nil] at length
        omega
    | looseEndTag inner =>
        simp only [token, commentToken, written, List.length_append, List.length_cons,
          List.length_nil] at length
        omega
    | instruction inner => trivial
    | doctype word inner => trivial
    | conditional inner gap =>
        simp only [token, declarationToken, written, List.length_append, List.length_cons,
          List.length_nil] at length
        exact List.eq_nil_of_length_eq_zero (by omega)
    | standard inner gap gap' =>
        simp only [token, declarationToken, written, List.length_append, List.length_cons,
          List.length_nil] at length
        omega
  · intro plain
    cases c with
    | comment inner gap =>
        cases plain
        rfl
    | looseDeclaration inner => cases plain
    | looseEndTag inner => cases plain
    | instruction inner => rfl
    | doctype word inner => rfl
    | conditional inner gap =>
        cases plain
        rfl
    | standard inner gap gap' => cases plain

end Construct

end PageAssembly.Markup
