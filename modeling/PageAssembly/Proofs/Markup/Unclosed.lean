import PageAssembly.Proofs.Markup.Arrival
import PageAssembly.Proofs.Markup.Indentation

/-!
# Elements that are left open

The text of an element that the input leaves open is reported and laid out, however the input is
cut, unless the element is raw.

## Main definitions

* `Forest.Nested` — forests whose tags and texts can be told apart from what follows
* `Forest.symbols` — the symbols of a forest
* `Markup.shownText` — what an open element shows of its text

## Main statements

* `Forest.Nested.readsOver` — a nested forest is read as its symbols, however it is cut
* `Forest.Nested.print_symbols` — and the printer comes back to where it was
* `Markup.tokenize_unclosed` — the tokens and the layout of an element that is left open

### Why the printer comes back

The end tag of an element that never has content closes nothing, for no start tag of that name is
ever opened.  So the induction is over printers in which no such name is open.
-/

namespace PageAssembly.Markup

namespace Forest

/-- **Properly nested markup.**  A text starts neither markup nor a reference, and may be blank or
stand beside another one; the names are tag names, and the content of an element is not raw. -/
def Nested : Forest → Prop
  | .nil => True
  | .text content rest => '<' ∉ content ∧ '&' ∉ content ∧ rest.Nested
  | .void name rest => name ∈ voidElements ∧ rest.Nested
  | .selfClosed name rest => IsTagName name ∧ rest.Nested
  | .element name children rest =>
    (IsTagName name ∧ name ≠ RawElement.script.name ∧ name ≠ RawElement.style.name) ∧
      children.Nested ∧ rest.Nested

instance decidableNested : DecidablePred Nested
  | .nil => isTrue True.intro
  | .text content rest =>
    have := decidableNested rest
    inferInstanceAs (Decidable ('<' ∉ content ∧ '&' ∉ content ∧ rest.Nested))
  | .void name rest =>
    have := decidableNested rest
    inferInstanceAs (Decidable (name ∈ voidElements ∧ rest.Nested))
  | .selfClosed name rest =>
    have := decidableNested rest
    inferInstanceAs (Decidable (IsTagName name ∧ rest.Nested))
  | .element name children rest =>
    have := decidableNested children
    have := decidableNested rest
    inferInstanceAs (Decidable ((IsTagName name ∧ name ≠ RawElement.script.name ∧
      name ≠ RawElement.style.name) ∧ children.Nested ∧ rest.Nested))

/-- The symbols of a forest: the characters of its texts, and its tags. -/
def symbols : Forest → List Symbol
  | .nil => []
  | .text content rest => chars content ++ rest.symbols
  | .void name rest =>
    .token { kind := .selfClosing, text := startTag name, tag := some name } :: rest.symbols
  | .selfClosed name rest =>
    .token { kind := .selfClosing, text := selfClosedTag name, tag := some name } :: rest.symbols
  | .element name children rest =>
    .token { kind := startKind name false, text := startTag name, tag := some name } ::
      (children.symbols ++
        .token { kind := .endTag, text := endTag name, tag := some name } :: rest.symbols)

end Forest

/-! ## Reading -/

/-- **Properly nested markup is read as its symbols**, however it is cut. -/
theorem Forest.Nested.readsOver {f : Forest} (nested : f.Nested) :
    ReadsOver f.written f.symbols none := by
  induction f with
  | nil => exact readsOver_nil
  | text content rest ih =>
      obtain ⟨unopened, unreferenced, nested⟩ := nested
      exact (readsOver_chars (isSpecial_of_not_mem unopened unreferenced)).append (ih nested)
  | void name rest ih =>
      obtain ⟨void, nested⟩ := nested
      have small := isTagName_of_void void
      have tag := readsOver_startTag small.letters small.1
      rw [small.lower, startKind, if_pos (by simp [void]), ofName?_of_void void] at tag
      exact tag.append (ih nested)
  | selfClosed name rest ih =>
      obtain ⟨small, nested⟩ := nested
      have tag := readsOver_selfClosedTag small.letters small.1
      rw [small.lower] at tag
      exact tag.append (ih nested)
  | element name children rest ihc ih =>
      obtain ⟨⟨small, notScript, notStyle⟩, nestedChildren, nested⟩ := nested
      have cooked : RawElement.ofName? name = none := by
        rw [RawElement.ofName?, if_neg notScript, if_neg notStyle]
      have opened := readsOver_startTag small.letters small.1
      have closed := readsOver_endTag small.letters small.1
      rw [small.lower, cooked] at opened
      rw [small.lower] at closed
      have whole := opened.append ((ihc nestedChildren).append (closed.append (ih nested)))
      simpa [Forest.written, Forest.symbols] using whole

/-! ## Printing -/

/-- An end tag that does not name the innermost element closes nothing. -/
theorem Printer.feed_endTag_of_ne {p : Printer} {name : Text}
    (other : p.openTags.peek? ≠ some name) :
    p.feed { kind := .endTag, text := endTag name, tag := some name } =
      (p.line (endTag name), p) := by
  have filled : endTag name ≠ [] := List.cons_ne_nil _ _
  simp [feed, trim_endTag, filled, closes, Ne.symm other]

/-- Tokens are told apart at a tag. -/
theorem tokensFrom_append_token (buffered : Text) (symbols : List Symbol) (token : Token)
    (later : List Symbol) : tokensFrom buffered (symbols ++ .token token :: later) =
      tokensFrom buffered symbols ++ token :: tokensFrom [] later := by
  induction symbols generalizing buffered with
  | nil => rfl
  | cons symbol symbols ih =>
      cases symbol with
      | char c => exact ih (c :: buffered)
      | token token' =>
          rw [List.cons_append, tokensFrom, tokensFrom, ih, List.append_assoc]
          rfl

/-- **The printer comes back** behind properly nested markup, when no element that never has content
is open. -/
theorem Forest.Nested.print_symbols {f : Forest} (nested : f.Nested) (p : Printer)
    (buffered : Text) (cooked : ∀ tag ∈ p.unclosed, tag ∉ voidElements) :
    (p.print (tokensFrom buffered f.symbols)).2 = p := by
  induction f generalizing p buffered with
  | nil => rw [symbols, tokensFrom, Printer.print_flush]
  | text content rest ih =>
      rw [symbols, tokensFrom_chars]
      exact ih nested.2.2 p _ cooked
  | void name rest ih =>
      rw [symbols, print_token,
        Printer.feed_selfClosing (trim_startTag name) (List.cons_ne_nil _ _)]
      exact ih nested.2 p [] cooked
  | selfClosed name rest ih =>
      rw [symbols, print_token,
        Printer.feed_selfClosing (trim_selfClosedTag name) (List.cons_ne_nil _ _)]
      exact ih nested.2 p [] cooked
  | element name children rest ihc ih =>
      obtain ⟨-, nestedChildren, nested⟩ := nested
      rw [symbols, print_token, tokensFrom_append_token, Printer.print_append, Printer.print_cons]
      by_cases void : name ∈ voidElements
      · have other : p.openTags.peek? ≠ some name :=
          fun top => cooked name (List.mem_of_head? top) void
        rw [startKind, if_pos (by simp [void]),
          Printer.feed_selfClosing (trim_startTag name) (List.cons_ne_nil _ _),
          ihc nestedChildren p [] cooked, Printer.feed_endTag_of_ne other]
        exact ih nested p [] cooked
      · have deeper : ∀ tag ∈ (p.opening name).unclosed, tag ∉ voidElements := by
          intro tag inside
          rcases List.mem_cons.mp inside with rfl | inside
          · exact void
          · exact cooked tag inside
        rw [startKind, if_neg (by simp [void]), Printer.feed_startTag,
          ihc nestedChildren (p.opening name) [] deeper, Printer.feed_endTag]
        exact ih nested p [] cooked

/-! ## The element that is left open -/

theorem readFrom_of_flatten_eq_nil {chunks : List Text} (empty : chunks.flatten = []) :
    readFrom ⟨none, []⟩ chunks = .ok [] := by
  induction chunks with
  | nil =>
      rw [readFrom_nil, Place.finish, Place.pass, pass_nil]
      rfl
  | cons chunk chunks ih =>
      obtain ⟨rfl, empty⟩ := List.append_eq_nil_iff.mp empty
      have waits : (⟨none, []⟩ : Place).Waits := rfl
      rw [readFrom_pause_of_waits waits, ih empty]

/-- A text that a reader goes over is read as its symbols. -/
theorem ReadsOver.readFrom_eq {s : Text} {symbols : List Symbol} (reads : ReadsOver s symbols none)
    {chunks : List Text} (whole : chunks.flatten = s) :
    readFrom ⟨none, []⟩ chunks = .ok symbols := by
  obtain ⟨chunks', empty, read⟩ := reads [] chunks (by rw [whole, List.append_nil])
  rw [read, readFrom_of_flatten_eq_nil empty, Except.map, List.append_nil]

/-- The start tag of an element that may have content. -/
def openedToken (name : Text) : Token :=
  { kind := .startTag, text := startTag name, tag := some name.lower }

/-- **What an open element shows of its text**: the text, unless the element is raw. -/
def shownText (name body : Text) : List Token :=
  if RawElement.ofName? name.lower = none then [{ kind := .text, text := body }] else []

variable {f : Forest} {name body : Text}

variable (name) in
/-- What is read behind the start tag of an open element is what it shows. -/
theorem exists_readFrom_shownText (filled : body ≠ []) (unopened : '<' ∉ body)
    (unreferenced : '&' ∉ body) {chunks : List Text} (whole : chunks.flatten = body) :
    ∃ symbols, readFrom ⟨RawElement.ofName? name.lower, []⟩ chunks = .ok symbols ∧
      tokensFrom [] symbols = shownText name body := by
  rw [shownText]
  cases RawElement.ofName? name.lower with
  | some element =>
      refine ⟨[], readFrom_raw chunks ?_, rfl⟩
      rw [whole]
      exact unopened
  | none =>
      have reads := readsOver_chars (isSpecial_of_not_mem unopened unreferenced)
      exact ⟨chars body, reads.readFrom_eq whole, tokensFrom_of_ne_nil filled⟩

theorem print_shownText (p : Printer) (visible : body.isAllBlank = false)
    (indent : p.indent = indentation) : p.print (shownText name body) =
      ((shownText name body).flatMap fun token => lineAt p.depth token.text.trim, p) := by
  rw [shownText]
  split
  · rw [Printer.print_cons, Printer.feed_text (Text.trim_ne_nil visible), Printer.line_eq indent]
    simp
  · rfl

/-- **An element that is left open.**  Behind properly nested markup stands the start tag of an
element with some text, and the input ends.  However it is cut, its tokens end with the start tag
and with what the element shows of its text, each of the two is a line behind the layout of the
markup in front, and the element is the one that is reported as open. -/
theorem tokenize_unclosed (nested : f.Nested) (filled : name ≠ [])
    (letters : ∀ c ∈ name, Text.isLetter c = true) (content : name.lower ∉ voidElements)
    (unopened : '<' ∉ body) (unreferenced : '&' ∉ body) (visible : body.isAllBlank = false)
    {chunks : List Text} (whole : chunks.flatten = f.written ++ (startTag name ++ body)) :
    tokenize chunks =
        { tokens := (tokenize [f.written]).tokens ++ openedToken name :: shownText name body } ∧
      layout chunks = {
        text := (layout [f.written]).text ++ (lineAt 0 (startTag name) ++
          (shownText name body).flatMap fun token => lineAt 1 token.text.trim),
        ending := .ok [name.lower] } := by
  have shown : body ≠ [] := by
    rintro rfl
    cases visible
  have front : tokenize [f.written] = { tokens := tokensFrom [] f.symbols } :=
    tokenize_of_ok (nested.readsOver.readFrom_eq (by simp))
  have tokens : tokenize chunks =
      { tokens := tokensFrom [] f.symbols ++ openedToken name :: shownText name body } := by
    obtain ⟨chunks', behind, read⟩ := nested.readsOver _ chunks whole
    obtain ⟨chunks'', body', read'⟩ := readsOver_startTag letters filled _ chunks' behind
    obtain ⟨symbols, read'', spelled⟩ :=
      exists_readFrom_shownText name shown unopened unreferenced body'
    rw [read', read''] at read
    rw [startKind, if_neg (by simp [content])] at read
    rw [tokenize_of_ok read]
    simp only [List.singleton_append, tokensFrom_append_token, spelled, openedToken]
  have back := nested.print_symbols {} [] (fun tag inside => by cases inside)
  refine ⟨by rw [tokens, front], ?_⟩
  rw [layout, layout, tokens, front, Layout.ofTokens, Layout.ofTokens]
  simp only [Printer.print_append, back, Printer.print_cons, openedToken,
    Printer.feed_startTag, print_shownText (Printer.opening {} name.lower) visible rfl]
  rfl

/-- A paragraph, and a tag that never has content, in front of an element that is left open. -/
def exampleFront : Forest :=
  .element "p".toList (.text " a".toList (.text "\n".toList .nil)) (.void "br".toList .nil)

theorem exampleFront_unclosed : exampleFront.Nested ∧
    tokenize ["<p> a\n</p><br><Di".toList, "v> it's ".toList, "b".toList] =
        { tokens := (tokenize [exampleFront.written]).tokens ++
            openedToken "Div".toList :: shownText "Div".toList " it's b".toList } ∧
      layout ["<p> a\n</p><br><Di".toList, "v> it's ".toList, "b".toList] = {
        text := (layout [exampleFront.written]).text ++ (lineAt 0 (startTag "Div".toList) ++
          (shownText "Div".toList " it's b".toList).flatMap fun token => lineAt 1 token.text.trim),
        ending := .ok [Text.lower "Div".toList] } :=
  ⟨by decide, tokenize_unclosed (by decide) (by decide)
    (List.all_eq_true.mp rfl) (by decide) (by decide)
    (by decide) rfl rfl⟩

/-- **Raw elements lose their text**: what stands in a `script` or a `style` that is left open is
neither reported nor laid out. -/
theorem raw_text_dropped :
    (¬ ∃ front, (tokenize ["<script>x".toList]).tokens =
      front ++ [openedToken "script".toList, { kind := .text, text := "x".toList }]) ∧
    tokenize ["<script>x".toList] = { tokens := [openedToken "script".toList] } ∧
    tokenize ["<STYLE>x".toList] = { tokens := [openedToken "STYLE".toList] } ∧
    (layout ["<script>x".toList]).text = "<script>\n".toList := by
  have script : tokenize ["<script>x".toList] = { tokens := [openedToken "script".toList] } := by
    decide +kernel
  refine ⟨?_, script, by decide +kernel, by decide +kernel⟩
  rintro ⟨front, same⟩
  rw [script] at same
  have length := congrArg List.length same
  simp only [List.length_append, List.length_cons, List.length_nil] at length
  omega

end PageAssembly.Markup
