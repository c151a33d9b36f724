import PageAssembly.Markup.Layout
import PageAssembly.Proofs.Markup.PlainTag

/-!
# The layout of well-formed markup

Well-formed markup is laid out with one line for each tag and each text, indented by the elements
around it, and a layout is laid out as it is.

## Main definitions

* `Printer.textLine` — what a text between two tags writes
* `Markup.Prints` — symbols that write the layout of a forest

## Main statements

* `Spells.exists_symbols` — a spelling of a well-formed forest is read as symbols that write its
  layout
* `Markup.layout_of_spells` — all spellings of a well-formed forest have one layout
* `Forest.layout_written` — the layout of a forest's markup, and of the layout itself

### What carries the induction

Between two tags stand blanks and at most one text, and the printer trims them together.  So the
induction is over symbols behind any text that was collected before, and in front of any tag or the
end of the input; the collected text is written first.
-/

namespace PageAssembly.Markup

/-! ## Printing -/

theorem trim_startTag (name : Text) : (startTag name).trim = startTag name :=
  Text.trim_of_ends (by decide) (by decide) name

theorem trim_endTag (name : Text) : (endTag name).trim = endTag name :=
  @Text.trim_of_ends '<' '>' (by decide) (by decide) ('/' :: name)

theorem trim_selfClosedTag (name : Text) : (selfClosedTag name).trim = selfClosedTag name := by
  have ends := @Text.trim_of_ends '<' '>' (by decide) (by decide) (name ++ ['/'])
  simpa [selfClosedTag] using ends

namespace Printer

variable {p : Printer} {name : Text}

/-- The line that a piece of text writes, or nothing when the piece is blank. -/
def textLine (p : Printer) (piece : Text) : Text :=
  if piece.trim = [] then [] else p.line piece.trim

theorem textLine_of_isAllBlank {piece : Text} (h : piece.isAllBlank = true) :
    p.textLine piece = [] :=
  if_pos (Text.trim_of_isAllBlank h)

@[simp] theorem textLine_nil (p : Printer) : p.textLine [] = [] := rfl

theorem line_eq (h : p.indent = indentation) (body : Text) : p.line body = lineAt p.depth body := by
  rw [line, h, lineAt]

theorem feed_text {text : Text} (filled : text.trim ≠ []) :
    p.feed { kind := .text, text } = (p.line text.trim, p) := by
  simp [feed, filled, closes]

/-- The text collected in front of a tag writes its line and changes nothing. -/
theorem print_flush (p : Printer) (buffered : Text) :
    p.print (flush buffered) = (p.textLine buffered.reverse, p) := by
  cases buffered with
  | nil => rfl
  | cons c buffered =>
      rw [flush, if_neg (by simp), print_cons, print_nil, textLine]
      by_cases blank : Text.trim (c :: buffered).reverse = []
      · rw [if_pos blank, feed_blank blank]
        rfl
      · rw [if_neg blank, feed_text blank, List.append_nil]

/-- A tag that is neither opened nor closed is a line. -/
theorem feed_selfClosing {text : Text} (trimmed : text.trim = text) (filled : text ≠ [])
    (tag : Option Text) :
    p.feed { kind := .selfClosing, text, tag } = (p.line text, p) := by
  simp [feed, trimmed, filled, closes]

/-- A start tag is a line, and what follows is one level deeper. -/
theorem feed_startTag (name tag : Text) :
    p.feed { kind := .startTag, text := startTag name, tag := some tag } =
      (p.line (startTag name), p.opening tag) := by
  have filled : startTag name ≠ [] := List.cons_ne_nil _ _
  simp [feed, trim_startTag, filled, closes]

/-- The end tag of the innermost element is a line at the depth of its start tag. -/
theorem feed_endTag (name : Text) :
    (p.opening name).feed { kind := .endTag, text := endTag name, tag := some name } =
      (p.line (endTag name), p) := by
  have filled : endTag name ≠ [] := List.cons_ne_nil _ _
  have closed : (p.opening name).closing = p := rfl
  have matching : (p.opening name).openTags.peek? = some name := rfl
  simp [feed, trim_endTag, filled, closes, matching, closed]

end Printer

/-! ## Symbols that write a layout -/

/-- Symbols that do not go on with a piece of text. -/
def EndsText (symbols : List Symbol) : Prop := ∀ c later, symbols ≠ .char c :: later

theorem endsText_nil : EndsText [] := by
  intro c later h
  cases h

theorem endsText_token (token : Token) (symbols : List Symbol) :
    EndsText (.token token :: symbols) := by
  intro c later h
  cases h

/-- The text in front of a tag, or of the end, is written first. -/
theorem print_tokensFrom (p : Printer) (buffered : Text) {symbols : List Symbol}
    (ends : EndsText symbols) :
    p.print (tokensFrom buffered symbols) =
      (p.textLine buffered.reverse ++ (p.print (tokensFrom [] symbols)).1,
        (p.print (tokensFrom [] symbols)).2) := by
  have split : tokensFrom buffered symbols = flush buffered ++ tokensFrom [] symbols := by
    cases symbols with
    | nil => exact (List.append_nil _).symm
    | cons symbol symbols =>
        cases symbol with
        | char c => exact absurd rfl (ends c symbols)
        | token token => rfl
  rw [split, Printer.print_append, Printer.print_flush]

/-- A tag is written behind the text in front of it. -/
theorem print_token (p : Printer) (buffered : Text) (token : Token) (symbols : List Symbol) :
    p.print (tokensFrom buffered (.token token :: symbols)) =
      (p.textLine buffered.reverse ++ ((p.feed token).1 ++
          ((p.feed token).2.print (tokensFrom [] symbols)).1),
        ((p.feed token).2.print (tokensFrom [] symbols)).2) := by
  rw [print_tokensFrom p buffered (endsText_token token symbols)]
  have alone : tokensFrom [] (.token token :: symbols) = token :: tokensFrom [] symbols := rfl
  rw [alone, Printer.print_cons]

/-- **Symbols that write the layout of a forest**, behind any text collected before and in front of
anything but more text. -/
def Prints (f : Forest) (symbols : List Symbol) : Prop :=
  ∀ (p : Printer) (buffered : Text) (tail : List Symbol), p.indent = indentation →
    (f.StartsWithText → buffered.isAllBlank = true) → EndsText tail →
      p.print (tokensFrom buffered (symbols ++ tail)) =
        (p.textLine buffered.reverse ++ (f.laidOut p.depth ++ (p.print (tokensFrom [] tail)).1),
          (p.print (tokensFrom [] tail)).2)

section Prints

variable {blank : Text} {symbols : List Symbol} {rest : Forest} {p : Printer}

/-- Blanks that are collected as well change nothing. -/
theorem textLine_append_blank (h : blank.isAllBlank = true) (buffered : Text) :
    p.textLine (blank.reverse ++ buffered).reverse = p.textLine buffered.reverse := by
  rw [List.reverse_append, List.reverse_reverse, Printer.textLine, Printer.textLine,
    Text.trim_append_blank _ h]

theorem prints_nil (h : blank.isAllBlank = true) : Prints .nil (chars blank) := by
  intro p buffered tail _ _ ends
  rw [tokensFrom_chars, print_tokensFrom p _ ends, textLine_append_blank h]
  rfl

theorem prints_text {content : Text} (h : blank.isAllBlank = true)
    (filled : content.isAllBlank = false) (apart : ¬ rest.StartsWithText)
    (prints : Prints rest symbols) :
    Prints (.text content rest) (chars (blank ++ content.trim) ++ symbols) := by
  intro p buffered tail indent alone ends
  have before : buffered.isAllBlank = true := alone True.intro
  -- the collected text is blank, the blanks and this text
  have collected : (blank ++ content.trim).reverse ++ buffered =
      (buffered.reverse ++ blank ++ content.trim).reverse := by simp
  have leading : Text.isAllBlank (buffered.reverse ++ blank) = true := by simp [before, h]
  have written : p.textLine (buffered.reverse ++ blank ++ content.trim) =
      lineAt p.depth content.trim := by
    rw [Printer.textLine, Text.trim_blank_append leading, Text.trim_trim,
      if_neg (Text.trim_ne_nil filled), Printer.line_eq indent]
  rw [List.append_assoc, tokensFrom_chars, collected,
    prints p _ tail indent (fun starts => absurd starts apart) ends, List.reverse_reverse, written,
    Printer.textLine_of_isAllBlank (by simpa using before), Forest.laidOut]
  simp

theorem prints_selfClosing {text : Text} {tag : Option Text} {f : Forest}
    (h : blank.isAllBlank = true) (trimmed : text.trim = text) (filled : text ≠ [])
    (prints : Prints rest symbols)
    (laid : ∀ depth, f.laidOut depth = lineAt depth text ++ rest.laidOut depth) :
    Prints f (chars blank ++ .token { kind := .selfClosing, text, tag } :: symbols) := by
  intro p buffered tail indent _ ends
  have onward := prints p [] tail indent (fun _ => rfl) ends
  rw [List.reverse_nil, Printer.textLine_nil, List.nil_append] at onward
  rw [List.append_assoc, tokensFrom_chars, List.cons_append, print_token,
    textLine_append_blank h, Printer.feed_selfClosing trimmed filled, onward, laid,
    Printer.line_eq indent, List.append_assoc]

theorem prints_element {name : Text} {children : Forest} {inner : List Symbol}
    (h : blank.isAllBlank = true) (printsInner : Prints children inner)
    (prints : Prints rest symbols) :
    Prints (.element name children rest)
      (chars blank ++ .token { kind := .startTag, text := startTag name, tag := some name } ::
        (inner ++ .token { kind := .endTag, text := endTag name, tag := some name } ::
          symbols)) := by
  intro p buffered tail indent _ ends
  have content := printsInner (p.opening name) []
    (.token { kind := .endTag, text := endTag name, tag := some name } :: (symbols ++ tail)) indent
    (fun _ => rfl) (endsText_token _ _)
  have closing := print_token (p.opening name) []
    { kind := .endTag, text := endTag name, tag := some name } (symbols ++ tail)
  have onward := prints p [] tail indent (fun _ => rfl) ends
  rw [Printer.feed_endTag, onward, List.reverse_nil, Printer.textLine_nil, Printer.textLine_nil,
    Printer.line_eq indent] at closing
  rw [closing, List.reverse_nil, Printer.textLine_nil, Printer.depth_opening] at content
  rw [List.append_assoc, tokensFrom_chars, List.cons_append, print_token,
    textLine_append_blank h, Printer.feed_startTag, List.append_assoc, List.cons_append, content,
    Printer.line_eq indent, Forest.laidOut]
  simp

end Prints

/-! ## Spellings are read as symbols -/

theorem isSpecial_of_isBlank {c : Char} (h : Text.isBlank c = true) : isSpecial c = false := by
  rw [isSpecial, Bool.or_eq_false_iff]
  constructor
  · exact beq_eq_false_iff_ne.mpr fun same => by rw [same] at h; exact absurd h (by decide)
  · exact beq_eq_false_iff_ne.mpr fun same => by rw [same] at h; exact absurd h (by decide)

theorem passesOver_blank {blank : Text} (h : blank.isAllBlank = true) :
    PassesOver blank (chars blank) :=
  passesOver_chars fun c hc => isSpecial_of_isBlank (List.all_eq_true.mp h c hc)

/-- Trimming adds no character. -/
theorem mem_of_mem_trim {s : Text} {c : Char} (h : c ∈ s.trim) : c ∈ s := by
  obtain ⟨lead, trail, -, -, split⟩ := Text.exists_trim s
  rw [split]
  exact List.mem_append_left trail (List.mem_append_right lead h)

theorem passesOver_trim {content : Text} (unopened : '<' ∉ content) (unreferenced : '&' ∉ content) :
    PassesOver content.trim (chars content.trim) :=
  passesOver_chars fun c hc => isSpecial_of_not_mem unopened unreferenced c (mem_of_mem_trim hc)

theorem isTagName_of_void {name : Text} (h : name ∈ voidElements) : IsTagName name := by
  revert name
  decide

namespace IsTagName

variable {name : Text}

theorem letters (h : IsTagName name) : ∀ c ∈ name, Text.isLetter c = true :=
  fun c hc => isLetter_of_small (h.2 c hc)

theorem lower (h : IsTagName name) : name.lower = name := lower_of_small h.2

end IsTagName

/-- **A spelling of a well-formed forest** is passed over as symbols that write its layout. -/
theorem Spells.exists_symbols {f : Forest} {s : Text} (spells : Spells f s) (wf : f.WellFormed) :
    ∃ symbols, PassesOver s symbols ∧ Prints f symbols := by
  induction spells with
  | nil blank => exact ⟨_, passesOver_blank blank, prints_nil blank⟩
  | @text before content s rest blank _ ih =>
      obtain ⟨filled, unopened, unreferenced, apart, tidy⟩ := wf
      obtain ⟨symbols, passes, prints⟩ := ih tidy
      refine ⟨_, ?_, prints_text blank filled apart prints⟩
      rw [← List.append_assoc, chars_append]
      exact ((passesOver_blank blank).append (passesOver_trim unopened unreferenced)).append passes
  | @void before name s rest blank _ ih =>
      obtain ⟨void, tidy⟩ := wf
      obtain ⟨symbols, passes, prints⟩ := ih tidy
      have small := isTagName_of_void void
      have tag := passesOver_startTag small.letters small.1
        (by rw [small.lower]; exact ofName?_of_void void)
      rw [small.lower, startKind, if_pos (by simp [void])] at tag
      exact ⟨_, (passesOver_blank blank).append (tag.append passes),
        prints_selfClosing blank (trim_startTag name) (List.cons_ne_nil _ _) prints fun _ => rfl⟩
  | @selfClosed before name s rest blank _ ih =>
      obtain ⟨small, tidy⟩ := wf
      obtain ⟨symbols, passes, prints⟩ := ih tidy
      have tag := passesOver_selfClosedTag small.letters small.1
      exact ⟨_, (passesOver_blank blank).append (tag.append passes),
        prints_selfClosing blank (trim_selfClosedTag name) (List.cons_ne_nil _ _) prints
          fun _ => rfl⟩
  | @element before name inner s children rest blank _ _ ihInner ih =>
      obtain ⟨⟨small, content, notScript, notStyle⟩, tidyInner, tidy⟩ := wf
      obtain ⟨innerSymbols, passesInner, printsInner⟩ := ihInner tidyInner
      obtain ⟨symbols, passes, prints⟩ := ih tidy
      have cooked : RawElement.ofName? name.lower = none := by
        rw [small.lower, RawElement.ofName?, if_neg notScript, if_neg notStyle]
      have opened := passesOver_startTag small.letters small.1 cooked
      have closed := passesOver_endTag small.letters small.1
      rw [small.lower, startKind, if_neg (by simp [content])] at opened
      rw [small.lower] at closed
      have whole := (passesOver_blank blank).append
        (opened.append (passesInner.append (closed.append passes)))
      exact ⟨_, whole, prints_element blank printsInner prints⟩

/-! ## Layouts -/

/-- A text that a pass goes over to its end is read as its symbols. -/
theorem PassesOver.readAll {s : Text} {symbols : List Symbol} (passes : PassesOver s symbols) :
    readAll [s] = .ok symbols := by
  have whole := passes []
  have waits : (⟨none, []⟩ : Place).Waits := rfl
  rw [List.append_nil, Place.pass_of_waits waits] at whole
  rw [Markup.readAll, readFrom_cons, Place.extend_mk, List.nil_append, whole]
  have finish : (⟨none, []⟩ : Place).finish = .ok [] := by
    rw [Place.finish, Place.pass, pass_nil]
    rfl
  simp only [Except.map, Place.spell, Except.bind, List.append_nil, readFrom_nil, finish]

/-- **All spellings of a well-formed forest have one layout**, with every tag closed. -/
theorem layout_of_spells {f : Forest} {s : Text} (spells : Spells f s) (wf : f.WellFormed) :
    layout [s] = { text := f.laidOut 0, ending := .ok [] } := by
  obtain ⟨symbols, passes, prints⟩ := spells.exists_symbols wf
  have printed := prints {} [] [] rfl (fun _ => rfl) endsText_nil
  rw [List.append_nil] at printed
  have empty : tokensFrom [] [] = [] := rfl
  rw [layout, tokenize_of_ok passes.readAll, Layout.ofTokens]
  simp only [printed, List.reverse_nil, Printer.textLine_nil, empty, Printer.print_nil,
    List.append_nil, List.nil_append]
  rfl

/-- **The layout of well-formed markup.**  The markup of a well-formed forest is laid out with each
tag and each trimmed text on a line of its own behind one indentation for each element around it,
no tag is left open, and the layout is laid out as it is. -/
theorem Forest.layout_written (f : Forest) (wf : f.WellFormed) :
    indented f.written = .ok (f.laidOut 0) ∧ (layout [f.written]).ending = .ok [] ∧
      indented (f.laidOut 0) = .ok (f.laidOut 0) := by
  have first := layout_of_spells f.spells_written wf
  have second := layout_of_spells (f.spells_laidOut 0) wf
  refine ⟨?_, ?_, ?_⟩
  · rw [indented, first]
    rfl
  · rw [first]
  · rw [indented, second]
    rfl

/-- A list with a picture, a text of two lines and a tag that closes itself. -/
def exampleForest : Forest :=
  .element "ul".toList
    (.element "li".toList (.text " one\ntwo ".toList (.void "img".toList .nil))
      (.selfClosed "li".toList .nil))
    (.text ">".toList .nil)

theorem exampleForest_layout : exampleForest.WellFormed ∧
    indented exampleForest.written = .ok (exampleForest.laidOut 0) ∧
      (layout [exampleForest.written]).ending = .ok [] ∧
        indented (exampleForest.laidOut 0) = .ok (exampleForest.laidOut 0) :=
  ⟨by decide, exampleForest.layout_written (by decide)⟩

end PageAssembly.Markup
