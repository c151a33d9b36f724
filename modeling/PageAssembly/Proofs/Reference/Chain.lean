import PageAssembly.Proofs.Reference.Names

/-!
# Chains of texts and references

A line that is a chain of texts without `<`, exact references and references with a blank before
their terminator.

## Main definitions

* `Reference.PlainName` — a name of ASCII letters, digits and hyphens
* `Reference.Part` — a text, an exact reference or a spaced reference
* `Reference.spelling`, `Reference.filledIn` — what a chain spells, and what it spells with markup
  in the place of its exact references
* `Reference.mentioned`, `Reference.exacts` — the names of its references, and of the exact ones

## Main statements

* `Reference.names_spelling` — the names found on a chain are those it mentions
* `Reference.cut?_spelling` — a tag is found at the first exact reference to its name
-/

namespace PageAssembly.Reference

/-! ## Parts -/

/-- The characters of a plain name. -/
def isPlain (c : Char) : Bool := Text.isLetter c || Text.isDigit c || c == '-'

/-- **A plain name**: ASCII letters, digits and hyphens, at least one. -/
structure PlainName where
  /-- The name. -/
  text : Text
  /-- It is not empty. -/
  filled : text ≠ []
  /-- Its characters are plain. -/
  plain : ∀ c ∈ text, isPlain c = true
  deriving DecidableEq

/-- **A part of a chain.** -/
inductive Part where
  /-- Text in which no tag starts. -/
  | literal (text : Text) (plain : '<' ∉ text)
  /-- A reference in the exact spelling. -/
  | reference (name : PlainName)
  /-- A reference with a blank before its terminator. -/
  | spaced (name : PlainName)
  deriving DecidableEq

/-- What a part spells. -/
def Part.spelling : Part → Text
  | .literal text _ => text
  | .reference name => tag name.text
  | .spaced name => tag (name.text ++ [' '])

/-- What a part becomes when exact references are replaced by markup. -/
def Part.filledIn (markup : Text → Text) : Part → Text
  | .reference name => markup name.text
  | part => part.spelling

/-- The name that a part mentions. -/
def Part.mentioned? : Part → Option PlainName
  | .literal _ _ => none
  | .reference name => some name
  | .spaced name => some name

/-- The name that a part refers to exactly. -/
def Part.exactName? : Part → Option PlainName
  | .reference name => some name
  | _ => none

/-- What a chain spells. -/
def spelling (chain : List Part) : Text := chain.flatMap Part.spelling

/-- A chain with markup in the place of its exact references. -/
def filledIn (markup : Text → Text) (chain : List Part) : Text :=
  chain.flatMap (Part.filledIn markup)

/-- The names that a chain mentions, in order. -/
def mentioned (chain : List Part) : List PlainName := chain.filterMap Part.mentioned?

/-- The names of the exact references of a chain, in order. -/
def exacts (chain : List Part) : List PlainName := chain.filterMap Part.exactName?

section Parts

variable {chain front back : List Part} {name : PlainName} {markup : Text → Text}

@[simp] theorem spelling_cons (part : Part) :
    spelling (part :: chain) = part.spelling ++ spelling chain := rfl

@[simp] theorem spelling_append : spelling (front ++ back) = spelling front ++ spelling back :=
  List.flatMap_append

@[simp] theorem filledIn_cons (part : Part) :
    filledIn markup (part :: chain) = part.filledIn markup ++ filledIn markup chain := rfl

@[simp] theorem filledIn_append :
    filledIn markup (front ++ back) = filledIn markup front ++ filledIn markup back :=
  List.flatMap_append

@[simp] theorem exacts_append : exacts (front ++ back) = exacts front ++ exacts back :=
  List.filterMap_append

@[simp] theorem exacts_reference : exacts (.reference name :: chain) = name :: exacts chain := rfl

theorem mem_exacts : name ∈ exacts chain ↔ .reference name ∈ chain := by
  rw [exacts, List.mem_filterMap]
  constructor
  · rintro ⟨part, hp, he⟩
    cases part <;> simp_all [Part.exactName?]
  · intro h
    exact ⟨_, h, rfl⟩

/-- Without exact references nothing is replaced. -/
theorem filledIn_of_exacts_eq_nil (h : exacts chain = []) :
    filledIn markup chain = spelling chain := by
  induction chain with
  | nil => rfl
  | cons part chain ih =>
      cases part with
      | reference name => cases h
      | literal text plain => rw [filledIn_cons, spelling_cons, ih h]; rfl
      | spaced name => rw [filledIn_cons, spelling_cons, ih h]; rfl

end Parts

/-! ## Plain names -/

namespace PlainName

theorem toNat_of_isPlain {c : Char} (h : isPlain c = true) :
    c.toNat = 45 ∨ 48 ≤ c.toNat ∧ c.toNat ≤ 57 ∨ 65 ≤ c.toNat ∧ c.toNat ≤ 90 ∨
      97 ≤ c.toNat ∧ c.toNat ≤ 122 := by
  simp only [isPlain, Text.isLetter, Text.isDigit, Bool.or_eq_true, Bool.and_eq_true,
    decide_eq_true_eq, Char.le_def, UInt32.le_iff_toNat_le, beq_iff_eq] at h
  rcases h with ((h | h) | h) | rfl
  · exact .inr (.inr (.inr h))
  · exact .inr (.inr (.inl h))
  · exact .inr (.inl h)
  · exact .inl rfl

theorem isBlank_of_isPlain {c : Char} (h : isPlain c = true) : Text.isBlank c = false := by
  have := toNat_of_isPlain h
  simp only [Text.isBlank, Bool.or_eq_false_iff, Bool.and_eq_false_iff, decide_eq_false_iff_not,
    beq_eq_false_iff_ne]
  omega

variable (name : PlainName)

theorem notMem_text {c : Char} (h : isPlain c = false) : c ∉ name.text := fun hc => by
  rw [name.plain c hc] at h
  cases h

/-- A plain name has no blanks to trim. -/
theorem trimEnd_text : Text.trimEnd name.text = name.text := by
  have front : name.text.reverse.dropWhile Text.isBlank = name.text.reverse := by
    cases spelled : name.text.reverse with
    | nil => rfl
    | cons c s =>
        have plain := name.plain c (List.mem_reverse.mp (spelled ▸ List.mem_cons_self))
        rw [List.dropWhile_cons_of_neg]
        simp [isBlank_of_isPlain plain]
  rw [Text.trimEnd, front, List.reverse_reverse]

theorem trimEnd_text_blank : Text.trimEnd (name.text ++ [' ']) = name.text := by
  have front : Text.trimEnd (name.text ++ [' ']) = Text.trimEnd name.text := by
    simp [Text.trimEnd, show Text.isBlank ' ' = true by decide]
  rw [front, name.trimEnd_text]

end PlainName

/-! ## Names and tags on a chain -/

section Tags

variable {chain front : List Part} {name : PlainName}

/-- **The names found on a chain are those it mentions.** -/
theorem names_spelling : names (spelling chain) = (mentioned chain).map PlainName.text := by
  induction chain with
  | nil => rfl
  | cons part chain ih =>
      cases part with
      | literal text plain => exact (names_append_of_notMem plain _).trans ih
      | reference name =>
          have found := names_tag_append (name.notMem_text (c := '/') (by decide))
            (name.notMem_text (c := '<') (by decide)) (spelling chain)
          rw [name.trimEnd_text, ih] at found
          exact found
      | spaced name =>
          have slash : '/' ∉ name.text ++ [' '] := by simp [name.notMem_text (c := '/') (by decide)]
          have bracket : '<' ∉ name.text ++ [' '] := by
            simp [name.notMem_text (c := '<') (by decide)]
          have found := names_tag_append slash bracket (spelling chain)
          rw [name.trimEnd_text_blank, ih] at found
          exact found

/-- A tag starts another tag only when both are of one name. -/
theorem after?_tag_eq_none {body : Text} (slash : '/' ∉ body) (other : body ≠ name.text)
    (more : Text) : Text.after? (tag name.text) (tag body ++ more) = none := by
  cases found : Text.after? (tag name.text) (tag body ++ more) with
  | none => rfl
  | some rest =>
      have same := Text.after?_eq_some.mp found
      have ends : body ++ terminator ++ more = name.text ++ terminator ++ rest := by
        simpa [tag] using same
      -- both names reach to the first terminator
      have reach := congrArg extent ends
      rw [extent_append_terminator slash,
        extent_append_terminator (name.notMem_text (c := '/') (by decide))] at reach
      exact absurd reach other

/-- A tag is not found at a tag of another name. -/
theorem cut?_tag_append {body : Text} (slash : '/' ∉ body) (bracket : '<' ∉ body)
    (other : body ≠ name.text) (more : Text) :
    Text.cut? (tag name.text) (tag body ++ more) =
      (Text.cut? (tag name.text) more).map fun (before, rest) => (tag body ++ before, rest) := by
  have spelled : ∀ rest, tag body ++ rest = '<' :: (marker ++ body ++ terminator ++ rest) := by
    simp [tag]
  have inner : '<' ∉ marker ++ body ++ terminator := by simp [marker, terminator, bracket]
  have missed := after?_tag_eq_none slash other more
  have skip : Text.search (Text.after? (tag name.text)) (marker ++ body ++ terminator ++ more) =
      (Text.cut? (tag name.text) more).map fun (before, rest) =>
        (marker ++ body ++ terminator ++ before, rest) :=
    Text.cut?_append_of_notMem inner more
  rw [spelled] at missed
  rw [spelled, Text.cut?, Text.search_cons, missed]
  simp only [spelled, skip]
  rw [Option.map_map]
  rfl

/-- A tag is not found in the parts before the first exact reference to its name. -/
theorem cut?_spelling_append (absent : .reference name ∉ front) (more : Text) :
    Text.cut? (tag name.text) (spelling front ++ more) =
      (Text.cut? (tag name.text) more).map fun (before, rest) =>
        (spelling front ++ before, rest) := by
  induction front with
  | nil => cases h : Text.cut? (tag name.text) more <;> simp [spelling, h]
  | cons part front ih =>
      rw [List.mem_cons, not_or] at absent
      have skip : ∀ rest, Text.cut? (tag name.text) (part.spelling ++ rest) =
          (Text.cut? (tag name.text) rest).map fun (before, rest) =>
            (part.spelling ++ before, rest) := by
        intro rest
        cases part with
        | literal text plain => exact Text.cut?_append_of_notMem plain rest
        | reference other =>
            refine cut?_tag_append (other.notMem_text (by decide)) (other.notMem_text (by decide))
              (fun same => absent.1 ?_) rest
            obtain ⟨text, _, _⟩ := other
            obtain ⟨text', _, _⟩ := name
            obtain rfl : text = text' := same
            rfl
        | spaced other =>
            refine cut?_tag_append (by simp [other.notMem_text (c := '/') (by decide)])
              (by simp [other.notMem_text (c := '<') (by decide)]) (fun same => ?_) rest
            exact name.notMem_text (c := ' ') (by decide) (same ▸ by simp)
      rw [spelling_cons, List.append_assoc, skip, ih absent.2, Option.map_map]
      refine congrArg (Option.map · _) (funext fun _ => ?_)
      simp

/-- A tag is not found on a chain without an exact reference to its name. -/
theorem cut?_spelling_of_notMem (absent : .reference name ∉ chain) :
    Text.cut? (tag name.text) (spelling chain) = none := by
  have h := cut?_spelling_append absent []
  rwa [List.append_nil] at h

/-- A tag is found at the first exact reference to its name. -/
theorem cut?_spelling (absent : .reference name ∉ front) (back : List Part) :
    Text.cut? (tag name.text) (spelling (front ++ .reference name :: back)) =
      some (spelling front, spelling back) := by
  have here : Text.cut? (tag name.text) (tag name.text ++ spelling back) =
      some ([], spelling back) :=
    Text.cut?_mark_append _ _ _
  have h := cut?_spelling_append absent (tag name.text ++ spelling back)
  rw [here] at h
  rw [spelling_append, spelling_cons, Part.spelling, h]
  simp

end Tags

end PageAssembly.Reference
