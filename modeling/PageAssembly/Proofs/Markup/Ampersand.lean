import PageAssembly.Proofs.Markup.PlainTag

/-!
# What a reader does at an ampersand

At an ampersand a reader takes a reference and spells it with a semicolon, or takes the ampersand as
text, or waits.

## Main definitions

* `Markup.readReference?` — the reference behind an `&`, named or numeric
* `Markup.IsReferenceName` — the names and numbers of references
* `Markup.Terminated` — a reference behind an `&` ends with a semicolon
* `Markup.Passed` — a reader with the text in view does not stay at the `&` in front of it

## Main statements

* `Markup.readReference?_eq_some` — a reference is a name and something behind it
* `Markup.terminated_of_semicolon` — a name without hyphens and full stops is not taken
  before its semicolon
* `Place.reference_cases` — what a reader does at an ampersand
-/

namespace PageAssembly.Markup

/-! ## References -/

/-- The name of the reference whose `&` stands before the text, and the rest. -/
def readReference? : Text → Option (Text × Text)
  | [] => none
  | '#' :: body => (readCharacterReference? body).map fun (number, rest) => ('#' :: number, rest)
  | c :: body => if Text.isLetter c then readEntity? (c :: body) else none

/-- The numbers of numeric references: decimal digits, or an `x` and hexadecimal digits. -/
def IsNumber (number : Text) : Prop :=
  (number ≠ [] ∧ ∀ d ∈ number, Text.isDigit d = true) ∨
    ∃ x digits, number = x :: digits ∧ (x = 'x' ∨ x = 'X') ∧ digits ≠ [] ∧
      ∀ d ∈ digits, Text.isHexDigit d = true

/-- **The name of a reference**: a number behind `#`, or a letter and what can follow it. -/
def IsReferenceName (name : Text) : Prop :=
  (∃ number, name = '#' :: number ∧ IsNumber number) ∨
    ∃ c tail, name = c :: tail ∧ Text.isLetter c = true ∧ ∀ d ∈ tail, isEntityName d = true

variable {s t body name rest : Text}

theorem isNumber_of_readNumber? {number : Text} (h : readNumber? s = some (number, rest)) :
    IsNumber number := by
  have inside {p : Char → Bool} (u : Text) : ∀ d ∈ (Text.run p u).1, p d = true :=
    fun d member => List.mem_takeWhile_imp member
  simp only [readNumber?] at h
  split at h
  · next digits =>
      have taken : (Text.run Text.isDigit s).1 = number := congrArg Prod.fst (Option.some.inj h)
      rw [taken] at digits
      exact Or.inl ⟨by simpa using digits, taken ▸ inside s⟩
  · split at h
    · cases h
    · next x u _ =>
        split at h
        · next mark =>
            cases h
            simp only [Bool.and_eq_true, Bool.or_eq_true, beq_iff_eq] at mark
            exact Or.inr ⟨x, _, rfl, mark.1, by simpa using mark.2, inside u⟩
        · cases h

/-- A numeric reference has a character behind its number. -/
theorem readCharacterReference?_eq_some {number : Text}
    (h : readCharacterReference? s = some (number, rest)) :
    IsNumber number ∧
      ∃ c behind, s = number ++ c :: behind ∧ rest = dropSemicolon (c :: behind) := by
  unfold readCharacterReference? at h
  split at h
  · next digits c behind read =>
      split at h
      · cases h
      · cases h
        exact ⟨isNumber_of_readNumber? read, c, behind, (readNumber?_written read).symm, rfl⟩
  · cases h

theorem endsEntity_of_isLetter {c : Char} (letter : Text.isLetter c = true) :
    endsEntity c = false :=
  forall_isLetter (P := fun c => endsEntity c = false) (by decide) letter

theorem isEntityName_of_isLetter {c : Char} (letter : Text.isLetter c = true) :
    isEntityName c = true := by
  simp [isEntityName, letter]

theorem dropSemicolon_of_ne {c : Char} (other : c ≠ ';') (s : Text) :
    dropSemicolon (c :: s) = c :: s := by
  simp [dropSemicolon, other]

/-- A named reference has a character behind its name. -/
theorem readEntity?_eq_some {c : Char} (letter : Text.isLetter c = true)
    (h : readEntity? (c :: s) = some (name, rest)) :
    (∃ tail, name = c :: tail ∧ ∀ d ∈ tail, isEntityName d = true) ∧
      ∃ d behind, c :: s = name ++ d :: behind ∧ rest = dropSemicolon (d :: behind) := by
  by_cases toEnd : (Text.run isEntityName (c :: s)).2 = []
  -- the name ends before its last mark, which is no semicolon
  · obtain ⟨mark, tail, rfl, atEnd⟩ := atEnd_of_readEntity? toEnd h
    have split := atEnd.split
    cases name with
    | nil =>
        obtain ⟨rfl, -⟩ := List.cons.inj split
        have ends := atEnd.ends
        rw [endsEntity_of_isLetter letter] at ends
        cases ends
    | cons d name =>
        obtain ⟨rfl, behind⟩ := List.cons.inj split
        refine ⟨⟨name, rfl, fun e member => atEnd.name e ?_⟩, mark, tail, split, ?_⟩
        · rw [split]
          exact List.mem_cons_of_mem _ (List.mem_append_left _ member)
        · refine (dropSemicolon_of_ne ?_ tail).symm
          rintro rfl
          exact absurd atEnd.ends (by decide)
  -- the name ends before the first character that is none of its own
  · have written := Text.run_written isEntityName (c :: s)
    have ends : (!(Text.run isEntityName (c :: s)).2.isEmpty) = true := by simpa using toEnd
    simp only [readEntity?] at h
    rw [if_pos ends] at h
    cases h
    obtain ⟨d, behind, left⟩ := List.exists_cons_of_ne_nil toEnd
    have run : (Text.run isEntityName (c :: s)).1 = c :: (Text.run isEntityName s).1 := by
      simp [Text.run, isEntityName_of_isLetter letter]
    refine ⟨⟨_, run, fun e member => List.mem_takeWhile_imp member⟩, d, behind, ?_, by rw [left]⟩
    rw [← left]
    exact written.symm

/-- A name that is not read goes on to the end of the text. -/
theorem forall_isEntityName_of_readEntity? (h : readEntity? s = none) :
    ∀ c ∈ s, isEntityName c = true := by
  refine run_eq_nil_iff.mp (Decidable.byContradiction fun inView => ?_)
  have ends : (!(Text.run isEntityName s).2.isEmpty) = true := by simpa using inView
  simp only [readEntity?] at h
  rw [if_pos ends] at h
  cases h

theorem readReference?_of_isLetter {c : Char} (letter : Text.isLetter c = true) :
    readReference? (c :: s) = readEntity? (c :: s) := by
  unfold readReference?
  split
  · next same => cases same
  · next same =>
      obtain ⟨rfl, -⟩ := List.cons.inj same
      cases letter
  · next same =>
      obtain ⟨rfl, rfl⟩ := List.cons.inj same
      rw [if_pos letter]

/-- **A reference is a name and something behind it**, of which a semicolon is dropped. -/
theorem readReference?_eq_some (h : readReference? s = some (name, rest)) : IsReferenceName name ∧
    ∃ c behind, s = name ++ c :: behind ∧ rest = dropSemicolon (c :: behind) := by
  unfold readReference? at h
  split at h
  · cases h
  · rw [Option.map_eq_some_iff] at h
    obtain ⟨⟨number, behind⟩, read, same⟩ := h
    cases same
    obtain ⟨isNumber, c, tail, rfl, left⟩ := readCharacterReference?_eq_some read
    exact ⟨Or.inl ⟨number, rfl, isNumber⟩, c, tail, rfl, left⟩
  · next c body _ =>
      split at h
      · next letter =>
          obtain ⟨⟨tail, rfl, inside⟩, behind⟩ := readEntity?_eq_some letter h
          exact ⟨Or.inr ⟨c, tail, rfl, letter, inside⟩, behind⟩
      · cases h

theorem IsReferenceName.ne_nil (h : IsReferenceName name) : name ≠ [] := by
  rcases h with ⟨_, rfl, -⟩ | ⟨_, _, rfl, -⟩ <;> exact List.cons_ne_nil _ _

/-- No name of a reference holds an ampersand. -/
theorem IsReferenceName.not_mem (h : IsReferenceName name) : '&' ∉ name := by
  have outside {p : Char → Bool} (other : p '&' = false) {u : Text} (inside : ∀ d ∈ u, p d = true) :
      '&' ∉ u := by
    intro member
    rw [inside '&' member] at other
    cases other
  rcases h with ⟨number, rfl, ⟨-, digits⟩ | ⟨x, digits, rfl, mark, -, hex⟩⟩ |
    ⟨c, tail, rfl, letter, inside⟩
  · simpa using outside (by decide) digits
  · have plain := outside (by decide) hex
    rcases mark with rfl | rfl <;> simpa using plain
  · have plain := outside (by decide) inside
    rw [List.mem_cons, not_or]
    refine ⟨?_, plain⟩
    rintro rfl
    cases letter

/-! ## References with semicolons -/

/-- Whatever reference stands behind an `&`, a semicolon ends it. -/
def Terminated (body : Text) : Prop :=
  ∀ name rest, readReference? body = some (name, rest) → body = name ++ ';' :: rest

theorem readCharacterReference?_of_isNumber {number : Text} (isNumber : IsNumber number)
    (s : Text) : readCharacterReference? (number ++ ';' :: s) = some (number, s) := by
  have read : readNumber? (number ++ ';' :: s) = some (number, ';' :: s) := by
    rcases isNumber with ⟨filled, digits⟩ | ⟨x, digits, rfl, mark, filled, hex⟩
    · simp [readNumber?, run_of_forall digits (show Text.isDigit ';' = false by decide) s, filled]
    · have undecimal : Text.isDigit x = false := by rcases mark with rfl | rfl <;> decide
      have outside : Text.isHexDigit ';' = false := by decide
      have empty : (Text.run Text.isDigit (x :: (digits ++ ';' :: s))).1 = [] := by
        simp [Text.run, undecimal]
      simp [readNumber?, empty, run_of_forall hex outside s, filled, mark]
  have stands : Text.isHexDigit ';' = false := by decide
  simp [readCharacterReference?, read, stands, dropSemicolon]

/-- A name without hyphens and full stops is taken only when its end is in view. -/
theorem inView_of_readEntity? {unseen : Text} (hyphen : '-' ∉ name) (stop : '.' ∉ name)
    (split : body ++ unseen = name ++ ';' :: s) {found : Text × Text}
    (h : readEntity? body = some found) : (Text.run isEntityName body).2 ≠ [] := by
  intro toEnd
  obtain ⟨mark, tail, -, atEnd⟩ := atEnd_of_readEntity? toEnd h
  have member : mark ∈ body := atEnd.split ▸ List.mem_append_right _ List.mem_cons_self
  -- the semicolon is not in view, and so the mark stands in the name
  have inside : mark ∈ name := by
    rcases List.append_eq_append_iff.mp split with ⟨between, rfl, -⟩ | ⟨between, rfl, left⟩
    · exact List.mem_append_left _ member
    · rcases List.mem_append.mp member with inside | inside
      · exact inside
      · cases between with
        | nil => cases inside
        | cons c between =>
            obtain ⟨rfl, -⟩ := List.cons.inj left
            have semicolon := atEnd.name ';' (List.mem_append_right _ List.mem_cons_self)
            exact absurd semicolon (by decide)
  have ends := atEnd.ends
  simp only [endsEntity, Bool.or_eq_true, beq_iff_eq] at ends
  rcases ends with rfl | rfl
  · exact hyphen inside
  · exact stop inside

theorem readReference?_of_isReferenceName (isName : IsReferenceName name) (s : Text) :
    readReference? (name ++ ';' :: s) = some (name, s) := by
  rcases isName with ⟨number, rfl, isNumber⟩ | ⟨c, tail, rfl, letter, inside⟩
  · simp [readReference?, readCharacterReference?_of_isNumber isNumber]
  · have all : ∀ d ∈ c :: tail, isEntityName d = true :=
      List.forall_mem_cons.mpr ⟨isEntityName_of_isLetter letter, inside⟩
    rw [List.cons_append, readReference?_of_isLetter letter, ← List.cons_append, readEntity?,
      run_of_forall all (by decide)]
    rfl

theorem readReference?_append (more : Text)
    (inView : ∀ found, readEntity? body = some found → (Text.run isEntityName body).2 ≠ [])
    (h : readReference? body = some (name, rest)) :
    readReference? (body ++ more) = some (name, rest ++ more) := by
  unfold readReference? at h
  split at h
  · cases h
  · rw [Option.map_eq_some_iff] at h
    obtain ⟨⟨number, behind⟩, read, same⟩ := h
    cases same
    simp [readReference?, readCharacterReference?_append more read]
  · split at h
    · next letter =>
        rw [List.cons_append, readReference?_of_isLetter letter, ← List.cons_append]
        exact readEntity?_append more (inView _ h) h
    · cases h

/-- **A name without hyphens and full stops is not taken before its semicolon**, however much of it
is in view. -/
theorem terminated_of_semicolon {unseen : Text} (isName : IsReferenceName name)
    (hyphen : '-' ∉ name) (stop : '.' ∉ name) (split : body ++ unseen = name ++ ';' :: s) :
    Terminated body := by
  intro found rest read
  have inView (whole : Text × Text) (entity : readEntity? body = some whole) :
      (Text.run isEntityName body).2 ≠ [] := inView_of_readEntity? hyphen stop split entity
  have longer := readReference?_append unseen inView read
  rw [split, readReference?_of_isReferenceName isName] at longer
  obtain ⟨-, c, behind, rfl, rfl⟩ := readReference?_eq_some read
  cases longer
  rw [List.append_assoc] at split
  obtain ⟨rfl, -⟩ := List.cons.inj (List.append_cancel_left split)
  rfl

/-- Where no name of a reference can start, none has to be ended. -/
theorem terminated_of_head? (h : ∀ c, body.head? = some c → c ≠ '#' ∧ Text.isLetter c = false) :
    Terminated body := by
  intro name rest read
  unfold readReference? at read
  split at read
  · cases read
  · exact absurd rfl (h '#' rfl).1
  · next c body _ =>
      rw [(h c rfl).2] at read
      cases read

/-! ## Ampersands that are passed -/

/-- **A reader with the text in view does not stay at the `&` in front of it**, unless the text is
the start of a name: something stands there, and `#` starts a reference or stands before a
semicolon. -/
def Passed (s : Text) : Prop :=
  s ≠ [] ∧ ∀ body, s = '#' :: body → readCharacterReference? body ≠ none ∨ ';' ∈ body

theorem Passed.append (h : Passed s) (more : Text) : Passed (s ++ more) := by
  refine ⟨List.append_ne_nil_of_left_ne_nil h.1 more, fun body split => ?_⟩
  cases s with
  | nil => exact absurd rfl h.1
  | cons c s =>
      obtain ⟨rfl, rfl⟩ := List.cons.inj split
      refine (h.2 s rfl).imp (fun read => ?_) (List.mem_append_left _)
      obtain ⟨⟨number, rest⟩, read⟩ := Option.ne_none_iff_exists'.mp read
      simp [readCharacterReference?_append more read]

theorem passed_of_readReference? (h : readReference? s = some (name, rest)) : Passed s := by
  refine ⟨?_, fun body split => Or.inl fun none => ?_⟩
  · rintro rfl
    cases h
  · subst split
    rw [readReference?, none] at h
    cases h

theorem moveReference_of_reference (h : readReference? s = some (name, rest)) :
    moveReference false s = .advance [.text ('&' :: name ++ [';'])] rest none := by
  unfold readReference? at h
  split at h
  · cases h
  · rw [Option.map_eq_some_iff] at h
    obtain ⟨⟨number, behind⟩, read, same⟩ := h
    cases same
    simp only [moveReference, read]
  · next c body hash =>
      split at h
      · next letter =>
          have other : c ≠ '#' := by
            rintro rfl
            cases letter
          rw [Place.moveReference_named other, if_pos letter, h]
      · cases h

namespace Place

variable {symbols : List Symbol} {q : Place}

/-- A reference is spelled with a semicolon. -/
theorem steps_reference (h : readReference? body = some (name, rest)) :
    (⟨none, '&' :: body⟩ : Place).Steps (chars ('&' :: name ++ [';'])) ⟨none, rest⟩ := by
  rw [Steps, next_reference, moveReference_of_reference h]
  simp [Move.next?]

/-- **What a reader does at an ampersand**: it takes a reference, or it takes the ampersand as text,
with a `#` behind it if one stands there, or it waits, and then it stays or has the start of a name
in view. -/
theorem reference_cases (body : Text) :
    (∃ name rest, readReference? body = some (name, rest)) ∨
    (Passed body ∧ ∃ mark rest, (mark = [] ∨ mark = ['#']) ∧ body = mark ++ rest ∧
      (⟨none, '&' :: body⟩ : Place).Steps (chars ('&' :: mark)) ⟨none, rest⟩) ∨
    ((⟨none, '&' :: body⟩ : Place).Waits ∧ (Passed body → ∀ c ∈ body, isEntityName c = true)) := by
  cases read : readReference? body with
  | some found => exact Or.inl ⟨found.1, found.2, rfl⟩
  | none =>
      right
      cases body with
      | nil => exact Or.inr ⟨rfl, fun passed => absurd rfl passed.1⟩
      | cons c body =>
          by_cases hash : c = '#'
          · subst hash
            rw [readReference?, Option.map_eq_none_iff] at read
            by_cases semicolon : ';' ∈ body
            · refine Or.inl ⟨⟨List.cons_ne_nil _ _, ?_⟩, ['#'], body, Or.inr rfl, rfl, ?_⟩
              · rintro _ ⟨⟩
                exact Or.inr semicolon
              · exact next_of_stray ⟨rfl, read, semicolon⟩
            · refine Or.inr ⟨?_, fun passed => ?_⟩
              · rw [Waits, next_reference]
                simp [moveReference, read, semicolon, Move.next?]
              · rcases passed.2 body rfl with found | inside
                · exact absurd read found
                · exact absurd inside semicolon
          · have passed : Passed (c :: body) := by
              refine ⟨List.cons_ne_nil _ _, fun _ same => ?_⟩
              exact absurd (List.cons.inj same).1 hash
            cases letter : Text.isLetter c with
            | false =>
                refine Or.inl ⟨passed, [], c :: body, Or.inl rfl, rfl, ?_⟩
                rw [Steps, next_reference, moveReference_named hash, letter]
                rfl
            | true =>
                rw [readReference?_of_isLetter letter] at read
                refine Or.inr ⟨?_, fun _ => forall_isEntityName_of_readEntity? read⟩
                rw [Waits, next_reference, moveReference_named hash, letter, read]
                rfl

end Place

end PageAssembly.Markup
