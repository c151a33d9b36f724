import PageAssembly.Proofs.Markup.Extension

/-!
# More text behind a start tag

A start tag with its end in view need not stay as it is: a quote that was taken back gets its
closing quote from the text behind.  Then the tag goes on into that text, however much more follows.

## Main statements

* `StartTag.read_append` — more text leaves a tag as it is, or the tag goes on into it
* `StartTag.read_append_of_broken` — a broken tag stays as it is
-/

namespace PageAssembly.Markup

variable {s rest : Text} (more : Text)

/-! ## Gaps -/

theorem readGapFrom_append {taken : Text} (h : (readGapFrom taken s).2 ≠ []) :
    readGapFrom taken (s ++ more) =
      ((readGapFrom taken s).1, (readGapFrom taken s).2 ++ more) := by
  induction s generalizing taken with
  | nil => exact absurd rfl h
  | cons c s ih =>
      rw [readGapFrom] at h
      by_cases gap : (Text.isBlank c || (c == '/' && s.head? != some '>')) = true
      · rw [if_pos gap] at h
        -- the character behind decides about a slash, and a gap that ends has one behind it
        have longer : (Text.isBlank c || (c == '/' && (s ++ more).head? != some '>')) = true := by
          cases s with
          | nil => exact absurd rfl h
          | cons d s => exact gap
        rw [List.cons_append, readGapFrom, if_pos longer, readGapFrom, if_pos gap]
        exact ih h
      · have longer : ¬ (Text.isBlank c || (c == '/' && (s ++ more).head? != some '>')) = true := by
          cases s with
          | nil =>
              simp only [List.head?_nil, Bool.or_eq_true, Bool.and_eq_true, not_or,
                not_and] at gap ⊢
              exact ⟨gap.1, fun slash => absurd (by decide) (gap.2 slash)⟩
          | cons d s => exact gap
        rw [List.cons_append, readGapFrom, if_neg longer, readGapFrom, if_neg gap]
        rfl

theorem readGap_append (h : (readGap s).2 ≠ []) :
    readGap (s ++ more) = ((readGap s).1, (readGap s).2 ++ more) :=
  readGapFrom_append more h

theorem length_readGap_le (s : Text) : (readGap s).2.length ≤ s.length := by
  have written := congrArg List.length (readGap_written s)
  rw [List.length_append] at written
  omega

/-! ## Attributes -/

theorem readQuoted?_append {value : Text} (h : readQuoted? s = some (value, rest)) :
    readQuoted? (s ++ more) = some (value, rest ++ more) := by
  cases s with
  | nil => cases h
  | cons q body =>
      rw [readQuoted?] at h
      split at h
      · next quote =>
          rw [Option.map_eq_some_iff] at h
          obtain ⟨⟨inner, tail⟩, through, same⟩ := h
          cases same
          rw [List.cons_append, readQuoted?, if_pos quote, Text.through?_append more through]
          rfl
      · cases h

/-- A quote that is closed only by more text is closed inside that text. -/
theorem length_le_of_readQuoted?_append {value : Text} (filled : s ≠ [])
    (unclosed : readQuoted? s = none) (h : readQuoted? (s ++ more) = some (value, rest)) :
    rest.length ≤ more.length := by
  cases s with
  | nil => exact absurd rfl filled
  | cons q body =>
      rw [List.cons_append, readQuoted?] at h
      rw [readQuoted?] at unclosed
      split at h
      · next quote =>
          rw [if_pos quote, Option.map_eq_none_iff, Text.through?,
            Option.map_eq_none_iff] at unclosed
          have outside : q ∉ body := by
            intro inside
            obtain ⟨before, rest, cut⟩ := Text.exists_cut? inside
            rw [unclosed] at cut
            cases cut
          simp only [Text.through?, Option.map_eq_some_iff, Prod.exists, Prod.mk.injEq] at h
          obtain ⟨_, tail, ⟨before, _, cut, rfl, rfl⟩, rfl, rfl⟩ := h
          -- the text up to the quote is cut inside `more`, for none stands in `body`
          have written := Text.cut?_eq_some cut
          rw [List.append_assoc, List.append_eq_append_iff] at written
          rcases written with ⟨between, rfl, written⟩ | ⟨between, rfl, written⟩
          · rw [written]
            simp only [List.length_append]
            omega
          · cases between with
            | nil =>
                rw [List.nil_append] at written
                rw [← written]
                simp
            | cons c between =>
                cases written
                exact absurd (by simp) outside
      · cases h

/-- A quote occurs in the text. -/
def HasQuote (s : Text) : Prop := ∃ c ∈ s, isQuote c = true

theorem HasQuote.mono (quote : HasQuote rest) (inside : rest ⊆ s) : HasQuote s := by
  obtain ⟨c, member, same⟩ := quote
  exact ⟨c, inside member, same⟩

theorem hasQuote_of_readQuoted?_append {read : Text × Text} (filled : s ≠ [])
    (h : readQuoted? (s ++ more) = some read) : HasQuote s := by
  cases s with
  | nil => exact absurd rfl filled
  | cons q body =>
      rw [List.cons_append, readQuoted?] at h
      split at h
      · next quote => exact ⟨q, List.mem_cons_self, quote⟩
      · cases h

theorem readGap_eq_nil_of_blank (h : ∀ c ∈ s, Text.isBlank c = true) : (readGap s).2 = [] := by
  have step (taken : Text) : (readGapFrom taken s).2 = [] := by
    induction s generalizing taken with
    | nil => rfl
    | cons c s ih =>
        rw [List.forall_mem_cons] at h
        rw [readGapFrom, if_pos (by rw [h.1]; rfl)]
        exact ih h.2 (c :: taken)
  exact step []

/-- The value behind equals signs, with the blanks around them. -/
def valueBehind (s before equals blanks behind : Text) : Text × Text × Text :=
  match readQuoted? behind with
  | some (value, rest) => (before ++ equals ++ blanks, value, rest)
  | none =>
    if !startsQuoted behind then
      (before ++ equals ++ blanks, (Text.run isBare behind).1, (Text.run isBare behind).2)
    else if !blanks.isEmpty then (before ++ equals ++ blanks, [], behind)
    else if equals.length = 1 then ([], [], s)
    else (before ++ equals.dropLast, '=' :: (Text.run isBare behind).1, (Text.run isBare behind).2)

/-- The value with its runs named: blanks, equals signs and blanks. -/
theorem readValue_eq {before equals blanks : Text × Text}
    (hbefore : Text.run Text.isBlank s = before) (hequals : Text.run (· == '=') before.2 = equals)
    (hblanks : Text.run Text.isBlank equals.2 = blanks) :
    readValue s = if equals.1.isEmpty then ([], [], s)
      else valueBehind s before.1 equals.1 blanks.1 blanks.2 := by
  rw [← hblanks, ← hequals, ← hbefore]
  rfl

theorem startsQuoted_append (filled : s ≠ []) : startsQuoted (s ++ more) = startsQuoted s := by
  cases s with
  | nil => exact absurd rfl filled
  | cons c s => rfl

/-- Behind the equals signs a quote that was taken back may be closed by more text, and nothing else
changes. -/
theorem valueBehind_append {before equals blanks behind : Text} (filled : behind ≠ [])
    (h : (readGap (valueBehind s before equals blanks behind).2.2).2 ≠ []) :
    valueBehind (s ++ more) before equals blanks (behind ++ more) =
        ((valueBehind s before equals blanks behind).1,
          (valueBehind s before equals blanks behind).2.1,
          (valueBehind s before equals blanks behind).2.2 ++ more) ∨
      HasQuote behind ∧
        ∀ t later, (valueBehind t before equals blanks (behind ++ more ++ later)).2.2.length ≤
          (more ++ later).length := by
  cases quoted : readQuoted? behind with
  | some read =>
      obtain ⟨text, rest⟩ := read
      left
      rw [valueBehind, valueBehind, readQuoted?_append more quoted, quoted]
  | none =>
      cases quoted' : readQuoted? (behind ++ more) with
      | some read =>
          obtain ⟨text, rest⟩ := read
          refine Or.inr ⟨hasQuote_of_readQuoted?_append more filled quoted', fun t later => ?_⟩
          have inside := length_le_of_readQuoted?_append more filled quoted quoted'
          rw [valueBehind, readQuoted?_append later quoted']
          simp only [List.length_append]
          omega
      | none =>
          left
          have bare (left : (valueBehind s before equals blanks behind).2.2 =
              (Text.run isBare behind).2) : Text.run isBare (behind ++ more) =
                ((Text.run isBare behind).1, (Text.run isBare behind).2 ++ more) := by
            refine Text.run_append more fun empty => h ?_
            rw [left, empty]
            rfl
          simp only [valueBehind, quoted, quoted', startsQuoted_append more filled] at bare ⊢
          -- the rest of the value depends on the first character and on the run behind it
          by_cases unquoted : (!startsQuoted behind) = true
          · simp only [if_pos unquoted] at bare ⊢
            rw [bare trivial]
          · simp only [if_neg unquoted] at bare ⊢
            by_cases spaced : (!blanks.isEmpty) = true
            · simp only [if_pos spaced]
            · simp only [if_neg spaced] at bare ⊢
              by_cases single : equals.length = 1
              · simp only [if_pos single]
              · simp only [if_neg single] at bare ⊢
                rw [bare trivial]

/-- **More text leaves a value as it is, or the value goes on into it**: a quote that was taken back
is closed there. -/
theorem readValue_append (h : (readGap (readValue s).2.2).2 ≠ []) :
    readValue (s ++ more) = ((readValue s).1, (readValue s).2.1, (readValue s).2.2 ++ more) ∨
      HasQuote s ∧
        ∀ later, (readValue (s ++ more ++ later)).2.2.length ≤ (more ++ later).length := by
  obtain ⟨before, hbefore⟩ : ∃ before, Text.run Text.isBlank s = before := ⟨_, rfl⟩
  obtain ⟨equals, hequals⟩ : ∃ equals, Text.run (· == '=') before.2 = equals := ⟨_, rfl⟩
  obtain ⟨blanks, hblanks⟩ : ∃ blanks, Text.run Text.isBlank equals.2 = blanks := ⟨_, rfl⟩
  have value := readValue_eq hbefore hequals hblanks
  -- a run that more text could make longer leaves nothing behind, not even behind the gap
  have restBefore : before.2 ≠ [] := by
    intro empty
    rw [empty] at hequals
    have blank : ∀ c ∈ s, Text.isBlank c = true :=
      List.dropWhile_eq_nil_iff.mp ((congrArg Prod.snd hbefore).trans empty)
    rw [value, ← hequals] at h
    exact h (readGap_eq_nil_of_blank blank)
  have longerBefore (t : Text) : Text.run Text.isBlank (s ++ t) = (before.1, before.2 ++ t) := by
    rw [Text.run_append t (by rwa [hbefore]), hbefore]
  by_cases sign : equals.1.isEmpty = true
  · left
    have restEquals : equals.2 ≠ [] := by
      have written := Text.run_written (· == '=') before.2
      rw [hequals, List.isEmpty_iff.mp sign, List.nil_append] at written
      rwa [written]
    have longerEquals : Text.run (· == '=') (before.2 ++ more) = (equals.1, equals.2 ++ more) := by
      rw [Text.run_append more (by rwa [hequals]), hequals]
    rw [readValue_eq (longerBefore more) longerEquals rfl, value, if_pos sign, if_pos sign]
  · rw [if_neg sign] at value
    have restBlanks : blanks.2 ≠ [] := by
      intro empty
      rw [value, empty] at h
      exact h rfl
    have restEquals : equals.2 ≠ [] := by
      intro empty
      rw [empty] at hblanks
      rw [← hblanks] at restBlanks
      exact restBlanks rfl
    have longer (t : Text) : readValue (s ++ t) =
        valueBehind (s ++ t) before.1 equals.1 blanks.1 (blanks.2 ++ t) := by
      have longerEquals : Text.run (· == '=') (before.2 ++ t) = (equals.1, equals.2 ++ t) := by
        rw [Text.run_append t (by rwa [hequals]), hequals]
      have longerBlanks : Text.run Text.isBlank (equals.2 ++ t) = (blanks.1, blanks.2 ++ t) := by
        rw [Text.run_append t (by rwa [hblanks]), hblanks]
      rw [readValue_eq (longerBefore t) longerEquals longerBlanks, if_neg sign]
    rw [value] at h ⊢
    rw [longer]
    refine (valueBehind_append more restBlanks h).imp id fun onward => ⟨?_, fun later => ?_⟩
    · have suffix {p : Char → Bool} {t : Text} {read : Text × Text} (run : Text.run p t = read) :
          read.2 <:+ t := by
        rw [← run]
        exact List.dropWhile_suffix p
      exact onward.1.mono ((suffix hblanks).trans ((suffix hequals).trans (suffix hbefore))).subset
    · rw [List.append_assoc, longer, ← List.append_assoc s, ← List.append_assoc blanks.2]
      exact onward.2 _ later

/-- The attribute at the start of a text that may start one. -/
theorem readAttribute?_cons {previous c : Char}
    (starts : (precedesAttribute previous && startsAttribute c) = true) (s : Text) :
    readAttribute? previous (c :: s) =
      some (⟨c :: (Text.run isAttributeName s).1, (readValue (Text.run isAttributeName s).2).1,
          (readValue (Text.run isAttributeName s).2).2.1,
          (readGap (readValue (Text.run isAttributeName s).2).2.2).1⟩,
        (readGap (readValue (Text.run isAttributeName s).2).2.2).2) := by
  rw [readAttribute?, if_pos starts]

theorem readAttribute?_append_eq_none {previous : Char} (filled : s ≠ [])
    (h : readAttribute? previous s = none) : readAttribute? previous (s ++ more) = none := by
  cases s with
  | nil => exact absurd rfl filled
  | cons c s =>
      rw [readAttribute?] at h
      split at h
      · cases h
      · next starts => rw [List.cons_append, readAttribute?, if_neg starts]

theorem readAttribute?_append {previous : Char} {a : Attribute} (filled : rest ≠ [])
    (h : readAttribute? previous s = some (a, rest)) :
    readAttribute? previous (s ++ more) = some (a, rest ++ more) ∨
      HasQuote s ∧
        ∀ later, ∃ a' rest', readAttribute? previous (s ++ more ++ later) = some (a', rest') ∧
          rest'.length ≤ (more ++ later).length := by
  cases s with
  | nil => cases h
  | cons c s =>
      by_cases starts : (precedesAttribute previous && startsAttribute c) = true
      · rw [readAttribute?_cons starts] at h
        cases h
        have name : (Text.run isAttributeName s).2 ≠ [] := by
          intro empty
          rw [empty] at filled
          exact filled rfl
        rcases readValue_append more filled with same | ⟨quote, onward⟩
        · left
          rw [List.cons_append, readAttribute?_cons starts, Text.run_append more name]
          simp only
          rw [same, readGap_append more filled]
        · right
          have behind : (Text.run isAttributeName s).2 <:+ c :: s :=
            (List.dropWhile_suffix isAttributeName).trans (List.suffix_cons c s)
          refine ⟨quote.mono behind.subset, fun later => ?_⟩
          rw [List.cons_append, List.cons_append]
          refine ⟨_, _, readAttribute?_cons starts _, ?_⟩
          rw [List.append_assoc, Text.run_append _ name, ← List.append_assoc]
          exact (length_readGap_le _).trans (onward later)
      · rw [readAttribute?, if_neg starts] at h
        cases h

theorem length_readAttributesFrom_le (done : List Attribute) (previous : Char) (s : Text) :
    (readAttributesFrom done previous s).2.length ≤ s.length := by
  fun_induction readAttributesFrom done previous s with
  | case1 => exact Nat.le_refl _
  | case2 done previous s a rest h ih => exact ih.trans (length_lt_of_readAttribute? h).le

theorem readAttributesFrom_none {done : List Attribute} {previous : Char}
    (h : readAttribute? previous s = none) :
    readAttributesFrom done previous s = (done.reverse, s) := by
  rw [readAttributesFrom]
  split
  · rfl
  · next read =>
      rw [h] at read
      cases read

theorem readAttributesFrom_some {done : List Attribute} {previous : Char} {a : Attribute}
    (h : readAttribute? previous s = some (a, rest)) :
    readAttributesFrom done previous s =
      readAttributesFrom (a :: done) (a.written.getLastD previous) rest := by
  rw [readAttributesFrom]
  split
  · next read =>
      rw [h] at read
      cases read
  · next read =>
      rw [h] at read
      cases read
      rfl

theorem readAttributesFrom_append {done : List Attribute} {previous : Char}
    (filled : (readAttributesFrom done previous s).2 ≠ []) :
    readAttributesFrom done previous (s ++ more) =
        ((readAttributesFrom done previous s).1, (readAttributesFrom done previous s).2 ++ more) ∨
      HasQuote s ∧
        ∀ later, (readAttributesFrom done previous (s ++ more ++ later)).2.length ≤
          (more ++ later).length := by
  fun_induction readAttributesFrom done previous s with
  | case1 done previous s h =>
      left
      exact readAttributesFrom_none (readAttribute?_append_eq_none more filled h)
  | case2 done previous s a rest h ih =>
      have onward : rest ≠ [] := by
        rintro rfl
        rw [readAttributesFrom_none rfl] at filled
        exact filled rfl
      rcases readAttribute?_append more onward h with same | ⟨quote, longer⟩
      · rw [readAttributesFrom_some same]
        refine (ih filled).imp id fun further => ⟨?_, fun later => ?_⟩
        · have behind : rest <:+ s := ⟨a.written, readAttribute?_written h⟩
          exact further.1.mono behind.subset
        · have longer := List.append_ne_nil_of_left_ne_nil onward more
          rcases readAttribute?_append later longer same with same' | ⟨-, inside⟩
          · rw [readAttributesFrom_some same']
            exact further.2 later
          · obtain ⟨a', rest', read, short⟩ := inside []
            rw [List.append_nil] at read
            rw [readAttributesFrom_some read]
            refine (length_readAttributesFrom_le _ _ _).trans (short.trans ?_)
            rw [List.append_nil, List.length_append]
            omega
      · refine Or.inr ⟨quote, fun later => ?_⟩
        obtain ⟨a', rest', read, short⟩ := longer later
        rw [readAttributesFrom_some read]
        exact (length_readAttributesFrom_le _ _ _).trans short

/-! ## Where attributes stop -/

theorem getLastD_append_run {p : Char → Bool} {t : Text} (first : Text) (d : Char)
    (filled : (Text.run p t).1 ≠ []) : p ((first ++ (Text.run p t).1).getLastD d) = true := by
  obtain ⟨front, last, split⟩ := (List.eq_nil_or_concat _).resolve_left filled
  rw [List.concat_eq_append] at split
  have taken : p last = true := by
    refine List.mem_takeWhile_imp (l := t) ?_
    show last ∈ (Text.run p t).1
    rw [split]
    exact List.mem_append_right _ List.mem_cons_self
  rw [split, ← List.append_assoc, List.getLastD_concat]
  exact taken

theorem run_stop {p : Char → Bool} {c : Char} {t : Text} (h : (Text.run p s).2 = c :: t) :
    p c = false := by
  have first := List.head?_dropWhile_not p s
  rw [show s.dropWhile p = c :: t from h] at first
  exact first

theorem getLastD_readQuoted? {value : Text} (first : Text) (d : Char)
    (h : readQuoted? s = some (value, rest)) : isQuote ((first ++ value).getLastD d) = true := by
  cases s with
  | nil => cases h
  | cons q body =>
      rw [readQuoted?] at h
      split at h
      · next quote =>
          simp only [Text.through?, Option.map_eq_some_iff, Prod.exists, Prod.mk.injEq] at h
          obtain ⟨inner, tail, ⟨before, rest', cut, rfl, rfl⟩, rfl, rfl⟩ := h
          rw [← List.cons_append, ← List.append_assoc, List.getLastD_concat]
          exact quote
      · cases h

/-- Behind a value stands what stood before it, or what ends a value without quotes, or anything
when the value ends with a quote or a blank. -/
theorem readValue_stop {c : Char} {t : Text} (h : (readValue s).2.2 = c :: t) :
    s = c :: t ∨ isBare c = false ∨
      ∀ d, precedesAttribute (((readValue s).1 ++ (readValue s).2.1).getLastD d) = true := by
  obtain ⟨before, hbefore⟩ : ∃ before, Text.run Text.isBlank s = before := ⟨_, rfl⟩
  obtain ⟨equals, hequals⟩ : ∃ equals, Text.run (· == '=') before.2 = equals := ⟨_, rfl⟩
  obtain ⟨blanks, hblanks⟩ : ∃ blanks, Text.run Text.isBlank equals.2 = blanks := ⟨_, rfl⟩
  have value := readValue_eq hbefore hequals hblanks
  by_cases sign : equals.1.isEmpty = true
  · rw [value, if_pos sign] at h
    exact Or.inl h
  · rw [if_neg sign, valueBehind] at value
    cases quoted : readQuoted? blanks.2 with
    | some read =>
        obtain ⟨text, rest⟩ := read
        rw [quoted] at value
        refine Or.inr (Or.inr fun d => ?_)
        rw [value]
        simp only [precedesAttribute, getLastD_readQuoted? _ d quoted, Bool.true_or]
    | none =>
        rw [quoted] at value
        simp only at value
        by_cases unquoted : (!startsQuoted blanks.2) = true
        · rw [value, if_pos unquoted] at h
          exact Or.inr (Or.inl (run_stop h))
        · rw [if_neg unquoted] at value
          by_cases spaced : (!blanks.1.isEmpty) = true
          · rw [if_pos spaced] at value
            refine Or.inr (Or.inr fun d => ?_)
            have filled : (Text.run Text.isBlank equals.2).1 ≠ [] := by
              rw [hblanks]
              simpa using spaced
            have blank := getLastD_append_run (before.1 ++ equals.1) d filled
            rw [hblanks] at blank
            rw [value, List.append_nil]
            simp only [precedesAttribute, blank, Bool.or_true, Bool.true_or]
          · rw [if_neg spaced] at value
            by_cases single : equals.1.length = 1
            · rw [value, if_pos single] at h
              exact Or.inl h
            · rw [value, if_neg single] at h
              exact Or.inr (Or.inl (run_stop h))

theorem readGapFrom_stop {taken : Text} {c : Char} {t : Text}
    (h : (readGapFrom taken s).2 = c :: t) : Text.isBlank c = false := by
  induction s generalizing taken with
  | nil => cases h
  | cons d s ih =>
      rw [readGapFrom] at h
      split at h
      · exact ih h
      · next gap =>
          cases h
          simp only [Bool.or_eq_true, not_or, Bool.not_eq_true] at gap
          exact gap.1

theorem precedesAttribute_of_mem_readGapFrom {taken : Text}
    (inside : ∀ c ∈ taken, precedesAttribute c = true) :
    ∀ c ∈ (readGapFrom taken s).1, precedesAttribute c = true := by
  induction s generalizing taken with
  | nil => simpa [readGapFrom] using inside
  | cons d s ih =>
      rw [readGapFrom]
      split
      · next gap =>
          refine ih ?_
          rw [List.forall_mem_cons]
          refine ⟨?_, inside⟩
          simp only [Bool.or_eq_true, Bool.and_eq_true] at gap
          rcases gap with blank | slash
          · simp only [precedesAttribute, blank, Bool.or_true, Bool.true_or]
          · simp only [precedesAttribute, slash.1, Bool.or_true]
      · simpa using inside

theorem getLastD_append (first later : Text) (d : Char) :
    (first ++ later).getLastD d = later.getLastD (first.getLastD d) := by
  rcases List.eq_nil_or_concat later with rfl | ⟨front, last, rfl⟩
  · rw [List.append_nil]
    rfl
  · rw [List.concat_eq_append, ← List.append_assoc, List.getLastD_concat, List.getLastD_concat]

theorem StartTag.ending_cons {c : Char} (notEnd : c ≠ '>') (notSlash : c ≠ '/') (t : Text) :
    ending (c :: t) =
      if c == '=' || c == '/' || Text.isLetter c then .unfinished else .broken := by
  unfold ending
  split
  · next empty => cases empty
  · next same => exact absurd (List.cons.inj same).1 notEnd
  · next same => exact absurd (List.cons.inj same).1 notSlash
  · next same => rw [(List.cons.inj same).1]

theorem StartTag.exists_of_ending {t : Text} (h : ending t = .broken) :
    ∃ c t', t = c :: t' ∧ c ≠ '>' ∧ c ≠ '/' ∧
      (c == '=' || c == '/' || Text.isLetter c) = false := by
  cases t with
  | nil => cases h
  | cons c t =>
      have notEnd : c ≠ '>' := by
        rintro rfl
        cases h
      have notSlash : c ≠ '/' := by
        rintro rfl
        unfold ending at h
        split at h
        · cases h
        · cases h
        · cases h
        · next same =>
            rw [← (List.cons.inj same).1] at h
            cases h
      rw [ending_cons notEnd notSlash] at h
      refine ⟨c, t, rfl, notEnd, notSlash, ?_⟩
      split at h
      · cases h
      · next other => exact Bool.eq_false_iff.mpr other

/-- **Behind an attribute no tag is broken**: a character that could start an attribute stands only
behind one that an attribute may follow. -/
theorem ending_of_readAttribute? {previous : Char} {a : Attribute}
    (h : readAttribute? previous s = some (a, rest))
    (stop : readAttribute? (a.written.getLastD previous) rest = none) :
    StartTag.ending rest ≠ .broken := by
  intro broken
  obtain ⟨c, t, rfl, notEnd, notSlash, other⟩ := StartTag.exists_of_ending broken
  have notEquals : c ≠ '=' := by
    rintro rfl
    cases other
  cases s with
  | nil => cases h
  | cons c0 s =>
      by_cases starts : (precedesAttribute previous && startsAttribute c0) = true
      · rw [readAttribute?_cons starts] at h
        obtain ⟨written, left⟩ := Prod.mk.inj (Option.some.inj h)
        have blank : Text.isBlank c = false := readGapFrom_stop left
        have starts' : startsAttribute c = true := by
          simp [startsAttribute, blank, notEnd, notSlash]
        -- no attribute follows although `c` could start one, so none may follow what is before it
        have alone : precedesAttribute (a.written.getLastD previous) = false := by
          rw [readAttribute?] at stop
          split at stop
          · cases stop
          · next other => simpa [starts'] using other
        rw [← written, Attribute.written, getLastD_append] at alone
        -- the last character of the attribute is one of its gap, or of its value, or of its name
        cases gap : (readGap (readValue (Text.run isAttributeName s).2).2.2).1 with
        | cons d gap' =>
            have each : ∀ c ∈ (readGap (readValue (Text.run isAttributeName s).2).2.2).1,
                precedesAttribute c = true :=
              precedesAttribute_of_mem_readGapFrom fun c inside => absurd inside List.not_mem_nil
            rw [gap] at each
            simp only [gap, List.getLastD_cons] at alone
            rw [each _ List.getLastD_mem_cons] at alone
            cases alone
        | nil =>
            have read := readGap_written (readValue (Text.run isAttributeName s).2).2.2
            rw [gap, left, List.nil_append] at read
            simp only [gap, List.append_assoc] at alone
            rw [List.getLastD_nil, getLastD_append] at alone
            rcases readValue_stop read.symm with name | bare | ends
            · have stopped := run_stop name
              simp [isAttributeName, starts', notEquals] at stopped
            · simp [isBare, blank, notEnd] at bare
            · rw [ends] at alone
              cases alone
      · rw [readAttribute?, if_neg starts] at h
        cases h

theorem ending_readAttributesFrom {done : List Attribute} {previous : Char} {a : Attribute}
    (h : readAttribute? previous s = some (a, rest)) :
    StartTag.ending (readAttributesFrom done previous s).2 ≠ .broken := by
  fun_induction readAttributesFrom done previous s generalizing a rest with
  | case1 done previous s none =>
      rw [none] at h
      cases h
  | case2 done previous s a' rest' h' ih =>
      cases next : readAttribute? (a'.written.getLastD previous) rest' with
      | none =>
          rw [readAttributesFrom_none next]
          exact ending_of_readAttribute? h' next
      | some read => exact ih next

/-! ## Tags -/

namespace StartTag

theorem ne_nil_of_broken (h : ending s = .broken) : s ≠ [] := by
  rintro rfl
  cases h

/-- Behind a name and a gap with their ends in view, more text is more text for the attributes. -/
theorem read_append_of_gap (more : Text)
    (restGap : (readGap (Text.run (fun c => !endsTagName c) s).2).2 ≠ []) :
    read (s ++ more) =
      let name := Text.run (fun c => !endsTagName c) s
      let gap := readGap name.2
      let attributes := readAttributes ((name.1 ++ gap.1).getLastD '<') (gap.2 ++ more)
      (⟨name.1, gap.1, attributes.1⟩, attributes.2) := by
  have restName : (Text.run (fun c => !endsTagName c) s).2 ≠ [] := by
    intro empty
    rw [empty] at restGap
    exact restGap rfl
  simp only [read, Text.run_append more restName, readGap_append more restGap]

theorem gap_ne_nil (filled : (read s).2 ≠ []) :
    (readGap (Text.run (fun c => !endsTagName c) s).2).2 ≠ [] := by
  intro empty
  simp only [read, readAttributes, empty] at filled
  rw [readAttributesFrom_none rfl] at filled
  exact filled rfl

/-- **More text leaves a tag as it is, or the tag goes on into it**, and then no text behind it
brings the end of the tag back. -/
theorem read_append (filled : (read s).2 ≠ []) :
    read (s ++ more) = ((read s).1, (read s).2 ++ more) ∨
      HasQuote s ∧ ∀ later, (read (s ++ more ++ later)).2.length ≤ (more ++ later).length := by
  have restGap := gap_ne_nil filled
  rcases readAttributesFrom_append more filled with same | ⟨quote, onward⟩
  · left
    have longer := read_append_of_gap more restGap
    simp only [readAttributes] at longer
    rw [same] at longer
    exact longer
  · right
    have behindName := List.dropWhile_suffix (l := s) fun c => !endsTagName c
    have behindGap : (readGap (Text.run (fun c => !endsTagName c) s).2).2 <:+
        (Text.run (fun c => !endsTagName c) s).2 := ⟨_, readGap_written _⟩
    refine ⟨quote.mono (behindGap.trans behindName).subset, fun later => ?_⟩
    have longer := read_append_of_gap (more ++ later) restGap
    rw [List.append_assoc, longer]
    have short := onward later
    rw [List.append_assoc] at short
    exact short

/-- **A broken tag stays as it is**, for it has no attributes. -/
theorem read_append_of_broken (broken : ending (read s).2 = .broken) :
    read (s ++ more) = ((read s).1, (read s).2 ++ more) := by
  have restGap := gap_ne_nil (ne_nil_of_broken broken)
  have alone : readAttribute? (((Text.run (fun c => !endsTagName c) s).1 ++
      (readGap (Text.run (fun c => !endsTagName c) s).2).1).getLastD '<')
      (readGap (Text.run (fun c => !endsTagName c) s).2).2 = none := by
    rw [Option.eq_none_iff_forall_ne_some]
    rintro ⟨a, rest⟩ h
    exact ending_readAttributesFrom h broken
  have here := read_append_of_gap [] restGap
  have longer := read_append_of_gap more restGap
  simp only [readAttributes, List.append_nil] at here longer
  rw [readAttributesFrom_none alone] at here
  rw [readAttributesFrom_none (readAttribute?_append_eq_none more restGap alone)] at longer
  rw [here, longer]

theorem ending_append_of_broken (h : ending s = .broken) : ending (s ++ more) = .broken := by
  obtain ⟨c, t, rfl, notEnd, notSlash, other⟩ := exists_of_ending h
  rw [List.cons_append, ending_cons notEnd notSlash, other]
  rfl

end StartTag

end PageAssembly.Markup
