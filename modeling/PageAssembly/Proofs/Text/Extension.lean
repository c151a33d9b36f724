import PageAssembly.Text.Run
import PageAssembly.Text.Search

/-!
# More text behind a run or a search

What is found in a text with its end in view is found in the same way when more text follows.

## Main definitions

* `Text.Delimited` — a recogniser that needs a certain character and is not misled by the text
  behind it

## Main statements

* `Text.run_append` — a run that ends in a text ends there in every longer one
* `Text.search_append` — so does a search by a delimited recogniser
-/

namespace PageAssembly

namespace Text

/-! ## Runs and literals -/

theorem run_append {p : Char → Bool} {s : Text} (more : Text) (h : (run p s).2 ≠ []) :
    run p (s ++ more) = ((run p s).1, (run p s).2 ++ more) := by
  induction s with
  | nil => exact absurd rfl h
  | cons c s ih =>
      cases taken : p c with
      | false => simp [run, taken]
      | true =>
          have step (t : Text) : run p (c :: t) = (c :: (run p t).1, (run p t).2) := by
            simp [run, taken]
          rw [step] at h
          rw [List.cons_append, step, step, ih h]

theorem trimStart_append {s : Text} (more : Text) (h : s.trimStart ≠ []) :
    (s ++ more).trimStart = s.trimStart ++ more :=
  congrArg Prod.snd (run_append more h)

theorem after?_append {mark s rest : Text} (more : Text) (h : after? mark s = some rest) :
    after? mark (s ++ more) = some (rest ++ more) := by
  rw [after?_eq_some] at h ⊢
  rw [h, List.append_assoc]

/-- A literal that is not at the start of a text is not there in a longer one either, when the text
has a character that the literal has not. -/
theorem after?_append_eq_none {mark s : Text} {stop : Char} (more : Text) (inside : stop ∈ s)
    (outside : stop ∉ mark) (h : after? mark s = none) : after? mark (s ++ more) = none := by
  induction mark generalizing s with
  | nil => cases h
  | cons m mark ih =>
      cases s with
      | nil => cases inside
      | cons c s =>
          rw [List.mem_cons, not_or] at outside
          rw [after?] at h
          rw [List.cons_append, after?]
          by_cases same : m = c
          · rw [if_pos same] at h ⊢
            refine ih ((List.mem_cons.mp inside).resolve_left ?_) outside.2 h
            exact fun first => outside.1 (first.trans same.symm)
          · rw [if_neg same]

theorem after?_append_eq_map {mark s : Text} {stop : Char} (more : Text) (inside : stop ∈ s)
    (outside : stop ∉ mark) : after? mark (s ++ more) = (after? mark s).map (· ++ more) := by
  cases found : after? mark s with
  | none => exact after?_append_eq_none more inside outside found
  | some rest => exact after?_append more found

theorem mem_of_after? {mark s rest : Text} {stop : Char} (inside : stop ∈ s)
    (outside : stop ∉ mark) (h : after? mark s = some rest) : stop ∈ rest := by
  rw [after?_eq_some.mp h, List.mem_append] at inside
  exact inside.resolve_left outside

/-! ## Searches -/

/-- **A recogniser that one character delimits**: it succeeds only where the character stands, and
where the character stands no text behind changes its verdict. -/
structure Delimited {α : Type} (stop : Char) (more : Text) (extend : α → α)
    (found : Text → Option α) : Prop where
  /-- The character is needed. -/
  mem : ∀ s a, found s = some a → stop ∈ s
  /-- The character is enough. -/
  append : ∀ s, stop ∈ s → found (s ++ more) = (found s).map extend

/-- **A search that succeeds is not changed by more text**: a position that was passed over has the
delimiter behind it. -/
theorem search_append {α : Type} {stop : Char} {more s before : Text} {extend : α → α}
    {found : Text → Option α} {a : α} (delimited : Delimited stop more extend found)
    (h : search found s = some (before, a)) :
    search found (s ++ more) = some (before, extend a) := by
  have step (seen s : Text) (h : searchFrom found seen s = some (before, a)) :
      searchFrom found seen (s ++ more) = some (before, extend a) := by
    induction s generalizing seen with
    | nil =>
        simp only [searchFrom, Option.map_eq_some_iff] at h
        obtain ⟨b, hit, -⟩ := h
        cases delimited.mem [] b hit
    | cons c s ih =>
        rw [searchFrom] at h
        cases hit : found (c :: s) with
        | some b =>
            rw [hit] at h
            cases h
            have same := delimited.append (c :: s) (delimited.mem _ _ hit)
            rw [hit, List.cons_append] at same
            rw [List.cons_append, searchFrom, same]
            rfl
        | none =>
            rw [hit] at h
            obtain ⟨skipped, rest, -, rfl, hit'⟩ := searchFrom_eq_some h
            have inside := delimited.mem _ _ hit'
            -- the delimiter of the later success stands behind the position that was passed over
            have same := delimited.append (c :: (skipped ++ rest))
              (List.mem_cons_of_mem _ (List.mem_append_right _ inside))
            rw [hit, List.cons_append] at same
            rw [List.cons_append, searchFrom, same]
            exact ih (c :: seen) h
  exact step [] s h

theorem after?_singleton_append {m : Char} {s : Text} (more : Text) (filled : s ≠ []) :
    after? [m] (s ++ more) = (after? [m] s).map (· ++ more) := by
  cases s with
  | nil => exact absurd rfl filled
  | cons c s =>
      rw [List.cons_append]
      simp only [after?]
      split <;> rfl

theorem delimited_after? (stop : Char) (more : Text) :
    Delimited stop more (· ++ more) (after? [stop]) where
  mem s rest h := by
    rw [after?_eq_some.mp h]
    exact List.mem_cons_self
  append s inside := after?_singleton_append more (List.ne_nil_of_mem inside)

theorem cut?_append {stop : Char} {s before rest : Text} (more : Text)
    (h : cut? [stop] s = some (before, rest)) :
    cut? [stop] (s ++ more) = some (before, rest ++ more) := by
  have found := search_append (delimited_after? stop more) h
  exact found

theorem mem_of_cut? {stop : Char} {s before rest : Text} (h : cut? [stop] s = some (before, rest)) :
    stop ∈ s := by
  rw [cut?_eq_some h]
  simp

theorem exists_cut? {stop : Char} {s : Text} (inside : stop ∈ s) :
    ∃ before rest, cut? [stop] s = some (before, rest) := by
  have step (seen : Text) :
      ∃ before rest, searchFrom (after? [stop]) seen s = some (before, rest) := by
    induction s generalizing seen with
    | nil => cases inside
    | cons c s ih =>
        rw [searchFrom]
        by_cases same : stop = c
        · exact ⟨seen.reverse, s, by simp [after?, same]⟩
        · have none : after? [stop] (c :: s) = none := by simp [after?, same]
          rw [none]
          exact ih ((List.mem_cons.mp inside).resolve_left same) (c :: seen)
  exact step []

theorem through?_append {stop : Char} {s taken rest : Text} (more : Text)
    (h : through? stop s = some (taken, rest)) :
    through? stop (s ++ more) = some (taken, rest ++ more) := by
  rw [through?, Option.map_eq_some_iff] at h
  obtain ⟨⟨before, rest'⟩, cut, same⟩ := h
  cases same
  rw [through?, cut?_append more cut]
  rfl

end Text

end PageAssembly
