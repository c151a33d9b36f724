import Mathlib.Data.List.Basic
import PageAssembly.Proofs.Reference.Names

/-!
# The names on a line, position by position

The plain description of the search: every candidate has its own terminator, looked for afresh from
the candidate on.  A search that keeps the terminator it found last finds the same names.

## Main definitions

* `Reference.closing` — the terminator of a candidate, looked for from the candidate on
* `Reference.nameBetween?` — the name of a candidate that ends at a given position
* `Reference.namesKeeping` — a search that looks for a terminator only behind the last one

## Main statements

* `Reference.names_eq_filterMap` — both searches find the names of the line

### Why a kept terminator is still the right one

A terminator that does not lie before a candidate was the first one from an earlier candidate on, so
there is none between the two candidates and it is the first one from the later candidate on as
well.
-/

namespace PageAssembly.Reference

/-! ## Positions -/

/-- The first position from `i` on and before `stop` at which `p` holds; `stop` when there is
none. -/
def firstFrom (p : Nat → Bool) (i stop : Nat) : Nat :=
  ((List.range' i (stop - i)).find? p).getD stop

/-- The first position from `i` on at which a terminator starts, or the end of the line. -/
def closing (text : Text) (i : Nat) : Nat :=
  firstFrom (fun j => terminator <+: text.drop j) i text.length

/-- The first position from `i` on at which no blank stands, or `close`. -/
def opening (text : Text) (i close : Nat) : Nat :=
  firstFrom (fun j => text[j]?.any fun c => !Text.isBlank c) i close

/-- A `<` that another character than `/` follows. -/
def IsCandidate (text : Text) (i : Nat) : Prop :=
  text[i]? = some '<' ∧ i + 1 < text.length ∧ text[i + 1]? ≠ some '/'

instance (text : Text) (i : Nat) : Decidable (IsCandidate text i) :=
  inferInstanceAs (Decidable (_ ∧ _))

/-- The positions of the candidates, from left to right. -/
def candidates (text : Text) : List Nat :=
  (List.range text.length).filter fun i => IsCandidate text i

/-- The name that a candidate at `i` refers to when it ends at `close`. -/
def nameBetween? (text : Text) (i close : Nat) : Option Text :=
  let start := opening text (i + 1) close
  if marker <+: text.extract start close then
    some (Text.trimEnd (text.extract (start + marker.length) close))
  else none

/-- The terminator of a candidate at `i`, looked for only when the one that is kept lies before the
candidate. -/
def closingKeeping (text : Text) (kept : Option Nat) (i : Nat) : Nat :=
  match kept with
  | some close => if close < i then closing text i else close
  | none => closing text i

/-- The names of the candidates at some positions; the terminator found last is kept. -/
def namesKeeping (text : Text) : (kept : Option Nat) → (positions : List Nat) → List Text
  | _, [] => []
  | kept, i :: positions =>
    let close := closingKeeping text kept i
    (nameBetween? text i close).toList ++ namesKeeping text (some close) positions

section FirstFrom

variable {p : Nat → Bool} {i stop : Nat}

theorem firstFrom_of_le (h : stop ≤ i) : firstFrom p i stop = stop := by
  rw [firstFrom, Nat.sub_eq_zero_of_le h]
  rfl

/-- The first position is here or from the next one on. -/
theorem firstFrom_of_lt (h : i < stop) :
    firstFrom p i stop = if p i then i else firstFrom p (i + 1) stop := by
  obtain ⟨n, hn⟩ : ∃ n, stop - i = n + 1 := ⟨stop - i - 1, by omega⟩
  have hn' : stop - (i + 1) = n := by omega
  rw [firstFrom, firstFrom, hn, hn', List.range'_succ, List.find?_cons]
  cases p i <;> rfl

/-- A first position stays the first one as long as it is not passed. -/
theorem firstFrom_eq_of_le {j : Nat} (hij : i ≤ j) (hj : j ≤ firstFrom p i stop)
    (hs : j ≤ stop) : firstFrom p j stop = firstFrom p i stop := by
  obtain ⟨n, rfl⟩ := Nat.exists_eq_add_of_le hij
  clear hij
  induction n with
  | zero => rfl
  | succ n ih =>
      have same := ih (by omega) (by omega)
      rw [firstFrom_of_lt (by omega)] at same
      -- the first position lies further on, so it was not found at the one before
      split at same
      · omega
      · exact same

end FirstFrom

/-! ## What a candidate extends over -/

section Extent

variable {text : Text} {i : Nat}

/-- The extent is cut off by the first terminator. -/
theorem closing_eq (h : i ≤ text.length) :
    closing text i = i + (extent (text.drop i)).length := by
  induction left : text.length - i generalizing i with
  | zero =>
      have ended : text.drop i = [] := List.drop_eq_nil_of_le (by omega)
      rw [closing, firstFrom_of_le (by omega), ended, extent, List.length_nil]
      omega
  | succ n ih =>
      have inside : i < text.length := by omega
      have rest := ih (i := i + 1) (by omega) (by omega)
      rw [closing] at rest
      rw [closing, firstFrom_of_lt inside, rest, List.drop_eq_getElem_cons inside]
      rcases extent_cons text[i] (text.drop (i + 1)) with
        ⟨s, slash, bracket, ended⟩ | ⟨inner, goes⟩
      · rw [ended, slash, bracket, if_pos (by simp [terminator])]
        rfl
      · rw [goes, if_neg, List.length_cons]
        · omega
        · rw [decide_eq_true_eq]
          rintro ⟨s, hs⟩
          simp only [terminator, List.cons_append, List.nil_append, List.cons.injEq] at hs
          exact inner s hs.1.symm hs.2.symm

theorem extent_isPrefix (s : Text) : extent s <+: s := by
  induction s with
  | nil => exact List.nil_prefix
  | cons c s ih =>
      rcases extent_cons c s with ⟨s', -, -, ended⟩ | ⟨-, goes⟩
      · rw [ended]
        exact List.nil_prefix
      · rw [goes]
        exact (List.prefix_cons_inj c).mpr ih

/-- The text from a position to its terminator is the extent there. -/
theorem extract_closing (h : i ≤ text.length) :
    text.extract i (closing text i) = extent (text.drop i) := by
  rw [closing_eq h, List.extract, Nat.add_sub_cancel_left]
  exact (List.prefix_iff_eq_take.mp (extent_isPrefix _)).symm

theorem extract_cons {close : Nat} (inside : i < text.length) (h : i < close) :
    text.extract i close = text[i] :: text.extract (i + 1) close := by
  have width : close - i = close - (i + 1) + 1 := by omega
  rw [List.extract, List.extract, width, List.drop_eq_getElem_cons inside, List.take_succ_cons]

/-- The text from the first position without a blank is the text without the blanks at its
start. -/
theorem extract_opening {close : Nat} (h : close ≤ text.length) :
    text.extract (opening text i close) close = Text.trimStart (text.extract i close) := by
  induction left : close - i generalizing i with
  | zero =>
      rw [opening, firstFrom_of_le (by omega), List.extract, List.extract, left, Nat.sub_self]
      rfl
  | succ n ih =>
      have inside : i < text.length := by omega
      have rest := ih (i := i + 1) (by omega)
      have first : text.extract i close = text[i] :: text.extract (i + 1) close :=
        extract_cons inside (by omega)
      rw [opening] at rest
      rw [opening, firstFrom_of_lt (by omega), first, Text.trimStart, List.dropWhile_cons,
        List.getElem?_eq_getElem inside, Option.any_some]
      cases blank : Text.isBlank text[i] with
      | true => exact rest
      | false => exact first

end Extent

/-! ## The names -/

/-- The names of a line, one position after the other. -/
theorem names_eq_range (text : Text) :
    names text = (List.range text.length).filterMap fun i => nameAt? (extent (text.drop i)) := by
  induction text with
  | nil => rfl
  | cons c s ih =>
      rw [names_cons, ih, List.length_cons, List.range_succ_eq_map, List.filterMap_cons,
        List.filterMap_map, List.drop_zero]
      cases nameAt? (extent (c :: s)) <;> rfl

theorem after?_eq_ite (mark s : Text) :
    Text.after? mark s = if mark <+: s then some (s.drop mark.length) else none := by
  split
  · next starts =>
      obtain ⟨rest, rfl⟩ := starts
      rw [Text.after?_eq_some, List.drop_left]
  · next no =>
      rw [Option.eq_none_iff_forall_ne_some]
      intro rest h
      exact no ⟨rest, (Text.after?_eq_some.mp h).symm⟩

/-- Neither of the first two characters of a candidate starts a terminator. -/
theorem extent_of_isCandidate {text : Text} {i : Nat} (candidate : IsCandidate text i) :
    ∃ c body, c ≠ '/' ∧ extent (text.drop i) = '<' :: c :: body ∧
      text.extract (i + 1) (closing text i) = c :: body := by
  obtain ⟨bracket, inside, next⟩ := candidate
  have here : i < text.length := by omega
  rw [List.getElem?_eq_getElem here, Option.some.injEq] at bracket
  rw [List.getElem?_eq_getElem inside, ne_eq, Option.some.injEq] at next
  have first : ∀ s', '<' = '/' → text[i + 1] :: text.drop (i + 1 + 1) = '>' :: s' → False :=
    fun _ h => absurd h (by decide)
  have spread : extent (text.drop i) = '<' :: text[i + 1] :: extent (text.drop (i + 1 + 1)) := by
    rw [List.drop_eq_getElem_cons here, bracket, List.drop_eq_getElem_cons inside,
      extent.eq_3 _ _ first, extent.eq_3 _ _ fun _ h => absurd h next]
  refine ⟨text[i + 1], _, next, spread, ?_⟩
  have whole := extract_closing (Nat.le_of_lt here)
  have ahead : i < closing text i := by
    rw [closing_eq (Nat.le_of_lt here), spread, List.length_cons]
    omega
  rw [spread, extract_cons here ahead, List.cons.injEq] at whole
  exact whole.2

theorem closing_le {text : Text} {i : Nat} (h : i ≤ text.length) :
    closing text i ≤ text.length := by
  have := (extent_isPrefix (text.drop i)).length_le
  rw [List.length_drop] at this
  rw [closing_eq h]
  omega

/-- A candidate has the name between it and its terminator. -/
theorem nameAt?_of_isCandidate {text : Text} {i : Nat} (candidate : IsCandidate text i) :
    nameAt? (extent (text.drop i)) = nameBetween? text i (closing text i) := by
  obtain ⟨c, body, next, spread, behind⟩ := extent_of_isCandidate candidate
  obtain ⟨-, inside, -⟩ := candidate
  have close : closing text i ≤ text.length := closing_le (by omega)
  rw [spread, nameAt?, if_neg next, ← behind, ← extract_opening close, after?_eq_ite, nameBetween?]
  split
  · rw [List.extract, List.extract, List.drop_take, List.drop_drop, Nat.sub_sub]
    rfl
  · rfl

/-- Elsewhere there is no name. -/
theorem nameAt?_of_not_isCandidate {text : Text} {i : Nat} (none : ¬ IsCandidate text i) :
    nameAt? (extent (text.drop i)) = .none := by
  by_cases here : i < text.length
  · rw [List.drop_eq_getElem_cons here]
    by_cases bracket : text[i] = '<'
    · by_cases inside : i + 1 < text.length
      · have slash : text[i + 1] = '/' := by
          by_contra other
          apply none
          refine ⟨?_, inside, ?_⟩
          · rw [List.getElem?_eq_getElem here, bracket]
          · rw [List.getElem?_eq_getElem inside, ne_eq, Option.some.injEq]
            exact other
        rw [bracket, extent.eq_3 _ _ fun _ h => absurd h (by decide),
          List.drop_eq_getElem_cons inside, slash]
        rcases extent_cons '/' (text.drop (i + 1 + 1)) with ⟨s, -, -, ended⟩ | ⟨-, goes⟩
        · rw [ended]
          rfl
        · rw [goes]
          rfl
      · rw [bracket, List.drop_eq_nil_of_le (by omega)]
        rfl
    · exact nameAt?_extent_of_ne _ bracket
  · rw [List.drop_eq_nil_of_le (by omega)]
    rfl

/-! ## Keeping the terminator -/

/-- **Step.**  A kept terminator that belongs to an earlier position is the candidate's own. -/
theorem closingKeeping_eq {text : Text} {kept : Option Nat} {i : Nat} (h : i ≤ text.length)
    (inv : ∀ close ∈ kept, ∃ k ≤ i, close = closing text k) :
    closingKeeping text kept i = closing text i := by
  cases kept with
  | none => rfl
  | some close =>
      obtain ⟨k, hk, rfl⟩ := inv close rfl
      rw [closingKeeping]
      split
      · rfl
      · next ahead => exact (firstFrom_eq_of_le hk (Nat.le_of_not_lt ahead) h).symm

/-- **Run.**  Over ascending positions the kept terminator is always the candidate's own. -/
theorem namesKeeping_eq {text : Text} {kept : Option Nat} {positions : List Nat}
    (ascending : positions.Pairwise (· < ·)) (inside : ∀ i ∈ positions, i ≤ text.length)
    (inv : ∀ close ∈ kept, ∀ i ∈ positions, ∃ k ≤ i, close = closing text k) :
    namesKeeping text kept positions =
      positions.filterMap fun i => nameBetween? text i (closing text i) := by
  induction positions generalizing kept with
  | nil => rfl
  | cons i positions ih =>
      rw [List.pairwise_cons] at ascending
      have own : closingKeeping text kept i = closing text i :=
        closingKeeping_eq (inside i List.mem_cons_self) fun close h =>
          inv close h i List.mem_cons_self
      have rest : namesKeeping text (some (closing text i)) positions =
          positions.filterMap fun i => nameBetween? text i (closing text i) := by
        refine ih ascending.2 (fun j hj => inside j (List.mem_cons_of_mem _ hj)) ?_
        rintro close ⟨⟩ j hj
        exact ⟨i, Nat.le_of_lt (ascending.1 j hj), rfl⟩
      rw [namesKeeping, own, rest, List.filterMap_cons]
      cases nameBetween? text i (closing text i) <;> rfl

/-- **The names of a line are those of its candidates, each read up to its own terminator**, and a
search that keeps the terminator it found last, as long as that does not lie before the candidate,
finds the same names in the same order. -/
theorem names_eq_filterMap (text : Text) :
    names text = ((candidates text).filterMap fun i => nameBetween? text i (closing text i)) ∧
      namesKeeping text none (candidates text) = names text := by
  have afresh : names text =
      (candidates text).filterMap fun i => nameBetween? text i (closing text i) := by
    rw [names_eq_range, candidates, List.filterMap_filter]
    apply List.filterMap_congr
    intro i _
    by_cases candidate : IsCandidate text i
    · rw [nameAt?_of_isCandidate candidate]
      simp [candidate]
    · rw [nameAt?_of_not_isCandidate candidate]
      simp [candidate]
  refine ⟨afresh, ?_⟩
  rw [afresh]
  apply namesKeeping_eq
  · exact List.pairwise_lt_range.filter _
  · intro i hi
    exact Nat.le_of_lt (List.mem_range.mp (List.mem_filter.mp hi).1)
  · rintro close ⟨⟩

end PageAssembly.Reference
