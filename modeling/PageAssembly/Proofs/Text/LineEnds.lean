import PageAssembly.Text.Lines

/-!
# Line ends

A text without carriage returns is cut behind each character that ends a line and nowhere else, so
the number of lines before a place is the number of line ends before it.

## Main definitions

* `Text.Lined` — lines that each end where they are cut

## Main statements

* `Text.lined_splitLines` — a text without carriage returns is cut behind its line ends
* `Text.Lined.countP_before` — the lines before a place, counted by their ends
* `Stored.return_notMem_of_whole` — a text that was read has no carriage return

### Carriage returns

A carriage return and a line feed end one line together, so line ends cannot be counted one by one
where carriage returns occur.  Reading a file turns them into line feeds.
-/

namespace PageAssembly

namespace Text

/-! ## Lines and their ends -/

/-- **Lines that each end where they are cut.** -/
inductive Lined : List Text → Prop
  /-- No line is left. -/
  | none : Lined []
  /-- The last line has no end. -/
  | last {line : Text} : line.countP endsLine = 0 → Lined [line]
  /-- A line has its end behind it. -/
  | ended {body : Text} {stop : Char} {lines : List Text} : body.countP endsLine = 0 →
      endsLine stop = true → Lined lines → Lined ((body ++ [stop]) :: lines)

theorem splitLinesFrom_append (done more : List Text) (seen s : Text) :
    splitLinesFrom (done ++ more) seen s = more.reverse ++ splitLinesFrom done seen s := by
  fun_induction splitLinesFrom done seen s with
  | case1 done seen =>
      rw [splitLinesFrom]
      split <;> simp
  | case2 done seen s ih =>
      rw [splitLinesFrom]
      exact ih
  | case3 done seen c s other ends ih =>
      rw [splitLinesFrom.eq_3 _ _ _ _ other, if_pos ends]
      exact ih
  | case4 done seen c s other inside ih =>
      rw [splitLinesFrom.eq_3 _ _ _ _ other, if_neg inside]
      exact ih

/-- What is left of a text is cut behind its line ends. -/
theorem lined_splitLinesFrom {seen s : Text} (plain : '\r' ∉ s)
    (unended : seen.countP endsLine = 0) : Lined (splitLinesFrom [] seen s) := by
  induction s generalizing seen with
  | nil =>
      rw [splitLinesFrom]
      split
      · exact .none
      · exact .last (by rwa [List.countP_reverse])
  | cons c s ih =>
      rw [List.mem_cons, not_or] at plain
      have other : ∀ s', c = '\r' → s = '\n' :: s' → False := fun _ h _ => plain.1 h.symm
      rw [splitLinesFrom.eq_3 _ _ _ _ other]
      split
      · next ends =>
          have first : splitLinesFrom [(c :: seen).reverse] [] s =
              (seen.reverse ++ [c]) :: splitLinesFrom [] [] s := by
            rw [← List.reverse_cons]
            exact splitLinesFrom_append [] [_] [] s
          rw [first]
          exact .ended (by rwa [List.countP_reverse]) ends (ih plain.2 List.countP_nil)
      · next inside =>
          exact ih plain.2 ((List.countP_cons_of_neg inside).trans unended)

/-- **A text without carriage returns is cut behind its line ends**, and nowhere else. -/
theorem lined_splitLines {s : Text} (plain : '\r' ∉ s) : Lined (splitLines s) :=
  lined_splitLinesFrom plain List.countP_nil

/-- **The lines before a place, counted by their ends.**  The place is on a line, in front of some
part of it. -/
theorem Lined.countP_before {lines front back : List Text} {line head tail : Text}
    (lined : Lined lines) (split : lines = front ++ line :: back) (place : line = head ++ tail)
    (inside : tail ≠ []) : (front.flatten ++ head).countP endsLine = front.length := by
  induction lined generalizing front with
  | none => exact absurd split.symm (by simp)
  | @last only unended =>
      cases front with
      | nil =>
          obtain rfl : only = line := (List.cons.inj split).1
          rw [place, List.countP_append] at unended
          exact Nat.eq_zero_of_add_eq_zero_right unended
      | cons first front => exact absurd (List.cons.inj split).2.symm (by simp)
  | @ended body stop lines unended ends lined ih =>
      cases front with
      | nil =>
          obtain rfl : body ++ [stop] = line := (List.cons.inj split).1
          -- the place is in front of the line's end
          obtain ⟨tail, last, rfl⟩ := (List.eq_nil_or_concat tail).resolve_left inside
          rw [List.concat_eq_append, ← List.append_assoc] at place
          obtain ⟨rfl, -⟩ := List.append_inj' place rfl
          rw [List.countP_append] at unended
          exact Nat.eq_zero_of_add_eq_zero_right unended
      | cons first front =>
          obtain ⟨rfl, rest⟩ := List.cons.inj split
          have later := ih rest
          rw [List.flatten_cons, List.append_assoc, List.countP_append, later, List.countP_append,
            unended, List.countP_singleton, if_pos ends, List.length_cons]
          omega

/-! ## Texts that were read -/

theorem return_notMem_unifyNewlinesFrom (done s : Text) (clean : '\r' ∉ done) :
    '\r' ∉ unifyNewlinesFrom done s := by
  fun_induction unifyNewlinesFrom done s with
  | case1 done => rwa [List.mem_reverse]
  | case2 done s ih => exact ih (by simpa using clean)
  | case3 done c s _ ih =>
      apply ih
      rw [List.mem_cons, not_or]
      refine ⟨?_, clean⟩
      split
      · decide
      · next other => exact fun same => other same.symm

end Text

/-- **A text that was read has no carriage return.** -/
theorem Stored.return_notMem_of_whole {bytes : List UInt8} {s : Text}
    (whole : Stored.whole bytes = .ok s) : '\r' ∉ s := by
  rw [Stored.whole] at whole
  split at whole
  · cases whole
    exact Text.return_notMem_unifyNewlinesFrom [] _ List.not_mem_nil
  · cases whole

end PageAssembly
