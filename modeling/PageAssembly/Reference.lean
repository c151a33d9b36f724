import PageAssembly.Text.Search

/-!
# References to components

A component is referred to by a self-closing tag whose name starts with `app-`.  This module finds
the names that a line refers to and divides the line into what stays as written and what is
replaced.

## Main definitions

* `Reference.tag` — the exact spelling that is replaced
* `Reference.segments` — a line cut at every `/>`
* `Reference.names` — the names referred to on a line, from left to right
* `Reference.Piece`, `Reference.pieces` — a line as literal text, replaced references and names
  whose exact spelling is absent

## Design notes

A candidate starts at a `<` that another character than `/` follows, and ends at the first `/>`
after it or at the end of the line.  All candidates between two terminators share the second one,
so a line is first cut at its terminators and the candidates of one segment all end where the
segment ends.  That keeps the search linear in the line, apart from the names it returns.

The search is lenient (blanks may follow the `<` and precede the `/>`), the replacement is exact:
a name is replaced only where its `Reference.tag` stands, which is why a line may mention a name
that no piece replaces.
-/

namespace PageAssembly.Reference

/-- The start of every component tag's name. -/
def marker : Text := ['a', 'p', 'p', '-']

/-- The end of a self-closing tag. -/
def terminator : Text := ['/', '>']

/-- The spelling of a reference to `name`. -/
def tag (name : Text) : Text := '<' :: marker ++ name ++ terminator

/-! ## Names on a line -/

/-- The cut behind `segments`: `done` holds finished segments and `seen` the current one, both in
reverse. -/
def segmentsFrom (done : List Text) (seen : Text) : Text → List Text
  | [] => (seen.reverse :: done).reverse
  | '/' :: '>' :: s => segmentsFrom (seen.reverse :: done) [] s
  | c :: s => segmentsFrom done (c :: seen) s

/-- The line cut at every `/>`, the terminators left out. -/
def segments (line : Text) : List Text := segmentsFrom [] [] line

/-- The name that a candidate at the very start of the text refers to; the text is what remains of
a segment. -/
def nameAt? : Text → Option Text
  | '<' :: c :: body =>
    if c = '/' then none else (Text.after? marker (Text.trimStart (c :: body))).map Text.trimEnd
  | _ => none

/-- The search behind `namesIn`; `found` is in reverse. -/
def namesFrom (found : List Text) : Text → List Text
  | [] => found.reverse
  | c :: s =>
    match nameAt? (c :: s) with
    | some name => namesFrom (name :: found) s
    | none => namesFrom found s

/-- The names of the candidates of one segment. -/
def namesIn (segment : Text) : List Text := namesFrom [] segment

theorem namesFrom_eq (found : List Text) (s : Text) :
    namesFrom found s = found.reverse ++ namesIn s := by
  induction s generalizing found with
  | nil => simp [namesFrom, namesIn]
  | cons c s ih =>
    rw [namesIn, namesFrom, namesFrom]
    cases nameAt? (c :: s) with
    | none => simpa [namesIn] using ih found
    | some name =>
      show namesFrom (name :: found) s = found.reverse ++ namesFrom [name] s
      rw [ih, ih [name]]
      simp

@[simp] theorem namesIn_nil : namesIn [] = [] := rfl

theorem namesIn_cons (c : Char) (s : Text) :
    namesIn (c :: s) = (nameAt? (c :: s)).toList ++ namesIn s := by
  rw [namesIn, namesFrom]
  cases nameAt? (c :: s) with
  | none => rfl
  | some name => exact namesFrom_eq [name] s

/-- The names referred to on a line, from left to right, repetitions kept. -/
def names (line : Text) : List Text := (segments line).flatMap namesIn

theorem length_segmentsFrom (done : List Text) (seen s : Text) :
    (segmentsFrom done seen s).flatten.length ≤ done.flatten.length + seen.length + s.length := by
  fun_induction segmentsFrom done seen s with
  | case1 done seen => simp [List.length_flatten, List.sum_reverse]
  | case2 done seen s ih =>
    simp only [List.flatten_cons, List.length_append, List.length_reverse, List.length_cons,
      List.length_nil] at ih ⊢
    omega
  | case3 done seen c s _ ih =>
    simp only [List.length_cons] at ih ⊢
    omega

theorem length_namesIn_le (segment : Text) : (namesIn segment).length ≤ segment.length := by
  induction segment with
  | nil => simp
  | cons c s ih =>
    rw [namesIn_cons, List.length_append, List.length_cons]
    cases nameAt? (c :: s) <;> simp <;> omega

/-- A line refers to no more names than it has characters. -/
theorem length_names_le (line : Text) : (names line).length ≤ line.length := by
  have h := length_segmentsFrom [] [] line
  have hs : ∀ segments : List Text,
      (segments.flatMap namesIn).length ≤ segments.flatten.length := by
    intro segments
    induction segments with
    | nil => simp
    | cons segment segments ih =>
      have := length_namesIn_le segment
      simp only [List.flatMap_cons, List.flatten_cons, List.length_append]
      omega
  exact Nat.le_trans (hs _) (by simpa [segments] using h)

/-! ## Pieces of a line -/

/-- What a line is made of. -/
inductive Piece where
  /-- Text that stays as written. -/
  | literal (text : Text)
  /-- A reference that is replaced by the component's markup. -/
  | reference (name : Text)
  /-- A name whose exact spelling does not occur after the last replaced reference. -/
  | untaken (name : Text)
  deriving DecidableEq, Repr

/-- The text that a piece takes up on its line. -/
def Piece.written : Piece → Text
  | .literal text => text
  | .reference name => tag name
  | .untaken _ => []

/-- Takes the names in turn, each at the leftmost place of its tag in what remains. -/
def piecesOf : List Text → Text → List Piece
  | [], rest => [.literal rest]
  | name :: names, rest =>
    match Text.cut? (tag name) rest with
    | none => .untaken name :: piecesOf names rest
    | some (before, after) => .literal before :: .reference name :: piecesOf names after

/-- The pieces of a line. -/
def pieces (line : Text) : List Piece := piecesOf (names line) line

theorem written_piecesOf (ns : List Text) (rest : Text) :
    (piecesOf ns rest).flatMap Piece.written = rest := by
  induction ns generalizing rest with
  | nil => simp [piecesOf, Piece.written]
  | cons name ns ih =>
    rw [piecesOf]
    split
    · simp [Piece.written, ih]
    · next before after h => simp [Piece.written, ih, Text.cut?_eq_some h]

/-- The pieces of a line spell the line. -/
theorem written_pieces (line : Text) : (pieces line).flatMap Piece.written = line :=
  written_piecesOf _ _

/-- The name that a piece is a replaced reference to. -/
def Piece.name? : Piece → Option Text
  | .reference name => some name
  | _ => none

/-- The names that a line replaces, from left to right. -/
def taken (line : Text) : List Text := (pieces line).filterMap Piece.name?

theorem mem_taken {line name : Text} :
    name ∈ taken line ↔ Piece.reference name ∈ pieces line := by
  rw [taken, List.mem_filterMap]
  constructor
  · rintro ⟨piece, hp, hn⟩
    cases piece <;> simp_all [Piece.name?]
  · intro h
    exact ⟨_, h, rfl⟩

theorem mem_names_of_mem_piecesOf {ns : List Text} {rest name : Text}
    (h : Piece.reference name ∈ piecesOf ns rest) : name ∈ ns := by
  induction ns generalizing rest with
  | nil => simp [piecesOf] at h
  | cons n ns ih =>
    rw [piecesOf] at h
    split at h
    · simp only [List.mem_cons, reduceCtorEq, false_or] at h
      exact List.mem_cons_of_mem _ (ih h)
    · simp only [List.mem_cons, reduceCtorEq, false_or, Piece.reference.injEq] at h
      rcases h with rfl | h
      · exact List.mem_cons_self
      · exact List.mem_cons_of_mem _ (ih h)

/-- A line replaces only names that it refers to. -/
theorem mem_names_of_mem_taken {line name : Text} (h : name ∈ taken line) : name ∈ names line :=
  mem_names_of_mem_piecesOf (mem_taken.1 h)

end PageAssembly.Reference
