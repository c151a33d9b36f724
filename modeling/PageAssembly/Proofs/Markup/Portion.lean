import PageAssembly.Proofs.Markup.Chunking

/-!
# What the reader takes for what it reports

A reading with the source of every move kept beside its events.  The events are those of the reader,
and the sources make up the input.

## Main definitions

* `Markup.Portion` — a piece of the source and the events that are reported for it
* `Move.portion` — the portion of a move
* `Place.portions`, `Markup.portions` — the portions of one pass, and of chunked input

## Main statements

* `Markup.tokenize_of_portions` — the tokens of chunked input are those of its portions
* `Markup.flatMap_source_portions` — the portions make up the input
* `Markup.exists_move_of_mem_portions` — every portion is that of a move, or what is left at the end
-/

namespace PageAssembly.Markup

/-- **A piece of the source and the events that are reported for it.** -/
structure Portion where
  /-- The piece of the source. -/
  source : Text
  /-- The events reported for it. -/
  events : List Event
  deriving DecidableEq, Repr

/-- The symbols of a portion. -/
def Portion.symbols (portion : Portion) : List Symbol := spelling portion.events

theorem spelling_flatMap_events (found : List Portion) :
    spelling (found.flatMap Portion.events) = found.flatMap Portion.symbols :=
  List.flatMap_assoc

/-- The portion that a move takes from the front of a text. -/
def Move.portion (s : Text) (m : Move) : Portion :=
  ⟨s.take (s.length - m.rest.length), m.events⟩

/-- A move takes the front of its text. -/
theorem Move.source_portion {s front : Text} {m : Move} (split : s = front ++ m.rest) :
    (m.portion s).source = front := by
  rw [Move.portion, split, List.length_append, Nat.add_sub_cancel, List.take_left]

namespace Place

/-- The portions of one pass, and the place that it leads to. -/
def portions (closing : Bool) (p : Place) : Except Malformed (List Portion × Place) :=
  if p.rest = [] then .ok ([], p)
  else
    match _h : move closing p.raw p.rest with
    | .error e => .error e
    | .ok (.halt events rest) =>
      .ok ([Move.portion p.rest (.halt events rest)], ⟨p.raw, rest⟩)
    | .ok (.advance events rest raw) =>
      (portions closing ⟨raw, rest⟩).map fun read =>
        (Move.portion p.rest (.advance events rest raw) :: read.1, read.2)
termination_by p.rest.length
decreasing_by exact move_length_lt _h

/-- The portion that is left behind the last pass. -/
def remainder (p : Place) : Portion := ⟨p.rest, if p.raw = none then [.text p.rest] else []⟩

theorem symbols_remainder (p : Place) : p.remainder.symbols = p.leftover := by
  rw [Portion.symbols, remainder, leftover]
  split
  · simp
  · rfl

variable {closing : Bool} {p q : Place} {found : List Portion}

/-- **The events of a pass are those of its portions.** -/
theorem events_portions (closing : Bool) (p : Place) :
    Markup.pass closing p.raw p.rest =
      (p.portions closing).map fun read =>
        ⟨read.1.flatMap Portion.events, read.2.raw, read.2.rest⟩ := by
  fun_induction portions closing p with
  | case1 p empty =>
      rw [empty, pass_nil]
      simp [Except.map, empty]
  | case2 p filled e moved =>
      rw [pass_of_error filled moved]
      rfl
  | case3 p filled events rest moved =>
      rw [pass_of_halt filled moved]
      simp [Except.map, Move.portion, Move.events]
  | case4 p filled events rest raw moved ih =>
      rw [pass_of_advance filled moved, ih]
      cases portions closing ⟨raw, rest⟩ with
      | error e => rfl
      | ok read => rfl

/-- The symbols of a pass are those of its portions. -/
theorem pass_eq_portions (closing : Bool) (p : Place) :
    p.pass closing =
      (p.portions closing).map fun read => (read.1.flatMap Portion.symbols, read.2) := by
  rw [pass, events_portions]
  cases p.portions closing with
  | error e => rfl
  | ok read => simp only [Except.map, spelling_flatMap_events]

/-- The portions of a pass make up what it has read. -/
theorem source_portions (h : p.portions closing = .ok (found, q)) :
    found.flatMap Portion.source ++ q.rest = p.rest := by
  fun_induction portions closing p generalizing found with
  | case1 p empty =>
      cases h
      rfl
  | case2 p filled e moved => cases h
  | case3 p filled events rest moved =>
      cases h
      obtain ⟨front, split⟩ := move_rest_suffix moved
      rw [List.flatMap_singleton, Move.source_portion split.symm]
      exact split
  | case4 p filled events rest raw moved ih =>
      obtain ⟨front, split⟩ := move_rest_suffix moved
      obtain ⟨read, later, same⟩ := exists_of_map_ok h
      cases same
      rw [List.flatMap_cons, Move.source_portion split.symm, List.append_assoc, ih later]
      exact split

/-- Every portion of a pass is that of a move. -/
theorem exists_move_of_mem_portions (h : p.portions closing = .ok (found, q)) {portion : Portion}
    (member : portion ∈ found) :
    ∃ raw s m, move closing raw s = .ok m ∧ portion = m.portion s := by
  fun_induction portions closing p generalizing found with
  | case1 p empty =>
      cases h
      cases member
  | case2 p filled e moved => cases h
  | case3 p filled events rest moved =>
      cases h
      exact ⟨_, _, _, moved, List.mem_singleton.mp member⟩
  | case4 p filled events rest raw moved ih =>
      obtain ⟨read, later, same⟩ := exists_of_map_ok h
      cases same
      rcases List.mem_cons.mp member with rfl | member
      · exact ⟨_, _, _, moved, rfl⟩
      · exact ih later member

end Place

/-! ## Chunks -/

/-- The portions of some chunks behind the text at a place, up to the end of the input. -/
def portionsFrom (p : Place) : List Text → Except Malformed (List Portion)
  | [] => (p.portions true).map fun read => read.1 ++ [read.2.remainder]
  | chunk :: chunks =>
    ((p.extend chunk).portions false).bind fun read =>
      (portionsFrom read.2 chunks).map (read.1 ++ ·)

/-- **The portions of chunked input**: what the reader takes, move by move, and what it reports. -/
def portions (chunks : List Text) : Except Malformed (List Portion) :=
  portionsFrom { rest := [] } chunks

variable {p : Place} {chunks : List Text} {found : List Portion}

theorem readFrom_eq_portionsFrom (p : Place) (chunks : List Text) :
    readFrom p chunks = (portionsFrom p chunks).map (List.flatMap Portion.symbols) := by
  induction chunks generalizing p with
  | nil =>
      rw [readFrom_nil, Place.finish, Place.pass_eq_portions, portionsFrom]
      cases p.portions true with
      | error e => rfl
      | ok read => simp [Except.map, Place.symbols_remainder]
  | cons chunk chunks ih =>
      rw [readFrom_cons, Place.pass_eq_portions, portionsFrom]
      cases (p.extend chunk).portions false with
      | error e => rfl
      | ok read =>
          simp only [Except.map, Except.bind, ih]
          cases portionsFrom read.2 chunks with
          | error e => rfl
          | ok later => simp only [List.flatMap_append]

theorem source_portionsFrom (h : portionsFrom p chunks = .ok found) :
    found.flatMap Portion.source = p.rest ++ chunks.flatten := by
  induction chunks generalizing p found with
  | nil =>
      rw [portionsFrom] at h
      obtain ⟨read, passed, rfl⟩ := exists_of_map_ok h
      rw [List.flatMap_append, List.flatMap_singleton, List.flatten_nil, List.append_nil]
      exact Place.source_portions passed
  | cons chunk chunks ih =>
      rw [portionsFrom] at h
      obtain ⟨read, passed, h⟩ := exists_of_bind_ok h
      obtain ⟨later, onward, rfl⟩ := exists_of_map_ok h
      rw [List.flatMap_append, ih onward, ← List.append_assoc, Place.source_portions passed]
      exact List.append_assoc _ _ _

theorem exists_move_of_mem_portionsFrom (h : portionsFrom p chunks = .ok found)
    {portion : Portion} (member : portion ∈ found) :
    (∃ closing raw s m, move closing raw s = .ok m ∧ portion = m.portion s) ∨
      ∃ q : Place, portion = q.remainder := by
  induction chunks generalizing p found with
  | nil =>
      rw [portionsFrom] at h
      obtain ⟨read, passed, rfl⟩ := exists_of_map_ok h
      rcases List.mem_append.mp member with member | member
      · exact Or.inl ⟨true, Place.exists_move_of_mem_portions passed member⟩
      · exact Or.inr ⟨read.2, List.mem_singleton.mp member⟩
  | cons chunk chunks ih =>
      rw [portionsFrom] at h
      obtain ⟨read, passed, h⟩ := exists_of_bind_ok h
      obtain ⟨later, onward, rfl⟩ := exists_of_map_ok h
      rcases List.mem_append.mp member with member | member
      · exact Or.inl ⟨false, Place.exists_move_of_mem_portions passed member⟩
      · exact ih onward member

/-- **The portions make up the input.** -/
theorem flatMap_source_portions (h : portions chunks = .ok found) :
    found.flatMap Portion.source = chunks.flatten := by
  rw [source_portionsFrom h, List.nil_append]

/-- **Every portion is that of a move**, or what is left at the end of the input. -/
theorem exists_move_of_mem_portions (h : portions chunks = .ok found) {portion : Portion}
    (member : portion ∈ found) :
    (∃ closing raw s m, move closing raw s = .ok m ∧ portion = m.portion s) ∨
      ∃ q : Place, portion = q.remainder :=
  exists_move_of_mem_portionsFrom h member

/-- **The tokens of chunked input are those of its portions.** -/
theorem tokenize_of_portions (h : portions chunks = .ok found) :
    tokenize chunks = { tokens := tokensFrom [] (found.flatMap Portion.symbols) } := by
  refine tokenize_of_ok ?_
  rw [portions] at h
  rw [readAll, readFrom_eq_portionsFrom, h]
  rfl

/-- An input that is read to its end has portions. -/
theorem exists_portions_of_tokenize (h : (tokenize chunks).failure = none) :
    ∃ found, portions chunks = .ok found := by
  obtain ⟨whole, read, -⟩ := exists_readAll_of_tokenize h
  rw [readAll, readFrom_eq_portionsFrom] at read
  obtain ⟨found, taken, -⟩ := exists_of_map_ok read
  exact ⟨found, taken⟩

end PageAssembly.Markup
