import PageAssembly.Proofs.Expansion.Memo
import PageAssembly.Proofs.Reference.Chain
import PageAssembly.Proofs.Survey.Agreement

/-!
# References in step

The names are found on the whole line and the tags are looked for in what remains of it, so the two
can fall out of step: a name that is mentioned with a blank takes the tag of a later exact
reference, and the exact references between them are passed over.

## Main definitions

* `Expansion.InStep` — each mention takes the next exact reference or none
* `Expansion.rendered` — a chain with markup in the place of the tags that its mentions take
* `Expansion.Answers` — an expander that has markup for some names, again and again

## Main statements

* `Expansion.rendered_of_inStep` — in step, exactly the exact references are replaced
* `Expansion.inStep_of_length_le` — out of step, a tag that should go stays
* `Expansion.inStep_of_forall_spaced` — mentions that come after all exact references to their names
* `Expansion.line_replaces_iff` — the chains of which every exact reference is replaced

### How a missed reference shows

With empty markup every replaced tag makes the line shorter, and only exact references are replaced.
So the length tells whether all of them were.
-/

namespace PageAssembly.Expansion

open Reference

/-! ## Taking the mentions in turn -/

/-- **Mentions in step with the exact references.**  Each mention either has no exact reference left
to take or takes the one that comes next. -/
inductive InStep : List PlainName → List PlainName → Prop
  /-- All references have been taken. -/
  | done : InStep [] []
  /-- A mention that has no exact reference ahead. -/
  | passed {name : PlainName} {names exacts : List PlainName} :
      name ∉ exacts → InStep names exacts → InStep (name :: names) exacts
  /-- A mention that takes the next exact reference. -/
  | taken {name : PlainName} {names exacts : List PlainName} :
      InStep names exacts → InStep (name :: names) (name :: exacts)

section InStep

variable {chain front back : List Part} {name : PlainName} {mentions : List PlainName}
variable {markup : Text → Text}

/-- A chain with markup in the place of the tags that the mentions take, in turn. -/
def rendered (markup : Text → Text) (mentions : List PlainName) (chain : List Part) : Text :=
  (Reference.piecesOf (mentions.map PlainName.text) (spelling chain)).flatMap (filled markup)

@[simp] theorem rendered_nil : rendered markup [] chain = spelling chain := by
  simp [rendered, Reference.piecesOf, filled]

/-- A mention without an exact reference leaves the chain as it is. -/
theorem rendered_of_notMem (absent : .reference name ∉ chain) :
    rendered markup (name :: mentions) chain = rendered markup mentions chain := by
  rw [rendered, List.map_cons, Reference.piecesOf, cut?_spelling_of_notMem absent]
  rfl

/-- A mention takes the first exact reference to its name, and the next one looks behind that. -/
theorem rendered_cons (absent : .reference name ∉ front) :
    rendered markup (name :: mentions) (front ++ .reference name :: back) =
      spelling front ++ (markup name.text ++ rendered markup mentions back) := by
  rw [rendered, List.map_cons, Reference.piecesOf, cut?_spelling absent]
  rfl

/-- The first exact reference to a name, with what stands before and behind it. -/
theorem exists_first (mem : .reference name ∈ chain) :
    ∃ front back, chain = front ++ .reference name :: back ∧ .reference name ∉ front :=
  List.eq_append_cons_of_mem mem

/-- **In step, exactly the exact references are replaced.** -/
theorem rendered_of_inStep (markup : Text → Text) (inStep : InStep mentions (exacts chain)) :
    rendered markup mentions chain = filledIn markup chain := by
  generalize left : exacts chain = ahead at inStep
  induction inStep generalizing chain with
  | done => rw [rendered_nil, filledIn_of_exacts_eq_nil left]
  | passed absent _ ih =>
      rw [rendered_of_notMem fun mem => absent (left ▸ mem_exacts.mpr mem), ih left]
  | @taken name mentions ahead _ ih =>
      have mem : .reference name ∈ chain := mem_exacts.mp (left ▸ List.mem_cons_self)
      obtain ⟨front, back, rfl, absent⟩ := exists_first mem
      rw [exacts_append, exacts_reference] at left
      -- the next exact reference is the first one to this name, so none stands before it
      have before : exacts front = [] := by
        cases spelled : exacts front with
        | nil => rfl
        | cons first more =>
            rw [spelled, List.cons_append, List.cons.injEq] at left
            exact absurd (mem_exacts.mp (spelled ▸ left.1 ▸ List.mem_cons_self)) absent
      rw [before, List.nil_append, List.cons.injEq] at left
      rw [rendered_cons absent, ih left.2, filledIn_append, filledIn_cons,
        filledIn_of_exacts_eq_nil before]
      rfl

/-- What a chain spells with empty markup in the place of its exact references. -/
def emptied (chain : List Part) : Text := filledIn (fun _ => []) chain

/-- Emptying shortens a chain that has exact references. -/
theorem length_emptied_add_le (chain : List Part) :
    (emptied chain).length + (exacts chain).length ≤ (spelling chain).length := by
  induction chain with
  | nil => exact Nat.le_refl _
  | cons part chain ih =>
      rw [emptied] at ih ⊢
      rw [filledIn_cons, spelling_cons, List.length_append, List.length_append]
      cases part with
      | reference name =>
          simp only [exacts_reference, Part.filledIn, Part.spelling, tag, List.length_cons,
            List.length_append, List.length_nil]
          omega
      | literal text plain =>
          have same : exacts (.literal text plain :: chain) = exacts chain := rfl
          simp only [same, Part.filledIn]
          omega
      | spaced name =>
          have same : exacts (.spaced name :: chain) = exacts chain := rfl
          simp only [same, Part.filledIn]
          omega

/-- Taking a first exact reference splits both lengths. -/
theorem length_taken (absent : .reference name ∉ front) (back : List Part)
    (mentions : List PlainName) :
    (emptied (front ++ .reference name :: back)).length =
        (emptied front).length + (emptied back).length ∧
      (rendered (fun _ => []) (name :: mentions) (front ++ .reference name :: back)).length =
        (spelling front).length + (rendered (fun _ => []) mentions back).length := by
  rw [rendered_cons absent]
  simp [emptied, Part.filledIn]

/-- Taking names removes no more than the exact references. -/
theorem length_emptied_le (mentions : List PlainName) (chain : List Part) :
    (emptied chain).length ≤ (rendered (fun _ => []) mentions chain).length := by
  induction mentions generalizing chain with
  | nil =>
      have := length_emptied_add_le chain
      rw [rendered_nil]
      omega
  | cons name mentions ih =>
      by_cases mem : .reference name ∈ chain
      · obtain ⟨front, back, rfl, absent⟩ := exists_first mem
        obtain ⟨whole, left⟩ := length_taken absent back mentions
        have := length_emptied_add_le front
        have := ih back
        omega
      · rw [rendered_of_notMem mem]
        exact ih chain

/-- **Out of step, a tag that should go stays**: only mentions in step remove them all. -/
theorem inStep_of_length_le
    (h : (rendered (fun _ => []) mentions chain).length ≤ (emptied chain).length) :
    InStep mentions (exacts chain) := by
  induction mentions generalizing chain with
  | nil =>
      have := length_emptied_add_le chain
      rw [rendered_nil] at h
      obtain none : exacts chain = [] := List.eq_nil_of_length_eq_zero (by omega)
      rw [none]
      exact .done
  | cons name mentions ih =>
      by_cases mem : .reference name ∈ chain
      · obtain ⟨front, back, rfl, absent⟩ := exists_first mem
        obtain ⟨whole, left⟩ := length_taken absent back mentions
        have := length_emptied_add_le front
        have := length_emptied_le mentions back
        -- nothing is lost before the reference, so it is the next exact one
        obtain before : exacts front = [] := List.eq_nil_of_length_eq_zero (by omega)
        rw [exacts_append, exacts_reference, before]
        exact .taken (ih (by omega))
      · rw [rendered_of_notMem mem] at h
        exact .passed (fun h' => mem (mem_exacts.mp h')) (ih h)

/-- A chain stays in step when no mention with a blank precedes an exact reference to its name. -/
theorem inStep_of_forall_spaced
    (apart : ∀ front name back, chain = front ++ .spaced name :: back → .reference name ∉ back) :
    InStep (mentioned chain) (exacts chain) := by
  induction chain with
  | nil => exact .done
  | cons part chain ih =>
      have rest := ih fun front name back split =>
        apart (part :: front) name back (by rw [split, List.cons_append])
      cases part with
      | literal text plain => exact rest
      | reference name => exact .taken rest
      | spaced name =>
          have absent := apart [] name chain rfl
          exact .passed (fun mem => absent (mem_exacts.mp mem)) rest

end InStep

/-! ## Expanders that have an answer -/

/-- **An expander that has markup for some names**: whatever its memo may be, each of them is
expanded to its markup, and the memo is then one that it may be. -/
def Answers (t : FileTree) (directory : Path) (may : Memo → Prop) (names : List Text)
    (markup : Text → Text) : Prop :=
  ∀ name ∈ names, ∀ (place : Place) (s : Expanding.State), may s.memo →
    ∃ s', (component t directory place name).run.run s = (.ok (markup name), s') ∧ may s'.memo

section Answers

variable {t : FileTree} {directory : Path} {may : Memo → Prop} {names : List Text}
variable {markup : Text → Text}

/-- With nothing remembered but what components yield, an expander has the outcomes for answers. -/
theorem answers_of_outcome (h : ∀ name ∈ names, outcome t directory name = .ok (markup name)) :
    Answers t directory (Sound t directory) names markup := by
  intro name hname place s sound
  obtain ⟨s', run, sound'⟩ := gives_component place name s sound
  exact ⟨s', by rw [run, h name hname], sound'⟩

/-- One piece of a line is filled with the answer. -/
theorem Answers.run_piece (answers : Answers t directory may names markup) (place : Place)
    {piece : Piece} (known : ∀ name, piece = .reference name → name ∈ names)
    {s : Expanding.State} (hs : may s.memo) :
    ∃ s', (pieceWith (component t directory place) place piece).run.run s =
      (.ok (filled markup piece), s') ∧ may s'.memo := by
  cases piece with
  | literal text => exact ⟨s, rfl, hs⟩
  | reference name => exact answers name (known name rfl) place s hs
  | untaken name => exact ⟨_, rfl, hs⟩

/-- The pieces of a line are filled with the answers, one after the other. -/
theorem Answers.run_pieces (answers : Answers t directory may names markup) (place : Place)
    {pieces : List Piece} (known : ∀ name, .reference name ∈ pieces → name ∈ names)
    {s : Expanding.State} (hs : may s.memo) :
    ∃ s', (pieces.mapM (pieceWith (component t directory place) place)).run.run s =
      (.ok (pieces.map (filled markup)), s') ∧ may s'.memo := by
  induction pieces generalizing s with
  | nil => exact ⟨s, rfl, hs⟩
  | cons piece pieces ih =>
      obtain ⟨s₁, first, hs₁⟩ :=
        answers.run_piece place (fun name h => known name (h ▸ List.mem_cons_self)) hs
      obtain ⟨s₂, rest, hs₂⟩ := ih (fun name h => known name (List.mem_cons_of_mem _ h)) hs₁
      refine ⟨s₂, ?_, hs₂⟩
      rw [List.mapM_cons, Failure.run_bind, first]
      simp only
      rw [Failure.run_bind, rest]
      rfl

/-- A chain is expanded by taking its mentions in turn. -/
theorem Answers.run_line {chain : List Part}
    (answers : Answers t directory may ((mentioned chain).map PlainName.text) markup)
    (place : Place) {s : Expanding.State} (hs : may s.memo) :
    ((line t directory place (spelling chain)).run.run s).1 =
      .ok (rendered markup (mentioned chain) chain) := by
  have known : ∀ name, .reference name ∈ pieces (spelling chain) →
      name ∈ (mentioned chain).map PlainName.text := by
    intro name h
    rw [← names_spelling]
    exact mem_names_of_mem_piecesOf h
  obtain ⟨s', run, -⟩ := answers.run_pieces place known hs
  have filling : (pieces (spelling chain)).map (filled markup) =
      (Reference.piecesOf ((mentioned chain).map PlainName.text) (spelling chain)).map
        (filled markup) := by
    rw [pieces, names_spelling]
  rw [line, lineWith, Failure.run_bind, run, filling]
  rfl

end Answers

/-- Where there are no fragments, a plain name has empty markup. -/
theorem outcome_of_no_fragments (name : PlainName) :
    outcome {} Path.here name.text = .ok [] := by
  have path : Fragment.path Path.here name.text =
      ⟨.relative, [name.text ++ Fragment.ending]⟩ :=
    Fragment.path_of_slash_not_mem (name.notMem_text (by decide)) Path.here
  have clean : '\x00' ∉ (Fragment.path Path.here name.text).text := by
    rw [path]
    simp [Path.text, Path.here, Path.anchorText, Fragment.ending, List.intercalate,
      name.notMem_text (c := '\x00') (by decide)]
  cases read : FileTree.read {} (Fragment.path Path.here name.text) with
  | error failure =>
      have system := FileTree.isSystem_of_read clean read
      rw [outcome, budget, outcomeWithin, if_neg List.not_mem_nil]
      simp only [read, if_pos system]
  | ok bytes =>
      obtain ⟨l, found⟩ := FileTree.read_eq_ok_iff.mp read
      obtain ⟨-, entry⟩ := FileTree.find_eq_ok found
      rw [FileTree.lookup] at entry
      split at entry <;> cases entry

/-- **The chains of which every exact reference is replaced, and nothing else**, by every expander
that has markup for the names mentioned, are those whose mentions are in step with their exact
references. -/
theorem line_replaces_iff (chain : List Part) :
    (∀ (t : FileTree) (directory : Path) (may : Memo → Prop) (markup : Text → Text),
      Answers t directory may ((mentioned chain).map PlainName.text) markup →
      ∀ (place : Place) (s : Expanding.State), may s.memo →
        ((line t directory place (spelling chain)).run.run s).1 = .ok (filledIn markup chain)) ↔
      InStep (mentioned chain) (exacts chain) := by
  constructor
  · intro replaces
    have answers : Answers {} Path.here (Sound {} Path.here)
        ((mentioned chain).map PlainName.text) fun _ => [] := by
      refine answers_of_outcome fun text htext => ?_
      obtain ⟨name, -, rfl⟩ := List.mem_map.mp htext
      exact outcome_of_no_fragments name
    have sound := sound_empty {} Path.here
    have claimed := replaces {} Path.here _ _ answers {} {} sound
    rw [answers.run_line {} sound] at claimed
    exact inStep_of_length_le (congrArg List.length (Except.ok.inj claimed)).le
  · intro inStep t directory may markup answers place s hs
    rw [answers.run_line place hs, rendered_of_inStep markup inStep]

/-! ### A chain out of step -/

/-- A component directory `c` with the components `a` and `b`. -/
def crossedTree : FileTree where
  entries := [([['c']], .directory),
    ([['c'], "a.html".toList], .file (Utf8.encode ['A'])),
    ([['c'], "b.html".toList], .file (Utf8.encode ['B']))]

/-- The markup of the two components. -/
def crossedMarkup (name : Text) : Text := if name = ['a'] then ['A'] else ['B']

/-- A mention of `a` with a blank, behind which `b` is the next exact reference. -/
def crossedChain : List Part :=
  let a : PlainName := ⟨['a'], by decide, List.forall_mem_singleton.mpr (by decide)⟩
  let b : PlainName := ⟨['b'], by decide, List.forall_mem_singleton.mpr (by decide)⟩
  [.spaced a, .reference b, .reference a]

/-- The mention of `a` takes the last reference, and the reference to `b` stays on the line. -/
theorem line_passes_over_reference :
    spelling crossedChain = "<app-a /><app-b/><app-a/>".toList ∧
      Answers crossedTree exampleDirectory (Sound crossedTree exampleDirectory)
        ((mentioned crossedChain).map PlainName.text) crossedMarkup ∧
      ((line crossedTree exampleDirectory {} (spelling crossedChain)).run.run {}).1 =
        .ok "<app-a /><app-b/>A".toList ∧
      filledIn crossedMarkup crossedChain = "<app-a />BA".toList := by
  refine ⟨by decide, answers_of_outcome ?_, ?_, by decide⟩
  · decide +kernel
  · decide +kernel

end PageAssembly.Expansion
