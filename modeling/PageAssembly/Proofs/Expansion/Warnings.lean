import PageAssembly.Proofs.Expansion.Congruence
import PageAssembly.Proofs.Expansion.Occurrence
import PageAssembly.Proofs.Members

/-!
# Warnings of an expansion

An expansion warns of every reference without a fragment, once for each place where such a
reference is written.

## Main definitions

* `Expansion.warnings` — the warnings among some notices
* `Expansion.Occurrence.notice` — the warning about a place
* `Expansion.Told` — what the memo and the names in progress say about the warnings so far
* `Expansion.Met` — how an operation ends that warns of what is met on its way
* `Expansion.Reports` — an operation warns of what is met on the way through some places

## Main statements

* `Expansion.reports_componentWithin` — one reference warns of what is met on the way through it
* `Expansion.reports_document` — so does a document, however its expansion ends
* `Expansion.document_warnings` — a document warns of each place once, in the order in which the
  places are first met

### What links the warnings to the memo

The way without a memo goes through a shared fragment again and again, and the expansion goes
through it once.  They agree up to repetitions: when a component is remembered, all places inside it
have been met before; and a place in a fragment has been met only when the component is remembered
or in progress, so that a fragment about to be opened has nothing but new places.
-/

namespace PageAssembly.Expansion

/-- The warnings among some notices, in the order of reporting. -/
def warnings (n : Notices) : List Notice := n.toList.filter (·.level = .warning)

/-- What a document or a fragment is called in the notices about its references. -/
def labelOf (source : Text) (directory : Path) (owner : Option Text) : Text :=
  owner.elim source fun name => (Fragment.path directory name).name

/-- The warning about a place, in the expansion of a document that is called `source`. -/
def Occurrence.notice (source : Text) (directory : Path) (o : Occurrence) : Notice :=
  .missingFragment o.name o.line (labelOf source directory o.owner) directory

theorem warnings_push (n : Notices) (notice : Notice) :
    warnings (n.push notice) =
      if notice.level = .warning then warnings n ++ [notice] else warnings n := by
  rw [warnings, Array.toList_push, List.filter_append]
  split <;> simp_all [warnings]

/-! ## What has been told -/

section Reports

variable {t : FileTree} {directory : Path} {source : Text} {before : List Notice}
  {inProgress : List Text} {seen : List Occurrence} {s : Expanding.State}

/-- **What has been told** when the way without a memo has met the places `seen`. -/
structure Told (t : FileTree) (directory : Path) (source : Text) (before : List Notice)
    (inProgress : List Text) (seen : List Occurrence) (s : Expanding.State) : Prop where
  /-- There was one warning of each place. -/
  warned : warnings s.notices = before ++ seen.eraseDups.map (Occurrence.notice source directory)
  /-- A component that is remembered leads to nothing new. -/
  remembered : ∀ name markup, s.memo.get? name = some markup → ∃ bytes inside,
    t.read (Fragment.path directory name) = .ok bytes ∧
      Visits t directory (occurrences (some name) (Stored.lines bytes).delivered) inside ∧
      inside ⊆ seen
  /-- The fragment of a place is known. -/
  owned : ∀ o ∈ seen, ∀ name, o.owner = some name →
    (∃ markup, s.memo.get? name = some markup) ∨ name ∈ inProgress

/-- **Places that are about to be met**, in a document or in a fragment in progress. -/
structure Ahead (inProgress : List Text) (seen todo : List Occurrence) : Prop where
  /-- None is there twice. -/
  nodup : todo.Nodup
  /-- None has been met. -/
  new : ∀ o ∈ todo, o ∉ seen
  /-- Their fragment is in progress. -/
  inside : ∀ o ∈ todo, ∀ name, o.owner = some name → name ∈ inProgress

/-- What the way meets is among the places ahead, was met before, or is in a fragment that is not in
progress. -/
def Stays (inProgress : List Text) (seen todo met : List Occurrence) : Prop :=
  ∀ o ∈ met, o ∈ todo ∨ o ∈ seen ∨ ∃ name, o.owner = some name ∧ name ∉ inProgress

/-- **How an operation ends** that warns of what is met on the way through some places. -/
inductive Met (t : FileTree) (directory : Path) (source : Text) (before : List Notice)
    (inProgress : List Text) (seen todo : List Occurrence) {α : Type} :
    Except Failure α × Expanding.State → Prop
  /-- With a result it has gone all the way. -/
  | finished {met : List Occurrence} {a : α} {s' : Expanding.State} :
      Visits t directory todo met → Told t directory source before inProgress (seen ++ met) s' →
      Stays inProgress seen todo met →
      Met t directory source before inProgress seen todo (.ok a, s')
  /-- With a failure it has broken off, and there was one warning of each place up to there. -/
  | brokenOff {met : List Occurrence} {failure : Failure} {s' : Expanding.State} :
      Begins t directory todo met →
      warnings s'.notices =
        before ++ (seen ++ met).eraseDups.map (Occurrence.notice source directory) →
      Met t directory source before inProgress seen todo (.error failure, s')

/-- **An operation that warns of what is met on the way through some places**, however it ends. -/
def Reports (t : FileTree) (directory : Path) (source : Text) (before : List Notice)
    (inProgress : List Text) (todo : List Occurrence) {α : Type} (op : Expanding α) : Prop :=
  ∀ seen s, Told t directory source before inProgress seen s → Ahead inProgress seen todo →
    Met t directory source before inProgress seen todo (op.run.run s)

/-- A notice that is no warning tells nothing. -/
theorem Told.note (told : Told t directory source before inProgress seen s) {notice : Notice}
    (light : notice.level ≠ .warning) :
    Told t directory source before inProgress seen
      { s with notices := s.notices.push notice } where
  warned := ((warnings_push s.notices notice).trans (if_neg light)).trans told.warned
  remembered := told.remembered
  owned := told.owned

/-- A failure before anything is met. -/
theorem Told.brokenOff (told : Told t directory source before inProgress seen s)
    {todo : List Occurrence} {α : Type} (failure : Failure) :
    Met t directory source before inProgress seen todo
      ((.error failure, s) : Except Failure α × Expanding.State) :=
  .brokenOff .stop (by rw [List.append_nil]; exact told.warned)

/-- Nothing is met on an empty way. -/
theorem Told.finished (told : Told t directory source before inProgress seen s) {α : Type} (a : α) :
    Met t directory source before inProgress seen [] (.ok a, s) :=
  .finished .done (by rwa [List.append_nil]) fun _ ho => absurd ho List.not_mem_nil

/-- The places behind some others are still ahead when these have been met. -/
theorem Ahead.of_append {first second met : List Occurrence}
    (ahead : Ahead inProgress seen (first ++ second)) (stays : Stays inProgress seen first met) :
    Ahead inProgress (seen ++ met) second where
  nodup := (List.nodup_append.mp ahead.nodup).2.1
  new o ho h := by
    have mem : o ∈ first ++ second := List.mem_append_right _ ho
    rcases List.mem_append.mp h with h | h
    · exact ahead.new o mem h
    · rcases stays o h with h | h | ⟨name, owner, outside⟩
      · exact (List.nodup_append.mp ahead.nodup).2.2 o h o ho rfl
      · exact ahead.new o mem h
      · exact outside (ahead.inside o mem name owner)
  inside o ho := ahead.inside o (List.mem_append_right _ ho)

theorem Ahead.left {first second : List Occurrence}
    (ahead : Ahead inProgress seen (first ++ second)) : Ahead inProgress seen first where
  nodup := (List.nodup_append.mp ahead.nodup).1
  new o ho := ahead.new o (List.mem_append_left _ ho)
  inside o ho := ahead.inside o (List.mem_append_left _ ho)

namespace Reports

variable {α β : Type} {first second todo : List Occurrence} {op : Expanding α}
  {f : α → Expanding β}

theorem pure (a : α) :
    Reports t directory source before inProgress [] (Pure.pure a : Expanding α) :=
  fun _ _ told _ => told.finished a

/-- A notice that is no warning. -/
theorem note {notice : Notice} (light : notice.level ≠ .warning) :
    Reports t directory source before inProgress [] (Expanding.note notice) :=
  fun _ _ told _ => (told.note light).finished ()

/-- Nothing is met on the way of an operation that fails. -/
theorem throw (failure : Failure) :
    Reports t directory source before inProgress todo (MonadExcept.throw failure : Expanding α) :=
  fun _ _ told _ => told.brokenOff failure

/-- **One operation after another meets what both meet.** -/
theorem bind (h : Reports t directory source before inProgress first op)
    (h' : ∀ a, Reports t directory source before inProgress second (f a)) :
    Reports t directory source before inProgress (first ++ second) (op >>= f) := by
  intro seen s told ahead
  have one := h seen s told ahead.left
  rw [Failure.run_bind]
  generalize op.run.run s = outcome at one ⊢
  cases one with
  | brokenOff begins warned => exact .brokenOff (begins.append second) warned
  | @finished met a s₁ way told₁ stays =>
      have other := h' a (seen ++ met) s₁ told₁ (ahead.of_append stays)
      dsimp only
      generalize (f a).run.run s₁ = outcome at other ⊢
      cases other with
      | brokenOff begins warned =>
          exact .brokenOff (way.append_begins begins) (by rwa [← List.append_assoc])
      | finished way' told' stays' =>
          refine .finished (way.append way') (by rwa [← List.append_assoc]) ?_
          intro o ho
          rcases List.mem_append.mp ho with ho | ho
          · exact (stays o ho).imp_left (List.mem_append_left _)
          · rcases stays' o ho with ho | ho | outside
            · exact .inl (List.mem_append_right _ ho)
            · rcases List.mem_append.mp ho with ho | ho
              · exact .inr (.inl ho)
              · exact (stays o ho).imp_left (List.mem_append_left _)
            · exact .inr (.inr outside)

/-- What follows a result without a place of its own. -/
theorem bind_pure (h : Reports t directory source before inProgress todo op) {g : α → β} :
    Reports t directory source before inProgress todo (do return g (← op)) := by
  have both := h.bind fun a => pure (g a)
  rwa [List.append_nil] at both

end Reports

/-! ## Lines -/

section Lines

variable {owner : Option Text} {label : Text} {expand : Place → Text → Expanding Text}
  (h : ∀ o : Occurrence, o.owner = owner →
    Reports t directory source before inProgress [o] (expand ⟨label, o.line⟩ o.name))

include h

/-- The pieces of a line warn of what is met on the way through the references of the line. -/
theorem reports_pieces (number index : Nat) (pieces : List Reference.Piece) :
    Reports t directory source before inProgress
      (placed owner index ((pieces.filterMap Reference.Piece.name?).map (number, ·)))
      (joined (pieceWith (expand ⟨label, number⟩) ⟨label, number⟩) pieces) := by
  induction pieces generalizing index with
  | nil => exact .pure []
  | cons piece pieces ih =>
      rw [joined_cons]
      cases piece with
      | literal text =>
          have both := (Reports.pure text).bind fun first =>
            (ih index).bind_pure (g := (first ++ ·))
          exact both
      | untaken name =>
          have light : (Notice.notSelfClosing name (number : Nat) label).level ≠ .warning :=
            Level.noConfusion
          have noted : Reports t directory source before inProgress []
              (pieceWith (expand ⟨label, number⟩) ⟨label, number⟩ (.untaken name)) :=
            (Reports.note light).bind_pure
          exact noted.bind fun first => (ih index).bind_pure (g := (first ++ ·))
      | reference name =>
          exact (h ⟨owner, index, number, name⟩ rfl).bind fun first =>
            (ih (index + 1)).bind_pure (g := (first ++ ·))

/-- Lines warn of what is met on the way through their references. -/
theorem reports_numbered (number index : Nat) (lines : List Text) :
    Reports t directory source before inProgress
      (placed owner index (referencesFrom number lines))
      (joined (numberedWith expand label) (lines.zipIdx number)) := by
  induction lines generalizing number index with
  | nil => exact .pure []
  | cons line lines ih =>
      have split : referencesFrom number (line :: lines) =
          (Reference.taken line).map (number, ·) ++ referencesFrom (number + 1) lines := rfl
      rw [List.zipIdx_cons, joined_cons, split, placed_append]
      exact (reports_pieces h number index (Reference.pieces line)).bind fun first =>
        (ih (number + 1) _).bind_pure (g := (first ++ ·))

theorem reports_linesWith (lines : List Text) :
    Reports t directory source before inProgress (occurrences owner lines)
      (linesWith expand label lines) :=
  reports_numbered h 1 0 lines

end Lines

/-! ## Components -/

/-- A component that is remembered leads to nothing new. -/
theorem Told.of_remembered (told : Told t directory source before inProgress seen s)
    {o : Occurrence} {markup : Text} (known : s.memo.get? o.name = some markup) :
    ∃ met, Visits t directory [o] met ∧ met ⊆ seen ∧
      Told t directory source before inProgress (seen ++ met) s := by
  obtain ⟨bytes, inside, read, way, old⟩ := told.remembered o.name markup known
  refine ⟨inside ++ [], .fragment read way .done, by rwa [List.append_nil], ?_, ?_, ?_⟩
  · rw [List.append_nil, eraseDups_append_of_subset old]
    exact told.warned
  · intro name markup known
    obtain ⟨bytes, inside', read, way, old'⟩ := told.remembered name markup known
    exact ⟨bytes, inside', read, way, fun x hx => List.mem_append_left _ (old' hx)⟩
  · intro x hx
    rw [List.append_nil] at hx
    exact told.owned x ((List.mem_append.mp hx).elim id fun h => old h)

/-- A reference without a fragment is met once more. -/
theorem Told.of_missing (told : Told t directory source before inProgress seen s) {o : Occurrence}
    (new : o ∉ seen) (inside : ∀ name, o.owner = some name → name ∈ inProgress) :
    Told t directory source before inProgress (seen ++ [o])
      { s with notices := s.notices.push (o.notice source directory) } where
  warned := by
    have warning : (o.notice source directory).level = .warning := rfl
    rw [warnings_push, if_pos warning, told.warned, eraseDups_concat new, List.map_append,
      List.append_assoc]
    rfl
  remembered name markup known := by
    obtain ⟨bytes, inside', read, way, old⟩ := told.remembered name markup known
    exact ⟨bytes, inside', read, way, fun x hx => List.mem_append_left _ (old hx)⟩
  owned x hx name owner := by
    rcases List.mem_append.mp hx with hx | hx
    · exact told.owned x hx name owner
    · exact .inr (inside name (List.mem_singleton.mp hx ▸ owner))

/-- Nothing in the fragment of a component that is neither remembered nor in progress has been
met. -/
theorem Told.ahead (told : Told t directory source before inProgress seen s) {name : Text}
    (unknown : s.memo.get? name = none) (fresh : name ∉ inProgress) (lines : List Text) :
    Ahead (inProgress ++ [name]) seen (occurrences (some name) lines) where
  nodup := nodup_occurrences _ _
  new o ho h := by
    rcases told.owned o h name (owner_of_mem_placed ho) with ⟨markup, known⟩ | again
    · rw [unknown] at known
      cases known
    · exact fresh again
  inside o ho x owner := by
    rw [owner_of_mem_placed ho] at owner
    exact List.mem_append_right _ (List.mem_singleton.mpr (Option.some.inj owner).symm)

/-- While a component is expanded, its name is in progress. -/
theorem Told.enter (told : Told t directory source before inProgress seen s) (name : Text) :
    Told t directory source before (inProgress ++ [name]) seen s where
  warned := told.warned
  remembered := told.remembered
  owned o ho x owner := (told.owned o ho x owner).imp_right (List.mem_append_left _)

/-- Behind its fragment a component is remembered, and everything inside has been met. -/
theorem Told.leave {name : Text} {met : List Occurrence} {bytes : List UInt8}
    (told : Told t directory source before (inProgress ++ [name]) (seen ++ met) s)
    (read : t.read (Fragment.path directory name) = .ok bytes)
    (way : Visits t directory (occurrences (some name) (Stored.lines bytes).delivered) met)
    (markup : Text) :
    Told t directory source before inProgress (seen ++ met)
      { s with memo := s.memo.store name markup } where
  warned := told.warned
  remembered := by
    intro x found
    dsimp only
    rw [Memo.get?_store]
    split
    · next same =>
        subst same
        exact fun _ => ⟨bytes, met, read, way, fun o ho => List.mem_append_right _ ho⟩
    · exact told.remembered x found
  owned o ho x owner := by
    dsimp only
    rw [Memo.get?_store]
    split
    · exact .inl ⟨markup, rfl⟩
    · next other =>
        refine (told.owned o ho x owner).imp_right fun h => ?_
        exact (List.mem_append.mp h).resolve_right fun h => other (List.mem_singleton.mp h)

/-- **A fragment that is opened warns of what is met on the way through it**, and so does a
reference without a fragment. -/
theorem met_fragmentWith {o : Occurrence} {expand : Place → Text → Expanding Text}
    (nested : ∀ x : Occurrence, x.owner = some o.name →
      Reports t directory source before (inProgress ++ [o.name]) [x]
        (expand ⟨(Fragment.path directory o.name).name, x.line⟩ x.name))
    (told : Told t directory source before inProgress seen s) (ahead : Ahead inProgress seen [o])
    (unknown : s.memo.get? o.name = none) (fresh : o.name ∉ inProgress) :
    Met t directory source before inProgress seen [o]
      ((fragmentWith expand t directory ⟨labelOf source directory o.owner, o.line⟩
        o.name).run.run s) := by
  rw [fragmentWith]
  cases read : t.read (Fragment.path directory o.name) with
  | error failure =>
      have closed : ¬ Fragment.Opens t directory o.name := by
        rintro ⟨bytes, read'⟩
        rw [read] at read'
        cases read'
      dsimp only
      split
      · exact .finished (.missing closed .done) (told.of_missing (ahead.new o List.mem_cons_self)
          (ahead.inside o List.mem_cons_self)) fun x hx => .inl hx
      · exact told.brokenOff _
  | ok bytes =>
      have lines := reports_linesWith nested (Stored.lines bytes).delivered seen s
        (told.enter o.name) (told.ahead unknown fresh _)
      dsimp only
      rw [Failure.run_bind]
      generalize (linesWith expand (Fragment.path directory o.name).name
        (Stored.lines bytes).delivered).run.run s = outcome at lines ⊢
      cases lines with
      | brokenOff begins warned => exact .brokenOff (.within read begins) warned
      | @finished met text s₁ way told₁ stays =>
          cases (Stored.lines bytes).fault with
          | some fault =>
              exact .brokenOff (.within read way.begins) told₁.warned
          | none =>
              refine .finished (.fragment read way .done) ?_ ?_
              · rw [List.append_nil]
                exact told₁.leave read way _
              · intro x hx
                rw [List.append_nil] at hx
                -- a place in the fragment itself is in no fragment in progress
                rcases stays x hx with hx | hx | ⟨name, owner, outside⟩
                · exact .inr (.inr ⟨o.name, owner_of_mem_placed hx, fresh⟩)
                · exact .inr (.inl hx)
                · exact .inr (.inr ⟨name, owner, fun h => outside (List.mem_append_left _ h)⟩)

/-- **One reference warns of what is met on the way through it.** -/
theorem reports_componentWithin (budget : Nat) (inProgress : List Text) (o : Occurrence) :
    Reports t directory source before inProgress [o]
      (componentWithin t directory budget inProgress ⟨labelOf source directory o.owner, o.line⟩
        o.name) := by
  induction budget generalizing inProgress o with
  | zero => exact .throw _
  | succ budget ih =>
      intro seen s told ahead
      rw [componentWithin_succ]
      cases known : s.memo.get? o.name with
      | some markup =>
          rw [run_openWith_of_known _ _ _ known]
          obtain ⟨met, way, old, told'⟩ := told.of_remembered known
          exact .finished way (told'.note Level.noConfusion) fun x hx => .inr (.inl (old hx))
      | none =>
          by_cases again : o.name ∈ inProgress
          · rw [run_openWith_of_again _ _ again known]
            exact told.brokenOff _
          · rw [run_openWith_of_unknown _ _ again known]
            refine met_fragmentWith (fun x owner => ?_) told ahead known again
            have label : labelOf source directory x.owner =
                (Fragment.path directory o.name).name := by rw [owner]; rfl
            exact label ▸ ih (inProgress ++ [o.name]) x

end Reports

/-! ## Documents -/

/-- **A document warns of what is met on the way through its references**, once for each place, when
nothing is remembered before. -/
theorem reports_document (t : FileTree) (directory : Path) (source text : Text) (n : Notices) :
    Met t directory source (warnings n) [] [] (occurrences none (Text.splitLines text))
      ((document t directory source text).run.run { notices := n }) := by
  have told : Told t directory source (warnings n) [] [] { notices := n } :=
    ⟨(List.append_nil _).symm, fun _ _ h => (nomatch h), fun _ h => absurd h List.not_mem_nil⟩
  have ahead : Ahead [] [] (occurrences none (Text.splitLines text)) :=
    ⟨nodup_occurrences _ _, fun _ _ => List.not_mem_nil, fun o ho name owner => by
      rw [owner_of_mem_placed ho] at owner
      cases owner⟩
  have component (o : Occurrence) (owner : o.owner = none) :
      Reports t directory source (warnings n) [] [o]
        (component t directory ⟨source, o.line⟩ o.name) := by
    have one : Reports t directory source (warnings n) [] [o] (component t directory
        ⟨labelOf source directory o.owner, o.line⟩ o.name) :=
      reports_componentWithin (budget t) [] o
    rwa [owner] at one
  exact reports_linesWith component (Text.splitLines text) [] _ told ahead

/-- **Each missing reference is warned of once for each place where it is written.**  When the
expansion of a document, with nothing remembered, gives markup, its warnings are those of the places
met on the way without a memo, each place at the first time it is met.  These are the places of
references without a fragment in the document and in all fragments it leads to, and none of them
comes twice, however often and on however many ways its fragment is referred to. -/
theorem document_warnings {t : FileTree} {directory : Path} {source text expanded : Text}
    {n : Notices} {s' : Expanding.State}
    (run : (document t directory source text).run.run { notices := n } = (.ok expanded, s')) :
    ∃ met, Visits t directory (occurrences none (Text.splitLines text)) met ∧
      warnings s'.notices =
        warnings n ++ met.eraseDups.map (Occurrence.notice source directory) ∧
      met.eraseDups.Nodup ∧
      ∀ o, o ∈ met.eraseDups ↔
        Written t directory text o ∧ ¬ Fragment.Opens t directory o.name := by
  have reports := reports_document t directory source text n
  rw [run] at reports
  cases reports with
  | @finished met _ _ way told _ =>
      refine ⟨met, way, told.warned, nodup_eraseDups met, fun o => ?_⟩
      rw [List.mem_eraseDups]
      exact way.mem_iff

/-! ### Shared fragments -/

/-- A directory `c` with a component `a` that refers to `b` and twice to `m`, and with `b`, which
refers to `n`. -/
def sharingTree : FileTree where
  entries := [([['c']], .directory),
    ([['c'], "a.html".toList], .file (Utf8.encode "<app-m/><app-b/>\n<app-m/>".toList)),
    ([['c'], "b.html".toList], .file (Utf8.encode "<app-n/>".toList))]

/-- A document that refers to both components twice and to `m` twice. -/
def sharingDocument : Text := "<app-b/><app-m/>\n<app-a/><app-b/><app-a/><app-m/>".toList

/-- There are five places of references without a fragment. -/
theorem document_warnings_sharingTree : ∃ s',
    (document sharingTree exampleDirectory "index".toList sharingDocument).run.run {} =
        (.ok "\n\n\n".toList, s') ∧
      (warnings s'.notices = [
        .missingFragment ['n'] 1 "b.html".toList exampleDirectory,
        .missingFragment ['m'] 1 "index".toList exampleDirectory,
        .missingFragment ['m'] 1 "a.html".toList exampleDirectory,
        .missingFragment ['m'] 2 "a.html".toList exampleDirectory,
        .missingFragment ['m'] 2 "index".toList exampleDirectory]) ∧
      ∃ met, Visits sharingTree exampleDirectory
          (occurrences none (Text.splitLines sharingDocument)) met ∧
        warnings s'.notices =
          met.eraseDups.map (Occurrence.notice "index".toList exampleDirectory) ∧
        met.eraseDups.Nodup ∧
        ∀ o, o ∈ met.eraseDups ↔ Written sharingTree exampleDirectory sharingDocument o ∧
          ¬ Fragment.Opens sharingTree exampleDirectory o.name := by
  have expanded : ((document sharingTree exampleDirectory "index".toList
      sharingDocument).run.run {}).1 = .ok "\n\n\n".toList := by decide +kernel
  have run : (document sharingTree exampleDirectory "index".toList sharingDocument).run.run {} =
      (.ok "\n\n\n".toList, ((document sharingTree exampleDirectory "index".toList
        sharingDocument).run.run {}).2) := Prod.ext expanded rfl
  exact ⟨_, run, by decide +kernel, document_warnings run⟩

end PageAssembly.Expansion
