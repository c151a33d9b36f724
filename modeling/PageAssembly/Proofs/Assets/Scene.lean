import PageAssembly.Proofs.Assets.Settled
import PageAssembly.Proofs.FileTree.Listing
import PageAssembly.Proofs.FileTree.Refusal

/-!
# What copying a directory comes to

What a copy of a directory does is told from two paths and from what stands below them before it:
which entries it looks at, which of them it can copy and what is in the way of the others.

## Main definitions

* `Assets.Scene` — a source and a target with what stands at and below them
* `Assets.Scene.refusal?` — what is in the way of a copy
* `Assets.Scene.Attempts` — the entries that are looked at
* `Assets.Before` — the order in which they are looked at
* `Assets.Copied` — what a copy gives, what it reports and what it leaves

## Main statements

* `Assets.Copied.opened` — a directory's own part put before that of its entries
* `Assets.Copied.append` — the part of one more entry

### Scenes instead of trees

While a directory is copied the tree changes below the target.  What is done with an entry depends
on what stands at and below its own source and target, and no other entry changes anything there.  A
scene holds just that, so the scene of an entry is the same before and behind its siblings.
-/

namespace PageAssembly.Assets

open FileTree

/-- **A source and a target with what stands at and below them.**  Places are given by the names
that lead to them. -/
@[ext]
structure Scene where
  /-- The path that is copied. -/
  source : Path
  /-- The path that it is copied to. -/
  target : Path
  /-- What stands at and below the source. -/
  there : Location → Option Entry
  /-- What stands at and below the target. -/
  here : Location → Option Entry

namespace Scene

/-- The scene in a tree. -/
def of (t : FileTree) (source target : Path) : Scene where
  source := source
  target := target
  there r := t.lookup (source.resolve t.workingDirectory ++ r)
  here r := t.lookup (target.resolve t.workingDirectory ++ r)

@[simp] theorem of_source (t : FileTree) (source target : Path) :
    (of t source target).source = source := rfl

@[simp] theorem of_target (t : FileTree) (source target : Path) :
    (of t source target).target = target := rfl

@[simp] theorem of_there (t : FileTree) (source target : Path) :
    (of t source target).there [] = t.lookup (source.resolve t.workingDirectory) :=
  congrArg t.lookup (List.append_nil _)

@[simp] theorem of_here (t : FileTree) (source target : Path) :
    (of t source target).here [] = t.lookup (target.resolve t.workingDirectory) :=
  congrArg t.lookup (List.append_nil _)

/-- The scene of the entry of that name. -/
def below (S : Scene) (name : Text) : Scene where
  source := S.source.join ⟨.relative, [name]⟩
  target := S.target.join ⟨.relative, [name]⟩
  there r := S.there (name :: r)
  here r := S.here (name :: r)

/-- The scene of the entry that the names lead to. -/
def along (S : Scene) (r : Location) : Scene := r.foldl below S

/-- **What is in the way of a copy**, if anything is.  A directory needs another one at the target,
or nothing where one can be made; a file needs a file there or nothing; and an entry that leads
nowhere cannot be copied. -/
def refusal? (S : Scene) : Option FileFailure :=
  match S.there [] with
  | some .directory => (barrier? S.target).or <| match S.here [] with
    | none | some .directory => none
    | some _ => some (.reaching .exists S.target)
  | some (.file _) => (barrier? S.target).or <| match S.here [] with
    | some .directory => some (.reaching .isDirectory S.target)
    | some .dangling => some (.reaching .notFound S.target)
    | _ => none
  | _ => some (.reaching .notFound S.source)

/-- The file that is written, if one is. -/
def copy? (S : Scene) : Option Path :=
  match S.there [], S.refusal? with
  | some (.file _), none => some S.target
  | _, _ => none

/-- The notice that is reported, if one is. -/
def notice? (S : Scene) : Option Notice := S.refusal?.map (.notCopied S.source S.target)

/-- **The entries that are looked at**: the source itself, and every entry of a directory that could
be listed and made. -/
inductive Attempts : Scene → Location → Prop
  /-- The source itself. -/
  | self (S : Scene) : Attempts S []
  /-- An entry of a directory that is there at both paths, or could be made. -/
  | entry {S : Scene} {name : Text} {r : Location} : S.there [] = some .directory →
      S.refusal? = none → S.there [name] ≠ none → Attempts (S.below name) r →
      Attempts S (name :: r)

end Scene

/-- **Depth-first order**, with names in ascending order in every directory. -/
inductive Before : Location → Location → Prop
  /-- A directory stands before its entries. -/
  | above {name : Text} {r : Location} : Before [] (name :: r)
  /-- Entries follow their names. -/
  | beside {a b : Text} {r r' : Location} : Text.le a b = true → a ≠ b → Before (a :: r) (b :: r')
  /-- The same holds further down. -/
  | inside {name : Text} {r r' : Location} : Before r r' → Before (name :: r) (name :: r')

/-- **What copying a scene's entries comes to** when `A` are the entries that are looked at and `m`
is the target's place: the files written, the notices reported and the tree behind. -/
structure Copied (S : Scene) (m : Location) (t : FileTree) (A : Location → Prop)
    (visited : List Location) (copied : List Path) (told : List Notice) (t' : FileTree) :
    Prop where
  /-- Every entry is looked at in its turn. -/
  order : visited.Pairwise Before
  /-- No other entries are looked at, and none is left out. -/
  visits : ∀ r, r ∈ visited ↔ A r
  /-- Nothing is wrong with the path of any of them. -/
  reachable : ∀ r ∈ visited, barrier? (S.along r).source = none
  /-- The files that nothing was in the way of are written. -/
  written : copied = visited.filterMap fun r => (S.along r).copy?
  /-- Whatever something was in the way of is reported. -/
  reported : told = visited.filterMap fun r => (S.along r).notice?
  /-- What nothing was in the way of stands at its target, too. -/
  found : ∀ r ∈ visited, (S.along r).refusal? = none →
    t'.find (S.along r).target = .ok (m ++ r, S.there r)
  /-- Everything else is as it was. -/
  elsewhere : ∀ k, (∀ r ∈ visited, (S.along r).refusal? = none → k ≠ m ++ r) →
    t'.lookup k = t.lookup k
  /-- Directories stay. -/
  alters : Alters Set.univ ∅ t t'
  /-- Each location stands once. -/
  distinct : t.Distinct → t'.Distinct

/-! ## Scenes -/

namespace Scene

variable {S : Scene} {t t' : FileTree} {source target : Path} {l m r : Location} {name : Text}

theorem along_cons (S : Scene) (name : Text) (r : Location) :
    S.along (name :: r) = (S.below name).along r := rfl

theorem along_there (S : Scene) (r r' : Location) : (S.along r).there r' = S.there (r ++ r') := by
  induction r generalizing S with
  | nil => rfl
  | cons name r ih => exact ih (S.below name)

/-- The paths of an entry are those of the scene with the names behind them. -/
theorem along_paths (S : Scene) (r : Location) :
    (S.along r).source = S.source.join ⟨.relative, r⟩ ∧
      (S.along r).target = S.target.join ⟨.relative, r⟩ := by
  induction r generalizing S with
  | nil => simp [along, Path.join, Path.isAbsolute]
  | cons name r ih =>
      obtain ⟨source, target⟩ := ih (S.below name)
      rw [along_cons, source, target]
      simp [below, Path.join, Path.isAbsolute]

/-- The scene of an entry of directories that are there. -/
theorem below_of (foundSource : t.find source = .ok (l, some .directory))
    (foundTarget : t.find target = .ok (m, some .directory)) (proper : name ≠ Path.up) :
    (of t source target).below name =
      of t (source.join ⟨.relative, [name]⟩) (target.join ⟨.relative, [name]⟩) := by
  have there := resolve_entry foundSource proper
  have here := resolve_entry foundTarget proper
  ext1
  · rfl
  · rfl
  · funext r
    show t.lookup (_ ++ name :: r) = t.lookup (_ ++ r)
    rw [there, (find_eq_ok foundSource).1, List.append_assoc]
    rfl
  · funext r
    show t.lookup (_ ++ name :: r) = t.lookup (_ ++ r)
    rw [here, (find_eq_ok foundTarget).1, List.append_assoc]
    rfl

/-- A scene is the same in a tree that has the same at and below both places. -/
theorem of_eq (same : t'.workingDirectory = t.workingDirectory)
    (there : ∀ r, t'.lookup (source.resolve t.workingDirectory ++ r) =
      t.lookup (source.resolve t.workingDirectory ++ r))
    (here : ∀ r, t'.lookup (target.resolve t.workingDirectory ++ r) =
      t.lookup (target.resolve t.workingDirectory ++ r)) :
    of t' source target = of t source target := by
  ext1
  · rfl
  · rfl
  · funext r
    show t'.lookup (_ ++ r) = _
    rw [same]
    exact there r
  · funext r
    show t'.lookup (_ ++ r) = _
    rw [same]
    exact here r

/-- Whatever is looked at below a directory is looked at in the scene of one of its entries. -/
theorem attempts_cons_iff (directory : S.there [] = some .directory)
    (accepted : S.refusal? = none) :
    S.Attempts (name :: r) ↔ S.there [name] ≠ none ∧ (S.below name).Attempts r := by
  constructor
  · rintro (_ | ⟨-, -, listed, inside⟩)
    exact ⟨listed, inside⟩
  · rintro ⟨listed, inside⟩
    exact .entry directory accepted listed inside

/-- Where no directory can be opened, nothing else is looked at. -/
theorem attempts_iff_of_closed (h : S.there [] ≠ some .directory ∨ S.refusal? ≠ none) :
    S.Attempts r ↔ r = [] := by
  constructor
  · rintro (_ | ⟨directory, accepted, -, -⟩)
    · rfl
    · exact absurd ⟨directory, accepted⟩ (not_and_or.mpr h)
  · rintro rfl
    exact .self S

end Scene

/-! ## Parts of a copy -/

namespace Copied

open Scene

variable {S : Scene} {m : Location} {t t₁ t' : FileTree} {A : Location → Prop}
  {visited : List Location} {copied : List Path} {told : List Notice} {name : Text}
  {done : List Text}

/-- The entries that are looked at in the scenes of some of a directory's entries. -/
def Among (S : Scene) (names : List Text) (r : Location) : Prop :=
  ∃ name ∈ names, ∃ r', r = name :: r' ∧ (S.below name).Attempts r'

/-- Before the first entry nothing is done. -/
theorem start (S : Scene) (m : Location) (t : FileTree) :
    Copied S m t (Among S []) [] [] [] t where
  order := .nil
  visits r := by simp [Among]
  reachable := nofun
  written := rfl
  reported := rfl
  found := nofun
  elsewhere _ _ := rfl
  alters := .refl _ _ t
  distinct := id

/-- Where something is in the way nothing is done but to report it. -/
theorem refused {f : FileFailure} (refusal : S.refusal? = some f)
    (clear : barrier? S.source = none) :
    Copied S m t S.Attempts [[]] [] [.notCopied S.source S.target f] t where
  order := List.pairwise_singleton _ _
  visits r := by
    rw [List.mem_singleton, attempts_iff_of_closed (.inr (by rw [refusal]; nofun))]
  reachable := List.forall_mem_singleton.mpr clear
  written := by
    have nothing : (S.along []).copy? = none := by
      show S.copy? = none
      rw [copy?, refusal]
      split <;> simp_all
    rw [List.filterMap_cons_none (f := fun r => (S.along r).copy?) nothing]
    rfl
  reported := by
    have notice : (S.along []).notice? = some (.notCopied S.source S.target f) := by
      show S.notice? = _
      rw [notice?, refusal]
      rfl
    rw [List.filterMap_cons_some (f := fun r => (S.along r).notice?) notice]
    rfl
  found := by
    refine List.forall_mem_singleton.mpr fun accepted => ?_
    cases refusal.symm.trans accepted
  elsewhere _ _ := rfl
  alters := .refl _ _ t
  distinct := id

/-- A file that nothing is in the way of is written. -/
theorem file {content : List UInt8} (file : S.there [] = some (.file content))
    (accepted : S.refusal? = none) (clear : barrier? S.source = none)
    (found : t'.find S.target = .ok (m, some (.file content))) (alters : Alters {m} ∅ t t')
    (distinct : t.Distinct → t'.Distinct) :
    Copied S m t S.Attempts [[]] [S.target] [] t' where
  order := List.pairwise_singleton _ _
  visits r := by
    rw [List.mem_singleton, attempts_iff_of_closed (.inl (by rw [file]; nofun))]
  reachable := List.forall_mem_singleton.mpr clear
  written := by
    have copies : (S.along []).copy? = some S.target := by
      show S.copy? = _
      rw [copy?, file, accepted]
    rw [List.filterMap_cons_some (f := fun r => (S.along r).copy?) copies]
    rfl
  reported := by
    have nothing : (S.along []).notice? = none := by
      show S.notice? = none
      rw [notice?, accepted]
      rfl
    rw [List.filterMap_cons_none (f := fun r => (S.along r).notice?) nothing]
    rfl
  found := by
    refine List.forall_mem_singleton.mpr fun _ => ?_
    rw [List.append_nil, file]
    exact found
  elsewhere k untouched := by
    have other := List.forall_mem_singleton.mp untouched accepted
    rw [List.append_nil] at other
    exact alters.lookup_eq other
  alters := alters.mono (Set.subset_univ _) Set.Subset.rfl
  distinct := distinct

/-- What is found at a target is what stands at its place. -/
theorem lookup (h : Copied S m t A visited copied told t') {r : Location} (visit : r ∈ visited)
    (accepted : (S.along r).refusal? = none) : t'.lookup (m ++ r) = S.there r :=
  (find_eq_ok (h.found r visit accepted)).2.symm

/-- **A file that was written holds what its source holds.** -/
theorem read (h : Copied S m t A visited copied told t') {p : Path} (written : p ∈ copied) :
    ∃ r content, r ∈ visited ∧ p = S.target.join ⟨.relative, r⟩ ∧
      S.there r = some (.file content) ∧ t'.read p = .ok content := by
  rw [h.written] at written
  obtain ⟨r, visit, copies⟩ := List.mem_filterMap.mp written
  rw [copy?] at copies
  split at copies
  · next content file accepted =>
      rw [along_there, List.append_nil] at file
      have target := (S.along_paths r).2
      obtain rfl := Option.some.inj copies
      have found := h.found r visit accepted
      rw [file] at found
      exact ⟨r, content, visit, target, file, read_eq_ok_iff.mpr ⟨_, found⟩⟩
  · cases copies

/-- **A directory's own part stands before that of its entries.** -/
theorem opened {names : List Text} (inside : Copied S m t₁ (Among S names) visited copied told t')
    (directory : S.there [] = some .directory) (accepted : S.refusal? = none)
    (listed : ∀ name, name ∈ names ↔ S.there [name] ≠ none) (clear : barrier? S.source = none)
    (found : t₁.find S.target = .ok (m, some .directory)) (alters : Alters Set.univ ∅ t t₁)
    (same : ∀ k, k ≠ m → t₁.lookup k = t.lookup k) (distinct : t.Distinct → t₁.Distinct) :
    Copied S m t S.Attempts ([] :: visited) copied told t' where
  order := by
    refine List.pairwise_cons.mpr ⟨fun r visit => ?_, inside.order⟩
    obtain ⟨name, -, r', rfl, -⟩ := (inside.visits r).mp visit
    exact .above
  visits r := by
    rw [List.mem_cons, inside.visits]
    cases r with
    | nil => exact ⟨fun _ => .self S, fun _ => .inl rfl⟩
    | cons name r =>
        rw [attempts_cons_iff directory accepted, ← listed]
        constructor
        · rintro (root | ⟨_, member, _, same, attempts⟩)
          · cases root
          · cases same
            exact ⟨member, attempts⟩
        · rintro ⟨member, attempts⟩
          exact .inr ⟨name, member, r, rfl, attempts⟩
  reachable := List.forall_mem_cons.mpr ⟨clear, inside.reachable⟩
  written := by
    have nothing : (S.along []).copy? = none := by
      show S.copy? = none
      rw [copy?, directory]
    rw [List.filterMap_cons_none (f := fun r => (S.along r).copy?) nothing, inside.written]
  reported := by
    have nothing : (S.along []).notice? = none := by
      show S.notice? = none
      rw [notice?, accepted]
      rfl
    rw [List.filterMap_cons_none (f := fun r => (S.along r).notice?) nothing, inside.reported]
  found := by
    refine List.forall_mem_cons.mpr ⟨fun _ => ?_, inside.found⟩
    rw [List.append_nil, directory]
    exact inside.alters.find_directory found
  elsewhere k untouched := by
    obtain ⟨own, others⟩ := List.forall_mem_cons.mp untouched
    have other : k ≠ m := by
      have := own accepted
      rwa [List.append_nil] at this
    rw [inside.elsewhere k others, same k other]
  alters := alters.trans inside.alters
  distinct before := inside.distinct (distinct before)

/-- **The part of one more entry stands behind those of the entries before it.** -/
theorem append {visited' : List Location} {copied' : List Path} {told' : List Notice}
    {t'' : FileTree} (before : Copied S m t (Among S done) visited copied told t')
    (one : Copied (S.below name) (m ++ [name]) t' (S.below name).Attempts visited' copied' told'
      t'')
    (last : ∀ a ∈ done, Text.le a name = true ∧ a ≠ name) :
    Copied S m t (Among S (done ++ [name])) (visited ++ visited'.map (name :: ·))
      (copied ++ copied') (told ++ told') t'' where
  order := by
    refine List.pairwise_append.mpr ⟨before.order, ?_, ?_⟩
    · exact one.order.map _ fun _ _ => .inside
    · intro r visit r' visit'
      obtain ⟨a, member, r, rfl, -⟩ := (before.visits r).mp visit
      obtain ⟨r', -, rfl⟩ := List.mem_map.mp visit'
      exact .beside (last a member).1 (last a member).2
  visits r := by
    rw [List.mem_append, before.visits]
    constructor
    · rintro (⟨a, member, r', rfl, attempts⟩ | visit)
      · exact ⟨a, List.mem_append_left _ member, r', rfl, attempts⟩
      · obtain ⟨r', visit', rfl⟩ := List.mem_map.mp visit
        exact ⟨name, by simp, r', rfl, (one.visits r').mp visit'⟩
    · rintro ⟨a, member, r', rfl, attempts⟩
      rcases List.mem_append.mp member with member | new
      · exact .inl ⟨a, member, r', rfl, attempts⟩
      · obtain rfl := List.mem_singleton.mp new
        exact .inr (List.mem_map_of_mem ((one.visits r').mpr attempts))
  reachable := List.forall_mem_append.mpr
    ⟨before.reachable, List.forall_mem_map.mpr one.reachable⟩
  written := by
    rw [List.filterMap_append, List.filterMap_map, before.written, one.written]
    rfl
  reported := by
    rw [List.filterMap_append, List.filterMap_map, before.reported, one.reported]
    rfl
  found := by
    refine List.forall_mem_append.mpr ⟨fun r visit accepted => ?_, ?_⟩
    · -- the entry's own places are other ones
      have kept := one.alters.find (before.found r visit accepted)
      rw [one.elsewhere, before.lookup visit accepted] at kept
      · exact kept
      · rintro r' - - same
        obtain ⟨a, member, r, rfl, -⟩ := (before.visits r).mp visit
        rw [List.append_assoc] at same
        exact (last a member).2 (List.cons.inj (List.append_cancel_left same)).1
    · refine List.forall_mem_map.mpr fun r visit accepted => ?_
      have found := one.found r visit accepted
      rw [List.append_assoc] at found
      exact found
  elsewhere k untouched := by
    obtain ⟨own, others⟩ := List.forall_mem_append.mp untouched
    rw [one.elsewhere, before.elsewhere k own]
    intro r visit accepted same
    rw [List.append_assoc] at same
    exact List.forall_mem_map.mp others r visit accepted same
  alters := before.alters.trans one.alters
  distinct first := one.distinct (before.distinct first)

end Copied

end PageAssembly.Assets
