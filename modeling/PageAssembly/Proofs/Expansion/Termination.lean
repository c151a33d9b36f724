import PageAssembly.Proofs.Expansion.Memo

/-!
# Expansion ends, and fails exactly at cycles

Where every fragment reached can be read, an expansion gives markup unless references lead into a
cycle, and then the failure names one such cycle.  The budget of an expansion decides nothing: every
larger one gives the same operation.

## Main definitions

* `Expansion.Readable` — every fragment reached from a name is well formed

## Main statements

* `Expansion.componentWithin_eq` — budgets that outweigh the tree are interchangeable
* `Expansion.component_circular_iff` — expansion of a component, with nothing remembered
-/

namespace PageAssembly.Expansion

open Relation

variable {t : FileTree} {directory : Path}

/-! ## The budget decides nothing -/

theorem mapM_congr {m : Type → Type} [Monad m] [LawfulMonad m] {α β : Type} {l : List α}
    {f g : α → m β} (h : ∀ a ∈ l, f a = g a) : l.mapM f = l.mapM g := by
  induction l with
  | nil => rfl
  | cons a l ih =>
      rw [List.mapM_cons, List.mapM_cons, h a List.mem_cons_self,
        ih fun b hb => h b (List.mem_cons_of_mem _ hb)]

/-- Lines are the same operation with two ways to expand their references that agree on them. -/
theorem linesWith_congr {f g : Place → Text → Expanding Text} {source : Text} {lines : List Text}
    (h : ∀ place name, .reference name ∈ piecesOf lines → f place name = g place name) :
    linesWith f source lines = linesWith g source lines := by
  have each : ∀ a ∈ lines.zipIdx 1,
      lineWith f ⟨source, (a.2 : Nat)⟩ a.1 = lineWith g ⟨source, (a.2 : Nat)⟩ a.1 := by
    intro a ha
    have member : a.1 ∈ lines := List.fst_mem_of_mem_zipIdx ha
    rw [lineWith, lineWith]
    refine congrArg (· >>= _) (mapM_congr fun piece hpiece => ?_)
    cases piece with
    | literal text => rfl
    | untaken name => rfl
    | reference name =>
        exact h _ name (List.mem_flatMap.mpr ⟨a.1, member, hpiece⟩)
  rw [linesWith, linesWith]
  exact congrArg (· >>= _) (mapM_congr each)

/-- **Budgets that outweigh the tree are interchangeable**, for no trail is long enough to use one
of them up. -/
theorem componentWithin_eq {first second : Nat} {inProgress : List Text} {place : Place}
    {name : Text} (trail : Trail t directory inProgress name)
    (enough : t.size + 2 ≤ first + inProgress.length)
    (enough' : t.size + 2 ≤ second + inProgress.length) :
    componentWithin t directory first inProgress place name =
      componentWithin t directory second inProgress place name := by
  induction first generalizing second inProgress place name with
  | zero =>
      obtain ⟨budget, exhausted⟩ := trail.exists_budget enough
      cases exhausted
  | succ first ih =>
      -- the second budget is not used up either, so both recursions take the same step
      obtain ⟨second, rfl⟩ := trail.exists_budget enough'
      rw [componentWithin, componentWithin]
      by_cases again : name ∈ inProgress
      · simp only [if_pos again]
        rfl
      · simp only [if_neg again]
        cases read : t.read (Fragment.path directory name) with
        | error failure => rfl
        | ok bytes =>
            have nested : linesWith (componentWithin t directory first (inProgress ++ [name]))
                  (Fragment.path directory name).name (Stored.lines bytes).delivered =
                linesWith (componentWithin t directory second (inProgress ++ [name]))
                  (Fragment.path directory name).name (Stored.lines bytes).delivered := by
              refine linesWith_congr fun place n hn => ?_
              have longer := trail.extend again (refers_of_reference read hn)
              refine ih longer ?_ ?_ <;>
                · rw [List.length_append, List.length_singleton]
                  omega
            simp only [nested]

/-! ## Fragments that can be read -/

/-- **Every fragment reached from a name can be read**: its path holds no NUL, and what stands there
is well-formed UTF-8. -/
structure Readable (t : FileTree) (directory : Path) (name : Text) : Prop where
  /-- A file system can be asked for the fragment. -/
  named : ∀ b, Reaches t directory name b → '\x00' ∉ (Fragment.path directory b).text
  /-- Its bytes spell a text. -/
  encoded : ∀ b bytes, Reaches t directory name b →
    t.read (Fragment.path directory b) = .ok bytes → (Utf8.decode bytes).2 = none

theorem fault_lines {bytes : List UInt8} (h : (Utf8.decode bytes).2 = none) :
    (Stored.lines bytes).fault = none := by
  rw [Stored.lines]
  split
  · rfl
  · next s fault decoded =>
      rw [decoded] at h
      cases h

/-- Where every fragment can be read, only cycles are in the way. -/
theorem Readable.exists_cycle {start : Text} {e : Failure} (readable : Readable t directory start)
    (obstructs : Obstructs t directory start e) :
    ∃ cycle, IsCycle t directory cycle ∧ (∀ x ∈ cycle, Reaches t directory start x) ∧
      e = .circular (Text.sortUnique cycle) := by
  cases obstructs with
  | circular cycle reached => exact ⟨_, cycle, reached, rfl⟩
  | encoding reached read unsound =>
      rw [fault_lines (readable.encoded _ _ reached read)] at unsound
      cases unsound
  | files reached read system =>
      rw [FileTree.isSystem_of_read (readable.named _ reached) read] at system
      cases system

/-- A cycle that is reached can be entered at a name of it. -/
theorem IsCycle.exists_reached {start : Text} {names : List Text}
    (cycle : IsCycle t directory names) (reached : ∀ x ∈ names, Reaches t directory start x) :
    ∃ x, Reaches t directory start x ∧ TransGen (Refers t directory) x x := by
  obtain ⟨x, hx⟩ := List.exists_mem_of_ne_nil names cycle.ne_nil
  exact ⟨x, reached x hx, cycle.transGen hx⟩

/-- **Expanding a component with nothing remembered ends whatever the fragments hold, and fails
exactly when references lead from it into a cycle.**  The first clause says that the budget does not
end it; by the other three the failure names all of one such cycle and nothing else, and without a
cycle there is markup. -/
theorem component_circular_iff {name : Text} (readable : Readable t directory name) (place : Place)
    (notices : Notices) :
    (∀ n, budget t ≤ n →
        componentWithin t directory n [] place name = component t directory place name) ∧
      ∃ result, ((component t directory place name).run.run { notices }).1 = result ∧
        ((∃ names, result = .error (.circular names)) ↔
          ∃ x, Reaches t directory name x ∧ TransGen (Refers t directory) x x) ∧
        (∀ names, result = .error (.circular names) →
          ∃ cycle, IsCycle t directory cycle ∧ (∀ x ∈ cycle, Reaches t directory name x) ∧
            names = Text.sortUnique cycle) ∧
        ((¬ ∃ names, result = .error (.circular names)) → ∃ markup, result = .ok markup) := by
  have start := Trail.start t directory name
  have enough : t.size + 2 ≤ budget t + ([] : List Text).length := Nat.le_refl _
  refine ⟨fun n hn => componentWithin_eq start (by simpa [budget] using hn) enough, ?_⟩
  obtain ⟨s', run, -⟩ := gives_component place name { notices } (sound_empty t directory)
  refine ⟨outcome t directory name, congrArg Prod.fst run, ?_⟩
  cases result : outcome t directory name with
  | ok markup =>
      -- what yields markup reaches no cycle
      have yields := yields_of_outcomeWithin result
      have noCycle : ¬ ∃ x, Reaches t directory name x ∧ TransGen (Refers t directory) x x := by
        rintro ⟨x, reached, around⟩
        obtain ⟨markup', yields'⟩ := yields.of_reaches reached
        exact yields'.not_transGen around
      refine ⟨⟨?_, fun cycle => absurd cycle noCycle⟩, ?_, fun _ => ⟨markup, rfl⟩⟩
      · rintro ⟨names, h⟩
        cases h
      · intro names h
        cases h
  | error e =>
      -- a failure has a cause, and where all can be read the cause is a cycle
      have obstructs : Obstructs t directory name e := by
        refine obstructs_of_outcomeWithin start enough (fun x hx => ?_) result
        rw [List.mem_singleton.mp hx]
      obtain ⟨cycle, isCycle, reached, rfl⟩ := readable.exists_cycle obstructs
      refine ⟨⟨fun _ => isCycle.exists_reached reached, fun _ => ⟨_, rfl⟩⟩, ?_, ?_⟩
      · intro names h
        cases h
        exact ⟨cycle, isCycle, reached, rfl⟩
      · intro noCycle
        exact absurd ⟨_, rfl⟩ noCycle

/-! ### A fragment that refers to itself, and one that leads to it -/

/-- A tree in which `a` refers to itself and `b` refers to `a`. -/
def cyclicTree : FileTree where
  entries := [([['c']], .directory),
    ([['c'], ['a', '.', 'h', 't', 'm', 'l']], .file (Utf8.encode "<app-a/>".toList)),
    ([['c'], ['b', '.', 'h', 't', 'm', 'l']], .file (Utf8.encode "x<app-a/>".toList))]

theorem cyclicTree_read : ∀ b ∈ [['a'], ['b']], ∃ bytes,
    cyclicTree.read (Fragment.path exampleDirectory b) = .ok bytes ∧ (Utf8.decode bytes).2 = none ∧
      ∀ n, .reference n ∈ piecesOf (Stored.lines bytes).delivered → n = ['a'] := by
  rw [List.forall_mem_cons, List.forall_mem_singleton]
  refine ⟨⟨Utf8.encode "<app-a/>".toList, ?_, ?_, ?_⟩, Utf8.encode "x<app-a/>".toList, ?_, ?_, ?_⟩
  · decide
  · decide +kernel
  · have pieces : piecesOf (Stored.lines (Utf8.encode "<app-a/>".toList)).delivered =
        [.literal [], .reference ['a'], .literal []] := by decide +kernel
    rw [pieces]
    simp
  · rfl
  · decide +kernel
  · have pieces : piecesOf (Stored.lines (Utf8.encode "x<app-a/>".toList)).delivered =
        [.literal ['x'], .reference ['a'], .literal []] := by decide +kernel
    rw [pieces]
    simp

theorem cyclicTree_reaches {x : Text} (h : Reaches cyclicTree exampleDirectory ['b'] x) :
    x ∈ [['a'], ['b']] := by
  induction h with
  | refl => decide
  | tail _ refers ih =>
      obtain ⟨bytes, read, -, only⟩ := cyclicTree_read _ ih
      rw [only _ (reference_of_refers read refers)]
      exact List.mem_cons_self

theorem cyclicTree_readable : Readable cyclicTree exampleDirectory ['b'] where
  named b reached := by
    have either := cyclicTree_reaches reached
    rw [List.mem_cons, List.mem_singleton] at either
    rcases either with rfl | rfl <;> decide
  encoded b bytes reached read := by
    obtain ⟨bytes', read', decoded, -⟩ := cyclicTree_read b (cyclicTree_reaches reached)
    rw [read] at read'
    exact Except.ok.inj read' ▸ decoded

/-- The expansion of `b` fails, so a cycle is reached. -/
theorem cyclicTree_circular : Readable cyclicTree exampleDirectory ['b'] ∧
    ((component cyclicTree exampleDirectory {} ['b']).run.run {}).1 = .error (.circular [['a']]) ∧
    ∃ x, Reaches cyclicTree exampleDirectory ['b'] x ∧
      TransGen (Refers cyclicTree exampleDirectory) x x := by
  have run : ((component cyclicTree exampleDirectory {} ['b']).run.run {}).1 =
      .error (.circular [['a']]) := by decide +kernel
  obtain ⟨-, result, ends, iff, -⟩ := component_circular_iff cyclicTree_readable {} #[]
  exact ⟨cyclicTree_readable, run, iff.mp ⟨_, ends.symm.trans run⟩⟩

end PageAssembly.Expansion
