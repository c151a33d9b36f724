import Mathlib.Data.Set.Lattice
import Mathlib.Order.CompletePartialOrder
import PageAssembly.Proofs.FileTree.Alteration
import PageAssembly.Proofs.Job.Ends

/-!
# Jobs that have nothing left to do

A job is settled on a tree when running it once more, there or on any tree that keeps what it looks
at, ends with a result and changes nothing.

## Main definitions

* `FileTree.Unaltered` — two trees that differ nowhere
* `FileTree.Keeps` — everything in a set of places is as it was
* `Job.Settled` — running the job changes nothing any more
* `Job.Settles` — the job is settled behind each of its results

## Main statements

* `Job.Settled.of_alters` — what is changed elsewhere leaves a job settled
* `Job.mapM_settles` — steps that touch only what the others do not look at settle together

### One footprint for each step

Of several steps the later ones change the tree behind the earlier ones.  An earlier step stays
settled because the later ones touch nothing that it looks at, and a step that comes again is
settled by its last run.
-/

namespace PageAssembly

namespace FileTree

/-- The trees differ at no place. -/
abbrev Unaltered (t t' : FileTree) : Prop := Alters ∅ ∅ t t'

/-- **Everything that stands at the places is kept.** -/
abbrev Keeps (places : Set Location) (t t' : FileTree) : Prop := Alters placesᶜ ∅ t t'

variable {t t' : FileTree} {places touched : Set Location} {l : Location}

/-- Where no directory is made, what is not touched is as it was. -/
theorem Alters.lookup_eq (h : Alters touched ∅ t t') (hl : l ∉ touched) :
    t'.lookup l = t.lookup l := by
  rcases h.elsewhere l hl with same | ⟨made, -⟩
  · exact same
  · exact absurd made (Set.notMem_empty l)

theorem Keeps.lookup (h : Keeps places t t') (hl : l ∈ places) : t'.lookup l = t.lookup l :=
  h.lookup_eq fun other => other hl

theorem Keeps.of_subset {places' : Set Location} (h : Keeps places t t') (hp : places' ⊆ places) :
    Keeps places' t t' :=
  h.mono (fun _ other inside => other (hp inside)) Set.Subset.rfl

theorem Keeps.unaltered {t'' : FileTree} (h : Keeps places t t') (same : Unaltered t' t'') :
    Keeps places t t'' :=
  h.trans (same.mono (Set.empty_subset _) Set.Subset.rfl)

theorem Unaltered.lookup (h : Unaltered t t') (l : Location) : t'.lookup l = t.lookup l :=
  h.lookup_eq (Set.notMem_empty l)

/-- An alteration after which everything stands where it stood. -/
theorem Unaltered.of_lookup {made : Set Location} (h : Alters touched made t t')
    (same : ∀ l, t'.lookup l = t.lookup l) : Unaltered t t' :=
  ⟨h.workingDirectory, h.directories, fun l _ => .inl (same l), h.plain⟩

/-- Putting an entry where it stands already alters nothing. -/
theorem Unaltered.put (p : Path) {e : Entry}
    (standing : t.lookup (p.resolve t.workingDirectory) = some e) (other : e ≠ .directory) :
    Unaltered t (t.put (p.resolve t.workingDirectory) e) := by
  have file : t.lookup (p.resolve t.workingDirectory) ≠ some .directory := by
    rw [standing]
    exact fun same => other (Option.some.inj same)
  have there : Alters {p.resolve t.workingDirectory} ∅ t (t.put (p.resolve t.workingDirectory) e) :=
    .put p file (Set.mem_singleton _) e
  refine .of_lookup there fun l => ?_
  rw [lookup_put t (ne_nil_of_lookup file)]
  split
  · next here => rw [here, standing]
  · rfl

/-- Where every directory that may be made is there already, none is made. -/
theorem Alters.of_made_stands {made : Set Location} (h : Alters touched made t t')
    (stands : ∀ l ∈ made, l ∉ touched → t.lookup l ≠ none) : Alters touched ∅ t t' where
  workingDirectory := h.workingDirectory
  directories := h.directories
  elsewhere := by
    intro l hl
    rcases h.elsewhere l hl with same | ⟨made, none, -⟩
    · exact .inl same
    · exact absurd none (stands l made hl)
  plain := h.plain

end FileTree

namespace Job

open FileTree

variable {α β : Type} {job : Job α} {t t' : FileTree} {touched footprint : Set Location}

/-- Two properties of all ends. -/
theorem Ends.and {P Q : α → FileTree → Prop} {E E' : Failure → FileTree → Prop}
    (first : job.Ends t P E) (second : job.Ends t Q E') :
    job.Ends t (fun a t' => P a t' ∧ Q a t') fun failure t' => E failure t' ∧ E' failure t' := by
  intro notices
  have h := first notices
  have h' := second notices
  split at h
  · next run =>
      rw [run] at h'
      exact ⟨h, h'⟩
  · next run =>
      rw [run] at h'
      exact ⟨h, h'⟩

/-- What stands behind a look at the tree can be run on that tree. -/
theorem Ends.of_tree_bind {next : FileTree → Job α} {Q : α → FileTree → Prop}
    {E : Failure → FileTree → Prop} (h : (Job.tree >>= next).Ends t Q E) : (next t).Ends t Q E :=
  fun notices => h notices

/-- **Running the job once more changes nothing**, on the tree and on every one that keeps the
job's footprint, and it ends with a result. -/
def Settled (job : Job α) (footprint : Set Location) (t : FileTree) : Prop :=
  ∀ t', Keeps footprint t t' → job.Ends t' (fun _ => Unaltered t') fun _ _ => False

/-- **The job is settled behind each of its results**, and has touched no more than the given
places. -/
def Settles (job : Job α) (touched footprint : Set Location) (t : FileTree) : Prop :=
  job.Ends t (fun _ t' => Alters touched ∅ t t' ∧ job.Settled footprint t') fun _ _ => True

namespace Settled

theorem mono {footprint' : Set Location} (settled : job.Settled footprint t)
    (h : footprint ⊆ footprint') : job.Settled footprint' t :=
  fun t' keeps => settled t' (keeps.of_subset h)

/-- What is changed elsewhere leaves the job settled. -/
theorem of_alters (settled : job.Settled footprint t) (alters : Alters touched ∅ t t')
    (apart : Disjoint touched footprint) : job.Settled footprint t' := by
  intro t'' keeps
  have elsewhere : touched ⊆ footprintᶜ := fun _ h => Set.disjoint_left.mp apart h
  exact settled t'' ((alters.mono elsewhere Set.Subset.rfl).trans keeps)

end Settled

/-- A job that settles in fewer places. -/
theorem Settles.mono {touched' footprint' : Set Location}
    (settles : job.Settles touched footprint t) (ht : touched ⊆ touched')
    (hf : footprint ⊆ footprint') : job.Settles touched' footprint' t :=
  Ends.mono settles (fun _ _ ⟨alters, settled⟩ => ⟨alters.mono ht Set.Subset.rfl, settled.mono hf⟩)
    fun _ _ _ => trivial

theorem Settles.pure (a : α) : (Pure.pure a : Job α).Settles touched footprint t :=
  Ends.pure ⟨.refl _ _ t, fun t' _ => .pure (.refl _ _ t')⟩

/-- What follows a job that settles leaves the tree alone. -/
theorem Settles.map (f : α → β) (settles : job.Settles touched footprint t) :
    (job >>= fun a => Pure.pure (f a)).Settles touched footprint t :=
  Ends.bind settles fun _ _ ⟨alters, settled⟩ => .pure ⟨alters, fun t' keeps =>
    .bind (settled t' keeps) fun _ _ unaltered => .pure unaltered⟩

variable {step : α → Job β} {reach look : α → Set Location}

/-- **Steps that touch nothing another one looks at settle together**: behind the last of them all
are settled. -/
theorem mapM_settles (as : List α)
    (settles : ∀ a ∈ as, ∀ t', Alters Set.univ ∅ t t' → (step a).Settles (reach a) (look a) t')
    (apart : ∀ a ∈ as, ∀ b ∈ as, a ≠ b → Disjoint (reach b) (look a)) :
    (as.mapM step).Ends t (fun _ t' => Alters {l | ∃ a ∈ as, l ∈ reach a} ∅ t t' ∧
      ∀ a ∈ as, (step a).Settled (look a) t') fun _ _ => True := by
  induction as generalizing t with
  | nil => exact .pure ⟨.refl _ _ t, fun a h => absurd h List.not_mem_nil⟩
  | cons a as ih =>
      rw [List.mapM_cons]
      refine .bind (settles a List.mem_cons_self t (.refl _ _ t)) ?_
      rintro _ t₁ ⟨first, done⟩
      have between : Alters Set.univ ∅ t t₁ := first.mono (Set.subset_univ _) Set.Subset.rfl
      have others := ih
        (fun b hb t' h => settles b (List.mem_cons_of_mem a hb) t' (between.trans h))
        fun b hb c hc => apart b (List.mem_cons_of_mem a hb) c (List.mem_cons_of_mem a hc)
      refine .bind others ?_
      rintro _ t₂ ⟨rest, settled⟩
      refine .pure ⟨?_, ?_⟩
      · have head : reach a ⊆ {l | ∃ b ∈ a :: as, l ∈ reach b} :=
          fun l hl => ⟨a, List.mem_cons_self, hl⟩
        have tail : {l | ∃ b ∈ as, l ∈ reach b} ⊆ {l | ∃ b ∈ a :: as, l ∈ reach b} :=
          fun l ⟨b, hb, hl⟩ => ⟨b, List.mem_cons_of_mem a hb, hl⟩
        exact (first.mono head Set.Subset.rfl).trans (rest.mono tail Set.Subset.rfl)
      · intro b hb
        by_cases again : b ∈ as
        · exact settled b again
        · obtain rfl := (List.mem_cons.mp hb).resolve_right again
          refine done.of_alters rest (Set.disjoint_left.mpr ?_)
          rintro l ⟨c, hc, hl⟩ hlook
          have other : b ≠ c := fun same => again (same ▸ hc)
          exact Set.disjoint_left.mp
            (apart b List.mem_cons_self c (List.mem_cons_of_mem b hc) other) hl hlook

/-- What file operations give one after the other is what they give together. -/
theorem mapM_ofFiles {γ : Type} (op : α → Except FileFailure γ) (as : List α) :
    (as.mapM fun a => Job.ofFiles (op a)) = Job.ofFiles (as.mapM op) := by
  induction as with
  | nil => rfl
  | cons a as ih =>
      rw [List.mapM_cons, List.mapM_cons, ih]
      cases op a with
      | error f => rfl
      | ok c => cases as.mapM op <;> rfl

/-- Settled steps change nothing, one after the other. -/
theorem mapM_unaltered (as : List α)
    (settled : ∀ a ∈ as, ∀ t', Unaltered t t' → (step a).Ends t' (fun _ => Unaltered t')
      fun _ _ => False) :
    (as.mapM step).Ends t (fun _ => Unaltered t) fun _ _ => False :=
  .mapM as (.refl _ _ t) fun a ha t' before =>
    (settled a ha t' before).mono (fun _ _ after => before.trans after) fun _ _ h => h

end Job

end PageAssembly
