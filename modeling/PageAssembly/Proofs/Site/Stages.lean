import PageAssembly.Proofs.Site.Index

/-!
# What a failed run leaves

A site is compiled in three stages: the markup is assembled, it is published, and the assets are
copied.  A run that fails leaves what the stage in which it fails leaves.

## Main definitions

* `Site.Unassembled` — the causes for which no markup is assembled
* `Site.EndsAs` — how a run ends, stage by stage

## Main statements

* `Site.assemble_fails` — assembling fails in reading, in the survey or in the expansion
* `Site.compile_failure` — what stands after a run that fails in each of the stages

### Why nothing is published too early

Assembling is given a tree and no session, so whatever it fails for, the tree is the one before.
The assets are copied behind a publication that returned, so none of them is copied when publishing
fails.
-/

namespace PageAssembly.Site

variable {t : FileTree} {s : Settings}

/-- **The causes for which no markup is assembled.** -/
inductive Unassembled (t : FileTree) (s : Settings) (failure : Failure) : Prop
  /-- The root document cannot be read. -/
  | index : (readIndex t s.indexPath).Fails failure → Unassembled t s failure
  /-- The component directory cannot be surveyed, or a component reaches itself. -/
  | components {source : Text} : (readIndex t s.indexPath).Gives source →
      (Dependencies.surveyValid t s.componentsPath).Fails failure → Unassembled t s failure
  /-- The references of the root document cannot be replaced. -/
  | expansion {source : Text} {d : Dependencies} : (readIndex t s.indexPath).Gives source →
      (Dependencies.surveyValid t s.componentsPath).Gives d →
      (expandIndex t s source).Fails failure → Unassembled t s failure

/-- Assembling fails in one of its three parts. -/
theorem assemble_fails {failure : Failure} (fails : (assemble t s).Fails failure) :
    Unassembled t s failure := by
  rw [assemble] at fails
  rcases fails.of_bind with reading | ⟨source, read, fails⟩
  · exact .index reading
  rcases fails.of_bind with surveying | ⟨d, surveyed, expanding⟩
  · exact .components read surveying
  · exact .expansion read surveyed expanding

/-- **How a run of the compilation ends**, and what it leaves of the tree that it started on. -/
inductive EndsAs (s : Settings) (t t' : FileTree) : Except Failure Path → Prop
  /-- No markup is assembled: nothing has changed. -/
  | unassembled {failure : Failure} : Unassembled t s failure → t' = t →
      EndsAs s t t' (.error failure)
  /-- The markup is not published: the target holds what it held, and no asset was looked at. -/
  | unpublished {failure : Failure} {markup : Text} : Assembled t s markup →
      (Publication.publish { chunks := [markup] } s.targetPath).Fails t failure t' →
      Publication.Unpublished s.targetPath t t' → EndsAs s t t' (.error failure)
  /-- The markup is published, and copying the assets fails. -/
  | uncopied {failure : Failure} {markup : Text} {t₁ : FileTree} : Assembled t s markup →
      Publication.Published { chunks := [markup] } s.targetPath t t₁ →
      (Assets.copyAll s).Fails t₁ failure t' → EndsAs s t t' (.error failure)
  /-- All stages are passed. -/
  | compiled {markup : Text} {t₁ : FileTree} : Assembled t s markup →
      Publication.Published { chunks := [markup] } s.targetPath t t₁ →
      EndsAs s t t' (.ok s.targetPath)

/-- Every end of a run is one of the four. -/
theorem compile_endsAs (s : Settings) (t : FileTree) :
    (compile s).Ends t (fun path t' => EndsAs s t t' (.ok path))
      fun failure t' => EndsAs s t t' (.error failure) := by
  rw [compile]
  refine .note_bind _ (.bind (.reading (Q := fun markup t' => t = t' ∧ Assembled t s markup)
    (fun notices markup h => ⟨rfl, assemble_ensures notices markup h⟩)
    fun notices failure h => .unassembled (assemble_fails ⟨notices, h⟩) rfl) ?_)
  rintro markup _ ⟨rfl, assembled⟩
  refine .bind ((Publication.publish_ends _ _ t).fails.mono (fun _ _ h => h)
    fun failure t' h => .unpublished assembled h.2 h.1) ?_
  rintro _ t₁ ⟨rfl, published⟩
  refine .note_bind _ (.bind (P := fun _ _ => True) ?_ fun copied t₂ _ => ?_)
  · have anyEnd : (Assets.copyAll s).Ends t₁ (fun _ _ => True) fun _ _ => True := by
      intro notices
      split <;> trivial
    exact anyEnd.fails.mono (fun _ _ h => h)
      fun failure t' h => .uncopied assembled published h.2
  · exact .note_bind _ (.note_bind _ (.pure (.compiled assembled published)))

/-- **A failed run publishes nothing.**  On every tree and for all settings, a run that fails before
any markup is assembled, for whatever cause, leaves the tree exactly as it was.  One that fails in
publishing leaves every entry at the target, leads to it as before, and alters nothing but the
temporary file and directories on the way to the target: it ends where publishing ends, so no asset
was copied.  Only a run that has published the markup can fail later, and one that ends with a
result has passed both stages. -/
theorem compile_failure (s : Settings) (before : Session) :
    match (compile s).runOn before with
      | (.ok path, after) => EndsAs s before.tree after.tree (.ok path)
      | (.error failure, after) =>
        (Unassembled before.tree s failure ∧ after.tree = before.tree) ∨
        (∃ markup, Assembled before.tree s markup ∧
          (Publication.publish { chunks := [markup] } s.targetPath).Fails before.tree failure
            after.tree ∧
          (∀ e, before.tree.lookup (s.targetPath.resolve before.tree.workingDirectory) = some e →
            after.tree.lookup (s.targetPath.resolve before.tree.workingDirectory) = some e) ∧
          Publication.Unpublished s.targetPath before.tree after.tree) ∨
        ∃ markup t₁, Assembled before.tree s markup ∧
          Publication.Published { chunks := [markup] } s.targetPath before.tree t₁ ∧
          (Assets.copyAll s).Fails t₁ failure after.tree := by
  have ends := compile_endsAs s before.tree before.notices
  rw [show (⟨before.tree, before.notices⟩ : Session) = before from rfl] at ends
  rcases outcome : (compile s).runOn before with ⟨failure | path, after⟩ <;> rw [outcome] at ends
  · cases ends with
    | unassembled cause same => exact .inl ⟨cause, same⟩
    | unpublished assembled fails kept =>
        exact .inr (.inl ⟨_, assembled, fails, kept.kept, kept⟩)
    | uncopied assembled published fails =>
        exact .inr (.inr ⟨_, _, assembled, published, fails⟩)
  · exact ends

end PageAssembly.Site
