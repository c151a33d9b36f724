import PageAssembly.Proofs.Expansion.Congruence

/-!
# Notices are written and not read

An expansion reports notices as it goes and never looks at what has been reported, so an operation
that reports other notices, or none, can stand in its place.

## Main definitions

* `Expansion.NoticesAside` — two operations do the same, notices aside

## Main statements

* `Expansion.noticesAside_component` — expanding a component does the same whatever has been
  reported before
-/

namespace PageAssembly.Expansion

variable {t : FileTree} {directory : Path}

/-- **Notices aside, the two operations do the same**: on every memo they have one outcome and leave
one memo, whatever has been reported before each of them. -/
def NoticesAside {α : Type} (op op' : Expanding α) : Prop :=
  ∀ m notices notices', ∃ r m' after after',
    op.run.run ⟨m, notices⟩ = (r, ⟨m', after⟩) ∧ op'.run.run ⟨m, notices'⟩ = (r, ⟨m', after'⟩)

/-- A notice that one of the operations reports. -/
theorem NoticesAside.note_left {α : Type} {op op' : Expanding α} (same : NoticesAside op op')
    (n : Notice) : NoticesAside (do Expanding.note n; op) op' :=
  fun m notices notices' => same m (notices.push n) notices'

/-- **Operations that do the same, notices aside, go on doing the same.** -/
theorem noticesAside_congruence : Congruence (fun _ => True) NoticesAside where
  pure a m notices notices' := ⟨.ok a, m, notices, notices', rfl, rfl⟩
  throw e m notices notices' := ⟨.error e, m, notices, notices', rfl, rfl⟩
  note n m notices notices' := ⟨.ok (), m, notices.push n, notices'.push n, rfl, rfl⟩
  remembered name m notices notices' := ⟨.ok (m.get? name), m, notices, notices', rfl, rfl⟩
  remember _ markup m notices notices' := ⟨.ok (), m.store _ markup, notices, notices', rfl, rfl⟩
  bind := by
    intro α β op op' f f' first next m notices notices'
    obtain ⟨r, m₁, between, between', run, run'⟩ := first m notices notices'
    rw [Failure.run_bind, Failure.run_bind, run, run']
    cases r with
    | error e => exact ⟨.error e, m₁, between, between', rfl, rfl⟩
    | ok a => exact next a m₁ between between'

/-! ## Expansions read no notices -/

/-- No nested expansion reads a notice. -/
theorem noticesAside_componentWithin (budget : Nat) (inProgress : List Text) (place : Place)
    (name : Text) :
    NoticesAside (componentWithin t directory budget inProgress place name)
      (componentWithin t directory budget inProgress place name) := by
  induction budget generalizing inProgress place name with
  | zero => exact noticesAside_congruence.throw _
  | succ budget ih =>
      rw [componentWithin_succ]
      exact noticesAside_congruence.openWith (ih (inProgress ++ [name])) trivial inProgress place

/-- **Expanding a component does the same whatever has been reported before.** -/
theorem noticesAside_component (place : Place) (name : Text) :
    NoticesAside (component t directory place name) (component t directory place name) :=
  noticesAside_componentWithin _ [] place name

end PageAssembly.Expansion
