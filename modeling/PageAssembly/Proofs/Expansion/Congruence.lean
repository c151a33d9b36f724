import PageAssembly.Proofs.Expansion.Memo

/-!
# Relations that expansions respect

Two expansions that differ only in how they expand a nested reference are compared step by step, and
the steps are the same whatever relation the comparison is about.  This module takes them once.

## Main definitions

* `Expansion.openWith` — the step of an expansion, with a parameter for the nested references
* `Expansion.Congruence` — a relation that the constructs of an expansion respect

## Main statements

* `Expansion.Congruence.linesWith` — lines are related when their references are
* `Expansion.Congruence.openWith` — so are the steps of two expansions
-/

namespace PageAssembly.Expansion

variable {t : FileTree} {directory : Path}

/-! ## The step of an expansion -/

/-- The markup of a fragment that is not yet in progress, with `expand` for its references. -/
def fragmentWith (expand : Place → Text → Expanding Text) (t : FileTree) (directory : Path)
    (place : Place) (name : Text) : Expanding Text := do
  match t.read (Fragment.path directory name) with
  | .error failure =>
    if failure.isSystem then
      Expanding.note (.missingFragment name place.line place.source directory)
      return []
    else throw (.files failure)
  | .ok bytes =>
    let stored := Stored.lines bytes
    let markup ← linesWith expand (Fragment.path directory name).name stored.delivered
    match stored.fault with
    | some fault => throw (.encoding fault)
    | none =>
      Expanding.remember name markup
      return markup

/-- The step of an expansion, with `expand` for the references in the fragment. -/
def openWith (expand : Place → Text → Expanding Text) (t : FileTree) (directory : Path)
    (inProgress : List Text) (place : Place) (name : Text) : Expanding Text := do
  match ← Expanding.remembered name with
  | some markup =>
    Expanding.note (.remembered name)
    return markup
  | none =>
    if name ∈ inProgress then
      throw (.circular (Text.sortUnique (inProgress.dropWhile fun n => !(n == name))))
    fragmentWith expand t directory place name

theorem componentWithin_succ (budget : Nat) (inProgress : List Text) (place : Place)
    (name : Text) : componentWithin t directory (budget + 1) inProgress place name =
      openWith (componentWithin t directory budget (inProgress ++ [name])) t directory inProgress
        place name := rfl

/-- A name that is neither remembered nor in progress is looked up in the component directory. -/
theorem run_openWith_of_unknown (expand : Place → Text → Expanding Text) {inProgress : List Text}
    (place : Place) {name : Text} (fresh : name ∉ inProgress) {s : Expanding.State}
    (unknown : s.memo.get? name = none) :
    (openWith expand t directory inProgress place name).run.run s =
      (fragmentWith expand t directory place name).run.run s := by
  rw [openWith, Failure.run_bind]
  show (match s.memo.get? name with
    | some markup => _
    | none => _ : Expanding Text).run.run s = _
  rw [unknown]
  simp only [if_neg fresh]

/-- A name that is remembered is answered from the memo, with a notice. -/
theorem run_openWith_of_known (expand : Place → Text → Expanding Text) (inProgress : List Text)
    (place : Place) {name markup : Text} {s : Expanding.State}
    (known : s.memo.get? name = some markup) :
    (openWith expand t directory inProgress place name).run.run s =
      (.ok markup, { s with notices := s.notices.push (.remembered name) }) := by
  rw [openWith, Failure.run_bind]
  show (match s.memo.get? name with
    | some markup => _
    | none => _ : Expanding Text).run.run s = _
  rw [known]
  rfl

/-- A name that is in progress and not remembered ends the expansion. -/
theorem run_openWith_of_again (expand : Place → Text → Expanding Text) {inProgress : List Text}
    (place : Place) {name : Text} (again : name ∈ inProgress) {s : Expanding.State}
    (unknown : s.memo.get? name = none) :
    (openWith expand t directory inProgress place name).run.run s =
      (.error (.circular (Text.sortUnique (inProgress.dropWhile fun n => !(n == name)))), s) := by
  rw [openWith, Failure.run_bind]
  show (match s.memo.get? name with
    | some markup => _
    | none => _ : Expanding Text).run.run s = _
  rw [unknown]
  simp only [if_pos again]
  rfl

/-! ## Constructs and steps -/

/-- **A relation that the constructs of an expansion respect**, when only the markup of names with
`kept` is remembered. -/
structure Congruence (kept : Text → Prop)
    (R : ∀ {α : Type}, Expanding α → Expanding α → Prop) : Prop where
  /-- A result. -/
  pure : ∀ {α : Type} (a : α), R (Pure.pure a : Expanding α) (Pure.pure a)
  /-- A failure. -/
  throw : ∀ {α : Type} (e : Failure),
    R (MonadExcept.throw e : Expanding α) (MonadExcept.throw e)
  /-- A notice. -/
  note : ∀ n, R (Expanding.note n) (Expanding.note n)
  /-- What is remembered of a component. -/
  remembered : ∀ name, R (Expanding.remembered name) (Expanding.remembered name)
  /-- A component that is remembered. -/
  remember : ∀ {name}, kept name → ∀ markup,
    R (Expanding.remember name markup) (Expanding.remember name markup)
  /-- One operation after another. -/
  bind : ∀ {α β : Type} {op op' : Expanding α} {f f' : α → Expanding β},
    R op op' → (∀ a, R (f a) (f' a)) → R (op >>= f) (op' >>= f')

namespace Congruence

variable {kept : Text → Prop} {R : ∀ {α : Type}, Expanding α → Expanding α → Prop}

theorem joined (c : Congruence kept R) {α : Type} {step step' : α → Expanding Text} (as : List α)
    (h : ∀ a, R (step a) (step' a)) : R (joined step as) (joined step' as) := by
  induction as with
  | nil => exact c.pure []
  | cons a as ih =>
      rw [joined_cons, joined_cons]
      exact c.bind (h a) fun text => c.bind ih fun later => c.pure (text ++ later)

section Lines

variable (c : Congruence kept R) {expand expand' : Place → Text → Expanding Text}
  (h : ∀ place name, R (expand place name) (expand' place name))

include c h

theorem pieceWith (place : Place) (piece : Reference.Piece) :
    R (pieceWith (expand place) place piece) (pieceWith (expand' place) place piece) := by
  cases piece with
  | literal text => exact c.pure text
  | reference name => exact h place name
  | untaken name => exact c.bind (c.note _) fun _ => c.pure []

theorem lineWith (place : Place) (line : Text) :
    R (lineWith expand place line) (lineWith expand' place line) :=
  c.joined (Reference.pieces line) (c.pieceWith h place)

/-- **Lines are related when their references are.** -/
theorem linesWith (source : Text) (lines : List Text) :
    R (linesWith expand source lines) (linesWith expand' source lines) :=
  c.joined (lines.zipIdx 1) fun _ => c.lineWith h _ _

/-- A fragment is remembered under its own name. -/
theorem fragmentWith {name : Text} (hn : kept name) (place : Place) :
    R (fragmentWith expand t directory place name)
      (fragmentWith expand' t directory place name) := by
  rw [Expansion.fragmentWith, Expansion.fragmentWith]
  cases t.read (Fragment.path directory name) with
  | error failure =>
      dsimp only
      split
      · exact c.bind (c.note _) fun _ => c.pure []
      · exact c.throw _
  | ok bytes =>
      refine c.bind (c.linesWith h _ _) fun markup => ?_
      cases (Stored.lines bytes).fault with
      | some fault => exact c.throw _
      | none => exact c.bind (c.remember hn markup) fun _ => c.pure markup

/-- **The steps of two expansions are related when their nested references are.** -/
theorem openWith {name : Text} (hn : kept name) (inProgress : List Text) (place : Place) :
    R (openWith expand t directory inProgress place name)
      (openWith expand' t directory inProgress place name) := by
  rw [Expansion.openWith, Expansion.openWith]
  refine c.bind (c.remembered name) fun known => ?_
  cases known with
  | some markup => exact c.bind (c.note _) fun _ => c.pure markup
  | none =>
      by_cases again : name ∈ inProgress
      · simp only [if_pos again]
        exact c.bind (c.throw _) fun _ => c.fragmentWith h hn place
      · simp only [if_neg again]
        exact c.fragmentWith h hn place

end Lines

end Congruence

end PageAssembly.Expansion
