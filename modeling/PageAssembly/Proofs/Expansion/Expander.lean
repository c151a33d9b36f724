import PageAssembly.Proofs.Expansion.Congruence
import PageAssembly.Proofs.Expansion.Transparency

/-!
# Expanders that keep their own list

An expander keeps the components that it is expanding in a list of its own: a component enters the
list before its fragment is read and leaves it afterwards, also when a failure passes through.  The
expansions of this library take that list as an argument.  This module compares the two.

## Main definitions

* `Expansion.Working` — an operation on a memo, on notices and on the expander's own list
* `Expansion.Break` — a failure with the components that were being expanded when it arose
* `Expansion.Working.enclosed` — an operation while a component is being expanded
* `Expansion.componentOn`, `Expansion.Request.work` — expansions by an expander
* `Expansion.Mirrors` — an expander does what an expansion does, and keeps its list and the memo

## Main statements

* `Expansion.mirrors_enclosed` — the one step that stores markup
* `Expansion.mirrors_componentOn`, `Expansion.mirrors_request` — every expander mirrors the
  expansion inside the components of its list

### Why a name in progress is never stored

Markup is stored under a name behind the expansion of its fragment.  Inside that expansion the name
is in progress, so it is neither found in the memo nor expanded again, and nothing is stored under
it.  The store therefore finds no entry, and a failure leaves none.
-/

namespace PageAssembly.Expansion

/-- A failure, with what was going on when it arose. -/
structure Break where
  /-- The failure. -/
  failure : Failure
  /-- The components that were being expanded, outermost first. -/
  inProgress : List Text
  deriving DecidableEq, Repr

/-- What an expander works on. -/
structure Desk where
  /-- The components expanded so far. -/
  memo : Memo := {}
  /-- The notices reported so far. -/
  notices : Notices := #[]
  /-- The components that are being expanded, outermost first. -/
  inProgress : List Text := []

/-- An operation of an expander; what it leaves on the desk outlasts a failure. -/
abbrev Working := ExceptT Break (StateM Desk)

namespace Working

/-- An operation that leaves the expander's list alone.  Its failure is broken off with the list as
it is. -/
def doing {α : Type} (op : Expanding α) : Working α :=
  ExceptT.mk fun d =>
    let (result, s) := op.run.run ⟨d.memo, d.notices⟩
    (result.mapError (⟨·, d.inProgress⟩), ⟨s.memo, s.notices, d.inProgress⟩)

/-- The components that are being expanded. -/
def list : Working (List Text) := do return (← get).inProgress

/-- An operation while a component is being expanded.  The last name of the list is taken off it
whether the operation ends with a result or with a failure. -/
def enclosed {α : Type} (name : Text) (body : Working α) : Working α :=
  ExceptT.mk fun d =>
    let (result, d') := body.run.run { d with inProgress := d.inProgress ++ [name] }
    (result, { d' with inProgress := d'.inProgress.dropLast })

end Working

/-- One piece of a line, with `expand` for its references. -/
def pieceOn (expand : Place → Text → Working Text) (place : Place) :
    Reference.Piece → Working Text
  | .literal text => pure text
  | .reference name => expand place name
  | .untaken name => do
    Working.doing (Expanding.note (.notSelfClosing name place.line place.source))
    return []

/-- A line, with `expand` for its references. -/
def lineOn (expand : Place → Text → Working Text) (place : Place) (line : Text) :
    Working Text := do
  let parts ← (Reference.pieces line).mapM (pieceOn expand place)
  return parts.flatten

/-- Numbered lines of a source, with `expand` for their references. -/
def linesOn (expand : Place → Text → Working Text) (source : Text) (lines : List Text) :
    Working Text := do
  let parts ← (lines.zipIdx 1).mapM fun (line, number) =>
    lineOn expand ⟨source, (number : Nat)⟩ line
  return parts.flatten

/-- The lines of a stored fragment, up to its fault. -/
def storedOn (expand : Place → Text → Working Text) (source : Text)
    (stored : Stored (List Text)) : Working Text := do
  let markup ← linesOn expand source stored.delivered
  match stored.fault with
  | some fault => Working.doing (throw (.encoding fault))
  | none => return markup

/-- **The markup of a component by an expander**, which looks the names in progress up in its own
list. -/
def componentOn (t : FileTree) (directory : Path) : (budget : Nat) → Place → Text → Working Text
  | 0, _, _ => do
    let inProgress ← Working.list
    Working.doing (throw (.circular (Text.sortUnique inProgress)))
  | budget + 1, place, name => do
    match ← Working.doing (Expanding.remembered name) with
    | some markup =>
      Working.doing (Expanding.note (.remembered name))
      return markup
    | none =>
      let inProgress ← Working.list
      if name ∈ inProgress then
        Working.doing
          (throw (.circular (Text.sortUnique (inProgress.dropWhile fun n => !(n == name)))))
      else
        match t.read (Fragment.path directory name) with
        | .error failure =>
          if failure.isSystem then
            Working.doing
              (Expanding.note (.missingFragment name place.line place.source directory))
            return []
          else Working.doing (throw (.files failure))
        | .ok bytes =>
          let markup ← Working.enclosed name
            (storedOn (componentOn t directory budget) (Fragment.path directory name).name
              (Stored.lines bytes))
          Working.doing (Expanding.remember name markup)
          return markup

/-- The operation by which an expander answers a request. -/
def Request.work (t : FileTree) (directory : Path) : Request → Working Text
  | .component place name => componentOn t directory (budget t) place name
  | .line place text => lineOn (componentOn t directory (budget t)) place text
  | .document source text =>
    linesOn (componentOn t directory (budget t)) source (Text.splitLines text)

/-- The operation that answers a request inside the expansions in progress. -/
def Request.runWithin (t : FileTree) (directory : Path) (inProgress : List Text) :
    Request → Expanding Text
  | .component place name => componentWithin t directory (budget t) inProgress place name
  | .line place text => lineWith (componentWithin t directory (budget t) inProgress) place text
  | .document source text =>
    linesWith (componentWithin t directory (budget t) inProgress) source (Text.splitLines text)

/-- With nothing in progress a request is answered as it is on its own. -/
theorem Request.runWithin_nil (t : FileTree) (directory : Path) (request : Request) :
    request.runWithin t directory [] = request.run t directory := by
  cases request <;> rfl

/-! ## What an operation keeps -/

/-- **The components in progress fit the failure.**  The names of a circle are in progress, and a
fault is one of the fragment that is being expanded last. -/
def Break.Fits (t : FileTree) (directory : Path) (b : Break) : Prop :=
  match b.failure with
  | .circular names => ∀ name ∈ names, name ∈ b.inProgress
  | .encoding fault => ∃ name bytes, b.inProgress.getLast? = some name ∧
      t.read (Fragment.path directory name) = .ok bytes ∧ (Stored.lines bytes).fault = some fault
  | _ => True

/-- **What an operation inside some names in progress does to the memo.** -/
structure Keeps (t : FileTree) (directory : Path) (inProgress : List Text) (before after : Memo)
    {α : Type} (result : Except Break α) : Prop where
  /-- Whatever is remembered stays as it is. -/
  stays : ∀ name markup, before.get? name = some markup → after.get? name = some markup
  /-- Nothing is stored under a name in progress. -/
  untouched : ∀ name ∈ inProgress, after.get? name = before.get? name
  /-- Nothing is remembered of a component whose expansion was broken off. -/
  broken : ∀ b, result = .error b → b.Fits t directory ∧
    ∃ begun, b.inProgress = inProgress ++ begun ∧ ∀ name ∈ begun, after.get? name = none

namespace Keeps

variable {t : FileTree} {directory : Path} {inProgress : List Text} {before between after : Memo}

/-- An operation that leaves the memo alone. -/
theorem of_ok {α : Type} (m : Memo) (a : α) :
    Keeps t directory inProgress m m (.ok a : Except Break α) where
  stays _ _ h := h
  untouched _ _ := rfl
  broken _ h := nomatch h

/-- A failure that arises inside the names in progress. -/
theorem of_error {α : Type} (m : Memo) {failure : Failure}
    (fits : (⟨failure, inProgress⟩ : Break).Fits t directory) :
    Keeps t directory inProgress m m (.error ⟨failure, inProgress⟩ : Except Break α) where
  stays _ _ h := h
  untouched _ _ := rfl
  broken b h := by
    obtain rfl := Except.error.inj h
    exact ⟨fits, [], (List.append_nil _).symm, fun _ hn => absurd hn List.not_mem_nil⟩

/-- One operation after another. -/
theorem trans {α β : Type} {first : Except Break α} {second : Except Break β}
    (h : Keeps t directory inProgress before between first)
    (h' : Keeps t directory inProgress between after second) :
    Keeps t directory inProgress before after second where
  stays name markup found := h'.stays name markup (h.stays name markup found)
  untouched name hn := (h'.untouched name hn).trans (h.untouched name hn)
  broken := h'.broken

/-- A failure is the failure of whatever it ends. -/
theorem error {α β : Type} {b : Break}
    (h : Keeps t directory inProgress before after (.error b : Except Break α)) :
    Keeps t directory inProgress before after (.error b : Except Break β) where
  stays := h.stays
  untouched := h.untouched
  broken b' same := h.broken b' (congrArg Except.error (Except.error.inj same))

end Keeps

/-! ## Operations that mirror an expansion -/

/-- **The operation of an expander mirrors an expansion** on what is remembered and reported so far:
it ends in the same way with the same memo and the same notices, leaves the expander's list as it
was, and keeps what is remembered. -/
def Mirrors (t : FileTree) (directory : Path) (inProgress : List Text) (m : Memo) (n : Notices)
    {α : Type} (op : Working α) (op' : Expanding α) : Prop :=
  ∃ result m' n', op.run.run ⟨m, n, inProgress⟩ = (result, ⟨m', n', inProgress⟩) ∧
    op'.run.run ⟨m, n⟩ = (result.mapError Break.failure, ⟨m', n'⟩) ∧
    Keeps t directory inProgress m m' result

section Mirrors

variable {t : FileTree} {directory : Path} {inProgress : List Text} {m : Memo} {n : Notices}
  {α β : Type}

/-- A result goes on with the desk behind it, and a failure ends the sequence with that desk. -/
theorem Working.run_bind (op : Working α) (next : α → Working β) (d : Desk) :
    (op >>= next).run.run d = match op.run.run d with
      | (.ok a, d') => (next a).run.run d'
      | (.error b, d') => (.error b, d') := by
  simp only [ExceptT.run_bind, StateT.run_bind]
  rcases op.run.run d with ⟨_ | _, _⟩ <;> rfl

namespace Mirrors

theorem pure (a : α) : Mirrors t directory inProgress m n (Pure.pure a) (Pure.pure a) :=
  ⟨.ok a, m, n, rfl, rfl, .of_ok m a⟩

theorem note (notice : Notice) : Mirrors t directory inProgress m n
    (Working.doing (Expanding.note notice)) (Expanding.note notice) :=
  ⟨.ok (), m, n.push notice, rfl, rfl, .of_ok m ()⟩

theorem throw {failure : Failure} (fits : (⟨failure, inProgress⟩ : Break).Fits t directory) :
    Mirrors t directory inProgress m n (Working.doing (MonadExcept.throw failure) : Working α)
      (MonadExcept.throw failure) :=
  ⟨.error ⟨failure, inProgress⟩, m, n, rfl, rfl, .of_error m fits⟩

/-- One operation after another. -/
theorem bind {op : Working α} {op' : Expanding α} {f : α → Working β} {f' : α → Expanding β}
    (first : Mirrors t directory inProgress m n op op')
    (next : ∀ a m' n', Mirrors t directory inProgress m' n' (f a) (f' a)) :
    Mirrors t directory inProgress m n (op >>= f) (op' >>= f') := by
  obtain ⟨result, m', n', run, run', keeps⟩ := first
  cases result with
  | error b =>
      refine ⟨.error b, m', n', ?_, ?_, keeps.error⟩
      · rw [Working.run_bind, run]
      · rw [Failure.run_bind, run']
        rfl
  | ok a =>
      obtain ⟨result, m'', n'', later, later', keeps'⟩ := next a m' n'
      refine ⟨result, m'', n'', ?_, ?_, keeps.trans keeps'⟩
      · rw [Working.run_bind, run]
        exact later
      · rw [Failure.run_bind, run']
        exact later'

/-- What one step after the other does to the members of a list. -/
theorem mapM {step : α → Working Text} {step' : α → Expanding Text} (as : List α)
    (h : ∀ a m n, Mirrors t directory inProgress m n (step a) (step' a)) :
    ∀ m n, Mirrors t directory inProgress m n (as.mapM step) (as.mapM step') := by
  induction as with
  | nil => exact fun m n => .pure []
  | cons a as ih =>
      intro m n
      rw [List.mapM_cons, List.mapM_cons]
      exact (h a m n).bind fun text m n => (ih m n).bind fun later m n => .pure (text :: later)

end Mirrors

section Lines

variable {expand : Place → Text → Working Text} {expand' : Place → Text → Expanding Text}
  (h : ∀ place name m n,
    Mirrors t directory inProgress m n (expand place name) (expand' place name))

include h

theorem mirrors_pieceOn (place : Place) (piece : Reference.Piece) (m : Memo) (n : Notices) :
    Mirrors t directory inProgress m n (pieceOn expand place piece)
      (pieceWith (expand' place) place piece) := by
  cases piece with
  | literal text => exact .pure text
  | reference name => exact h place name m n
  | untaken name => exact (Mirrors.note _).bind fun _ _ _ => .pure []

theorem mirrors_lineOn (place : Place) (line : Text) (m : Memo) (n : Notices) :
    Mirrors t directory inProgress m n (lineOn expand place line)
      (lineWith expand' place line) := by
  rw [lineOn, lineWith]
  exact (Mirrors.mapM _ (mirrors_pieceOn h place) m n).bind fun parts _ _ => .pure parts.flatten

theorem mirrors_linesOn (source : Text) (lines : List Text) (m : Memo) (n : Notices) :
    Mirrors t directory inProgress m n (linesOn expand source lines)
      (linesWith expand' source lines) := by
  rw [linesOn, linesWith]
  have each : ∀ (a : Text × Nat) m n, Mirrors t directory inProgress m n
      (lineOn expand ⟨source, (a.2 : Nat)⟩ a.1) (lineWith expand' ⟨source, (a.2 : Nat)⟩ a.1) :=
    fun a => mirrors_lineOn h ⟨source, (a.2 : Nat)⟩ a.1
  exact (Mirrors.mapM _ each m n).bind fun parts _ _ => .pure parts.flatten

end Lines

/-! ## Components -/

/-- **The one step that stores markup.**  A name that is neither remembered nor in progress is in
progress while its fragment is expanded, so nothing has been stored under it when that has given
markup, and nothing is stored when it fails. -/
theorem mirrors_enclosed {name : Text} (unknown : m.get? name = none) (fresh : name ∉ inProgress)
    {body : Working Text} {body' : Expanding Text}
    (h : Mirrors t directory (inProgress ++ [name]) m n body body') :
    Mirrors t directory inProgress m n
      (do
        let markup ← Working.enclosed name body
        Working.doing (Expanding.remember name markup)
        return markup)
      (do
        let markup ← body'
        Expanding.remember name markup
        return markup) := by
  obtain ⟨result, m', n', run, run', keeps⟩ := h
  have left : (Working.enclosed name body).run.run ⟨m, n, inProgress⟩ =
      (result, ⟨m', n', inProgress⟩) := by
    show (let (result, d') := body.run.run ⟨m, n, inProgress ++ [name]⟩
      (result, ({ d' with inProgress := d'.inProgress.dropLast } : Desk))) = _
    rw [run]
    simp
  have unstored : m'.get? name = none :=
    (keeps.untouched name (List.mem_append_right _ List.mem_cons_self)).trans unknown
  have outer : ∀ x ∈ inProgress, m'.get? x = m.get? x := fun x hx =>
    keeps.untouched x (List.mem_append_left _ hx)
  cases result with
  | error b =>
      refine ⟨.error b, m', n', ?_, ?_, ⟨keeps.stays, outer, ?_⟩⟩
      · rw [Working.run_bind, left]
      · rw [Failure.run_bind, run']
        rfl
      · intro b' same
        obtain rfl := Except.error.inj same
        obtain ⟨fits, begun, split, none⟩ := keeps.broken b rfl
        refine ⟨fits, name :: begun, by rw [split, List.append_assoc]; rfl, ?_⟩
        exact List.forall_mem_cons.mpr ⟨unstored, none⟩
  | ok markup =>
      refine ⟨.ok markup, m'.store name markup, n', ?_, ?_, ?_, ?_, fun b h => nomatch h⟩
      · rw [Working.run_bind, left]
        rfl
      · rw [Failure.run_bind, run']
        rfl
      · intro x found h
        rw [Memo.get?_store, if_neg]
        · exact keeps.stays x found h
        · rintro rfl
          rw [unknown] at h
          cases h
      · intro x hx
        have other : x ≠ name := fun same => fresh (same ▸ hx)
        rw [Memo.get?_store, if_neg other]
        exact outer x hx

/-- The lines of a stored fragment, up to its fault. -/
def storedWith (expand : Place → Text → Expanding Text) (source : Text)
    (stored : Stored (List Text)) : Expanding Text := do
  let markup ← linesWith expand source stored.delivered
  match stored.fault with
  | some fault => throw (.encoding fault)
  | none => return markup

/-- A fragment that can be read is remembered when its lines have given markup. -/
theorem fragmentWith_of_read {expand : Place → Text → Expanding Text} {place : Place}
    {name : Text} {bytes : List UInt8} (read : t.read (Fragment.path directory name) = .ok bytes) :
    fragmentWith expand t directory place name = (do
      let markup ← storedWith expand (Fragment.path directory name).name (Stored.lines bytes)
      Expanding.remember name markup
      return markup) := by
  rw [fragmentWith, storedWith]
  simp only [read, bind_assoc]
  refine congrArg (linesWith expand _ _ >>= ·) (funext fun markup => ?_)
  cases (Stored.lines bytes).fault <;> rfl

/-- The lines of a stored fragment mirror each other inside the fragment's own name. -/
theorem mirrors_storedOn {name : Text} {bytes : List UInt8}
    (read : t.read (Fragment.path directory name) = .ok bytes)
    {expand : Place → Text → Working Text} {expand' : Place → Text → Expanding Text}
    (h : ∀ place x m n,
      Mirrors t directory (inProgress ++ [name]) m n (expand place x) (expand' place x))
    (source : Text) :
    Mirrors t directory (inProgress ++ [name]) m n (storedOn expand source (Stored.lines bytes))
      (storedWith expand' source (Stored.lines bytes)) := by
  rw [storedOn, storedWith]
  refine (mirrors_linesOn h source _ m n).bind fun markup m n => ?_
  cases unsound : (Stored.lines bytes).fault with
  | none => exact .pure markup
  | some fault => exact .throw ⟨name, bytes, List.getLast?_concat, read, unsound⟩

/-- What follows a look into the memo goes on with what is found there. -/
theorem Mirrors.remembered {name : Text} {k : Option Text → Working β}
    {k' : Option Text → Expanding β}
    (h : Mirrors t directory inProgress m n (k (m.get? name)) (k' (m.get? name))) :
    Mirrors t directory inProgress m n (Working.doing (Expanding.remembered name) >>= k)
      (Expanding.remembered name >>= k') := h

/-- What follows a look at the list goes on with the names in progress. -/
theorem Mirrors.list {k : List Text → Working α} {op' : Expanding α}
    (h : Mirrors t directory inProgress m n (k inProgress) op') :
    Mirrors t directory inProgress m n (Working.list >>= k) op' := h

/-- **An expander mirrors the expansion inside the components of its list.** -/
theorem mirrors_componentOn (budget : Nat) (inProgress : List Text) (place : Place) (name : Text)
    (m : Memo) (n : Notices) :
    Mirrors t directory inProgress m n (componentOn t directory budget place name)
      (componentWithin t directory budget inProgress place name) := by
  induction budget generalizing inProgress place name m n with
  | zero => exact Mirrors.throw fun x hx => Text.mem_sortUnique.mp hx
  | succ budget ih =>
      rw [componentOn, componentWithin_succ, openWith]
      refine .remembered ?_
      cases unknown : m.get? name with
      | some markup => exact (Mirrors.note _).bind fun _ _ _ => .pure markup
      | none =>
          refine .list ?_
          by_cases again : name ∈ inProgress
          · simp only [if_pos again]
            refine Mirrors.throw fun x hx => ?_
            exact (List.dropWhile_sublist _).mem (Text.mem_sortUnique.mp hx)
          · simp only [if_neg again]
            cases read : t.read (Fragment.path directory name) with
            | error failure =>
                rw [fragmentWith]
                simp only [read]
                by_cases system : failure.isSystem = true
                · simp only [if_pos system]
                  exact (Mirrors.note _).bind fun _ _ _ => .pure []
                · simp only [if_neg system]
                  exact Mirrors.throw trivial
            | ok bytes =>
                rw [fragmentWith_of_read read]
                exact mirrors_enclosed unknown again (mirrors_storedOn read (ih _) _)

/-- **Every request is answered by an expander as it is inside the components of its list.** -/
theorem mirrors_request (request : Request) (inProgress : List Text) (m : Memo) (n : Notices) :
    Mirrors t directory inProgress m n (request.work t directory)
      (request.runWithin t directory inProgress) := by
  have component : ∀ place name m n, Mirrors t directory inProgress m n
      (componentOn t directory (budget t) place name)
      (componentWithin t directory (budget t) inProgress place name) :=
    mirrors_componentOn (budget t) inProgress
  cases request with
  | component place name => exact component place name m n
  | line place text => exact mirrors_lineOn component place text m n
  | document source text => exact mirrors_linesOn component source _ m n

end Mirrors

end PageAssembly.Expansion
