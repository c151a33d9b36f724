import PageAssembly.Proofs.Expansion.Trail

/-!
# What a reference means

The meaning of a reference, without anything remembered and without notices: the expansion as a
plain recursion, and a relation that says which markup a component yields.

## Main definitions

* `Expansion.assemble` — the pieces of some lines with an outcome for each reference
* `Expansion.outcomeWithin` — the outcome of a reference inside the expansions in progress
* `Expansion.Yields` — a component yields markup, by a finite derivation
* `Expansion.Obstructs` — why an expansion can fail

## Main statements

* `Expansion.yields_of_outcomeWithin` — an outcome that is markup is derived
* `Expansion.Yields.outcomeWithin_eq` — what is derived is the outcome, whatever is in progress
* `Expansion.obstructs_of_outcomeWithin` — an outcome that is a failure has a cause among the
  fragments reached

### Why a relation as well

The recursion carries the names in progress and a budget.  A derivation carries neither, which is
what makes it the right thing to remember: it says the same at every place of every expansion.
-/

namespace PageAssembly.Expansion

open Relation

/-! ## Pieces with their references replaced -/

/-- The pieces of some lines. -/
def piecesOf (lines : List Text) : List Reference.Piece := lines.flatMap Reference.pieces

/-- The text that a piece becomes, with markup for its reference. -/
def filled (markup : Text → Text) : Reference.Piece → Text
  | .literal text => text
  | .reference name => markup name
  | .untaken _ => []

/-- The outcome of a piece, with an outcome for its reference. -/
def pieceOutcome (outcome : Text → Except Failure Text) : Reference.Piece → Except Failure Text
  | .literal text => .ok text
  | .reference name => outcome name
  | .untaken _ => .ok []

/-- Pieces put together again; the first failure is the failure of all. -/
def assemble (outcome : Text → Except Failure Text) :
    List Reference.Piece → Except Failure Text
  | [] => .ok []
  | piece :: pieces =>
    (pieceOutcome outcome piece).bind fun text => (assemble outcome pieces).map (text ++ ·)

section Assemble

variable {outcome : Text → Except Failure Text} {pieces : List Reference.Piece}

theorem assemble_append (first second : List Reference.Piece) :
    assemble outcome (first ++ second) =
      (assemble outcome first).bind fun a => (assemble outcome second).map (a ++ ·) := by
  induction first with
  | nil =>
      rw [List.nil_append, assemble]
      cases assemble outcome second <;> rfl
  | cons piece first ih =>
      rw [List.cons_append, assemble, assemble, ih]
      cases pieceOutcome outcome piece with
      | error e => rfl
      | ok text =>
          cases assemble outcome first with
          | error e => rfl
          | ok a => cases assemble outcome second <;> simp [Except.bind, Except.map]

/-- References that have markup for an outcome are filled with it. -/
theorem assemble_eq_ok {markup : Text → Text}
    (h : ∀ name, .reference name ∈ pieces → outcome name = .ok (markup name)) :
    assemble outcome pieces = .ok (pieces.flatMap (filled markup)) := by
  induction pieces with
  | nil => rfl
  | cons piece pieces ih =>
      have head : pieceOutcome outcome piece = .ok (filled markup piece) := by
        cases piece with
        | literal text => rfl
        | reference name => exact h name List.mem_cons_self
        | untaken name => rfl
      have tail := ih fun name hname => h name (List.mem_cons_of_mem _ hname)
      rw [assemble, head, tail]
      rfl

/-- Markup is assembled only where every reference has markup. -/
theorem exists_ok_of_assemble {text : Text} (h : assemble outcome pieces = .ok text)
    {name : Text} (hname : .reference name ∈ pieces) : ∃ markup, outcome name = .ok markup := by
  induction pieces generalizing text with
  | nil => exact absurd hname List.not_mem_nil
  | cons piece pieces ih =>
      rw [assemble] at h
      cases head : pieceOutcome outcome piece with
      | error e => rw [head] at h; cases h
      | ok a =>
          cases tail : assemble outcome pieces with
          | error e => rw [head, tail] at h; cases h
          | ok b =>
              rcases List.mem_cons.mp hname with rfl | hname
              · exact ⟨a, head⟩
              · exact ih tail hname

/-- Assembled markup is filled in from one function that gives every reference its markup. -/
theorem exists_filled_of_assemble {text : Text} (h : assemble outcome pieces = .ok text) :
    ∃ markup : Text → Text,
      (∀ name, .reference name ∈ pieces → outcome name = .ok (markup name)) ∧
        text = pieces.flatMap (filled markup) := by
  have each : ∀ name, Reference.Piece.reference name ∈ pieces →
      ∃ markup, outcome name = .ok markup := fun name => exists_ok_of_assemble h
  choose! markup hmarkup using each
  rw [assemble_eq_ok hmarkup] at h
  exact ⟨markup, hmarkup, (Except.ok.inj h).symm⟩

/-- A failure to assemble is the failure of a reference. -/
theorem exists_error_of_assemble {e : Failure} (h : assemble outcome pieces = .error e) :
    ∃ name, .reference name ∈ pieces ∧ outcome name = .error e := by
  induction pieces with
  | nil => cases h
  | cons piece pieces ih =>
      rw [assemble] at h
      cases head : pieceOutcome outcome piece with
      | error e' =>
          rw [head] at h
          cases h
          cases piece with
          | literal text => cases head
          | reference name => exact ⟨name, List.mem_cons_self, head⟩
          | untaken name => cases head
      | ok a =>
          cases tail : assemble outcome pieces with
          | ok b => rw [head, tail] at h; cases h
          | error e' =>
              rw [head, tail] at h
              cases h
              obtain ⟨name, hname, failed⟩ := ih tail
              exact ⟨name, List.mem_cons_of_mem _ hname, failed⟩

end Assemble

/-! ## The expansion as a plain recursion -/

/-- **The outcome of a reference inside the expansions in progress**, with nothing remembered. -/
def outcomeWithin (t : FileTree) (directory : Path) :
    (budget : Nat) → (inProgress : List Text) → Text → Except Failure Text
  | 0, inProgress, _ => .error (.circular (Text.sortUnique inProgress))
  | budget + 1, inProgress, name =>
    if name ∈ inProgress then
      .error (.circular (Text.sortUnique (inProgress.dropWhile fun n => !(n == name))))
    else
      match t.read (Fragment.path directory name) with
      | .error failure => if failure.isSystem then .ok [] else .error (.files failure)
      | .ok bytes =>
        (assemble (outcomeWithin t directory budget (inProgress ++ [name]))
          (piecesOf (Stored.lines bytes).delivered)).bind fun markup =>
            match (Stored.lines bytes).fault with
            | some fault => .error (.encoding fault)
            | none => .ok markup

/-- **A component yields markup.**  A name without a fragment yields nothing; a fragment yields its
lines with each reference replaced by what that one yields. -/
inductive Yields (t : FileTree) (directory : Path) : Text → Text → Prop
  /-- No fragment can be opened. -/
  | missing {name : Text} {failure : FileFailure} :
    t.read (Fragment.path directory name) = .error failure → failure.isSystem = true →
      Yields t directory name []
  /-- The fragment can be opened and is well formed. -/
  | fragment {name : Text} {bytes : List UInt8} (markup : Text → Text) :
    t.read (Fragment.path directory name) = .ok bytes → (Stored.lines bytes).fault = none →
      (∀ n, .reference n ∈ piecesOf (Stored.lines bytes).delivered →
        Yields t directory n (markup n)) →
      Yields t directory name ((piecesOf (Stored.lines bytes).delivered).flatMap (filled markup))

/-- **The causes of a failure** among what `start` reaches. -/
inductive Obstructs (t : FileTree) (directory : Path) (start : Text) : Failure → Prop
  /-- Names that refer to one another in a circle. -/
  | circular {names : List Text} : IsCycle t directory names →
      (∀ x ∈ names, Reaches t directory start x) →
      Obstructs t directory start (.circular (Text.sortUnique names))
  /-- A fragment that is not well formed. -/
  | encoding {name : Text} {bytes : List UInt8} {fault : Utf8.Fault} :
      Reaches t directory start name → t.read (Fragment.path directory name) = .ok bytes →
      (Stored.lines bytes).fault = some fault → Obstructs t directory start (.encoding fault)
  /-- A fragment that no file system can be asked for. -/
  | files {name : Text} {failure : FileFailure} : Reaches t directory start name →
      t.read (Fragment.path directory name) = .error failure → failure.isSystem = false →
      Obstructs t directory start (.files failure)

section Outcome

variable {t : FileTree} {directory : Path}

theorem refers_of_reference {a b : Text} {bytes : List UInt8}
    (read : t.read (Fragment.path directory a) = .ok bytes)
    (h : .reference b ∈ piecesOf (Stored.lines bytes).delivered) : Refers t directory a b := by
  obtain ⟨line, hline, hb⟩ := List.mem_flatMap.mp h
  exact ⟨bytes, read, line, hline, Reference.mem_taken.mpr hb⟩

theorem reference_of_refers {a b : Text} {bytes : List UInt8}
    (read : t.read (Fragment.path directory a) = .ok bytes) (h : Refers t directory a b) :
    .reference b ∈ piecesOf (Stored.lines bytes).delivered := by
  obtain ⟨bytes', read', line, hline, hb⟩ := h
  obtain rfl : bytes = bytes' := Except.ok.inj (read.symm.trans read')
  exact List.mem_flatMap.mpr ⟨line, hline, Reference.mem_taken.mp hb⟩

/-- The outcome of a fragment that can be opened comes from its pieces. -/
theorem outcomeWithin_of_read {budget : Nat} {inProgress : List Text} {name : Text}
    {bytes : List UInt8} (fresh : name ∉ inProgress)
    (read : t.read (Fragment.path directory name) = .ok bytes) :
    outcomeWithin t directory (budget + 1) inProgress name =
      (assemble (outcomeWithin t directory budget (inProgress ++ [name]))
        (piecesOf (Stored.lines bytes).delivered)).bind fun markup =>
          match (Stored.lines bytes).fault with
          | some fault => .error (.encoding fault)
          | none => .ok markup := by
  rw [outcomeWithin, if_neg fresh]
  simp only [read]

/-- An outcome that is markup is derived. -/
theorem yields_of_outcomeWithin {budget : Nat} {inProgress : List Text} {name markup : Text}
    (h : outcomeWithin t directory budget inProgress name = .ok markup) :
    Yields t directory name markup := by
  induction budget generalizing inProgress name markup with
  | zero => cases h
  | succ budget ih =>
      rw [outcomeWithin] at h
      split at h
      · cases h
      · split at h
        · next failure read =>
            split at h
            · next system =>
                cases h
                exact .missing read system
            · cases h
        · next bytes read =>
            cases assembled : assemble (outcomeWithin t directory budget (inProgress ++ [name]))
                (piecesOf (Stored.lines bytes).delivered) with
            | error e => rw [assembled] at h; cases h
            | ok text =>
                rw [assembled] at h
                simp only [Except.bind] at h
                split at h
                · cases h
                · next sound =>
                    -- every reference has given markup, so each of them is derived
                    obtain ⟨value, hvalue, rfl⟩ := exists_filled_of_assemble assembled
                    cases h
                    exact .fragment value read sound fun n hn => ih (hvalue n hn)

/-- **An outcome that is a failure has a cause**: a circle of references, or a fragment that cannot
be read, among what the start reaches. -/
theorem obstructs_of_outcomeWithin {start : Text} {budget : Nat} {inProgress : List Text}
    {name : Text} {e : Failure} (trail : Trail t directory inProgress name)
    (enough : t.size + 2 ≤ budget + inProgress.length)
    (within : ∀ x ∈ inProgress ++ [name], Reaches t directory start x)
    (h : outcomeWithin t directory budget inProgress name = .error e) :
    Obstructs t directory start e := by
  induction budget generalizing inProgress name with
  | zero =>
      obtain ⟨budget, exhausted⟩ := trail.exists_budget enough
      cases exhausted
  | succ budget ih =>
      have reached := within name (List.mem_append_right _ List.mem_cons_self)
      rw [outcomeWithin] at h
      split at h
      · next again =>
          cases h
          refine .circular (trail.isCycle again) fun x hx => ?_
          exact within x (List.mem_append_left _ ((List.dropWhile_sublist _).mem hx))
      · next fresh =>
          split at h
          · next failure read =>
              split at h
              · cases h
              · next system =>
                  cases h
                  exact .files reached read (Bool.eq_false_iff.mpr system)
          · next bytes read =>
              cases assembled : assemble (outcomeWithin t directory budget (inProgress ++ [name]))
                  (piecesOf (Stored.lines bytes).delivered) with
              | ok text =>
                  rw [assembled] at h
                  simp only [Except.bind] at h
                  split at h
                  · next fault unsound =>
                      cases h
                      exact .encoding reached read unsound
                  · cases h
              | error e' =>
                  rw [assembled] at h
                  cases h
                  obtain ⟨n, hn, failed⟩ := exists_error_of_assemble assembled
                  have refers := refers_of_reference read hn
                  -- the failure comes from a reference, one name further on the trail
                  refine ih (trail.extend fresh refers) ?_ ?_ failed
                  · rw [List.length_append, List.length_singleton]
                    omega
                  · intro x hx
                    rcases List.mem_append.mp hx with hx | hx
                    · exact within x hx
                    · exact List.mem_singleton.mp hx ▸ reached.tail refers

end Outcome

namespace Yields

variable {t : FileTree} {directory : Path} {name markup : Text}

/-- Following references from a component that yields markup ends. -/
theorem acc (yields : Yields t directory name markup) :
    Acc (fun b a => Refers t directory a b) name := by
  induction yields with
  | missing unread system =>
      refine ⟨_, fun b refers => ?_⟩
      obtain ⟨bytes, read, -⟩ := refers
      rw [unread] at read
      cases read
  | fragment value read sound nested ih =>
      exact ⟨_, fun b refers => ih b (reference_of_refers read refers)⟩

/-- **A component that yields markup is on no cycle.** -/
theorem not_transGen (yields : Yields t directory name markup) :
    ¬ TransGen (Refers t directory) name name := by
  have ends := yields.acc
  clear yields
  induction ends with
  | intro a _ ih =>
      intro around
      obtain ⟨b, refers, back⟩ := TransGen.head'_iff.mp around
      exact ih b refers (TransGen.tail' back refers)

/-- What a component that yields markup refers to yields markup. -/
theorem of_refers {b : Text} (yields : Yields t directory name markup)
    (refers : Refers t directory name b) : ∃ markup', Yields t directory b markup' := by
  cases yields with
  | missing unread system =>
      obtain ⟨bytes, read, -⟩ := refers
      rw [unread] at read
      cases read
  | fragment value read sound nested =>
      exact ⟨value b, nested b (reference_of_refers read refers)⟩

/-- And so does everything it reaches. -/
theorem of_reaches {b : Text} (yields : Yields t directory name markup)
    (reaches : Reaches t directory name b) : ∃ markup', Yields t directory b markup' := by
  induction reaches with
  | refl => exact ⟨markup, yields⟩
  | tail _ refers ih =>
      obtain ⟨markup', yields'⟩ := ih
      exact yields'.of_refers refers

/-- **What is derived is the outcome, whatever is in progress.**  No name in progress is met again,
for the names in progress lead to this one. -/
theorem outcomeWithin_eq (yields : Yields t directory name markup) {budget : Nat}
    {inProgress : List Text} (trail : Trail t directory inProgress name)
    (enough : t.size + 2 ≤ budget + inProgress.length) :
    outcomeWithin t directory budget inProgress name = .ok markup := by
  have fresh : ∀ {name markup : Text} {inProgress : List Text}, Yields t directory name markup →
      Trail t directory inProgress name → name ∉ inProgress := fun yields trail again =>
    yields.not_transGen (trail.transGen again)
  induction yields generalizing budget inProgress with
  | missing unread system =>
      obtain ⟨budget, rfl⟩ := trail.exists_budget enough
      rw [outcomeWithin, if_neg (fresh (.missing unread system) trail), unread]
      simp [system]
  | @fragment name bytes value read sound nested ih =>
      obtain ⟨budget, rfl⟩ := trail.exists_budget enough
      have unvisited := fresh (.fragment value read sound nested) trail
      have nestedOutcome : ∀ n, .reference n ∈ piecesOf (Stored.lines bytes).delivered →
          outcomeWithin t directory budget (inProgress ++ [name]) n = .ok (value n) := by
        intro n hn
        refine ih n hn (trail.extend unvisited (refers_of_reference read hn)) ?_
        rw [List.length_append, List.length_singleton]
        omega
      rw [outcomeWithin_of_read unvisited read, assemble_eq_ok nestedOutcome, Except.bind, sound]

end Yields

end PageAssembly.Expansion
