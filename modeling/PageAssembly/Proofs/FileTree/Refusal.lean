import PageAssembly.Proofs.FileTree.Entry

/-!
# Why an operation on files is refused

An operation is refused because of a character that no path may hold, or because of what stands in
the tree.  The failure tells which of the two it was.

## Main definitions

* `FileTree.Refusal` — why a path cannot be used

## Main statements

* `Path.nul_mem_text_iff` — a NUL character stands in a part of the path
* `FileTree.find_error`, `FileTree.remove_error`, `FileTree.rename_error` — why nothing is found,
  removed or moved
* `FileTree.write_refusal`, `FileTree.makeDirectories_refusal` — why nothing is written or made
* `FileTree.remove_remove` — behind a removal nothing is there to remove
-/

namespace PageAssembly

namespace Path

theorem nul_mem_intercalate_iff (parts : List Text) :
    '\x00' ∈ ['/'].intercalate parts ↔ ∃ part ∈ parts, '\x00' ∈ part := by
  induction parts with
  | nil => simp [List.intercalate]
  | cons part parts ih =>
      cases parts with
      | nil => simp [List.intercalate]
      | cons next parts =>
          rw [List.intercalate_cons_cons, List.mem_append, ih]
          simp

/-- A NUL character in the spelling of a path is one in a part of the path. -/
theorem nul_mem_text_iff (p : Path) : '\x00' ∈ p.text ↔ ∃ part ∈ p.parts, '\x00' ∈ part := by
  rw [text]
  split
  · next here =>
      subst here
      simp [Path.here]
  · have anchor : '\x00' ∉ anchorText p.anchor := by cases p.anchor <;> simp [anchorText]
    rw [List.mem_append, nul_mem_intercalate_iff]
    simp [anchor]

/-- What makes a path impossible makes the paths below it impossible. -/
theorem nul_mem_text_of_parent {p : Path} (h : '\x00' ∈ p.parent.text) : '\x00' ∈ p.text := by
  rw [nul_mem_text_iff] at h ⊢
  obtain ⟨part, member, nul⟩ := h
  exact ⟨part, List.dropLast_subset _ member, nul⟩

end Path

namespace FileTree

variable {t t' : FileTree} {p q : Path} {f : FileFailure} {o : Obstacle}

/-- A path that cannot be followed is too long, or nothing or no directory stands on the way. -/
theorem locate_error (h : t.locate p = .error o) :
    o = .notFound ∨ o = .notDirectory ∨ o = .nameTooLong := by
  rw [locate] at h
  split at h
  · cases h
    exact Or.inr (Or.inr rfl)
  · generalize (if p.isAbsolute then [] else t.workingDirectory : Location) = here at h
    generalize p.parts = parts at h
    fun_induction walk t here parts with
    | case1 here => cases h
    | case2 here parts _ ih => exact ih h
    | case3 =>
        cases h
        exact Or.inr (Or.inr rfl)
    | case4 here part parts _ _ _ ih => exact ih h
    | case5 =>
        cases h
        exact Or.inr (Or.inl rfl)
    | case6 =>
        cases h
        exact Or.inl rfl

/-- **Why nothing is found at a path.** -/
theorem find_error (h : t.find p = .error f) : (f = .embeddedNul ∧ '\x00' ∈ p.text) ∨
    ∃ o, f = .reaching o p ∧ (o = .notFound ∨ o = .notDirectory ∨ o = .nameTooLong) := by
  rw [find] at h
  split at h
  · next nul =>
      cases h
      exact Or.inl ⟨rfl, by simpa using nul⟩
  · split at h
    · next o located =>
        cases h
        exact Or.inr ⟨o, rfl, locate_error located⟩
    · cases h

/-! ## Removal -/

/-- **Why nothing is removed.** -/
theorem remove_error (h : t.remove p = .error f) : f = .reaching .notFound p ∨ f = .embeddedNul ∨
    ∃ o, f = .reaching o p ∧ (o = .notDirectory ∨ o = .isDirectory ∨ o = .nameTooLong) := by
  rw [remove] at h
  split at h
  · next found =>
      cases h
      rcases find_error found with ⟨rfl, -⟩ | ⟨o, rfl, rfl | other⟩
      · exact Or.inr (Or.inl rfl)
      · exact Or.inl rfl
      · exact Or.inr (Or.inr ⟨o, rfl, other.imp id Or.inr⟩)
  · cases h
    exact Or.inr (Or.inr ⟨_, rfl, Or.inr (Or.inl rfl)⟩)
  · cases h
    exact Or.inl rfl
  · cases h

/-- What is read is a file that can be removed. -/
theorem read_of_remove_error (h : t.remove p = .error f) (content : List UInt8) :
    t.read p ≠ .ok content := by
  intro read
  obtain ⟨l, found⟩ := read_eq_ok_iff.mp read
  rw [remove, found] at h
  cases h

/-- A path with a NUL character cannot be removed. -/
theorem remove_of_nul (h : '\x00' ∈ p.text) : t.remove p = .error .embeddedNul := by
  simp [remove, find, h]

/-- **Behind a removal nothing is there to remove.** -/
theorem remove_remove (h : t.remove p = .ok t') : t'.remove p = .error (.reaching .notFound p) := by
  have alters : Alters Set.univ ∅ t t' := remove_alters h (Set.mem_univ _)
  rw [remove] at h
  split at h
  · cases h
  · cases h
  · cases h
  · next l e other _ found =>
      obtain ⟨rfl, rfl⟩ := find_eq_ok found
      have root := ne_nil_of_lookup other
      have later := alters.find found
      obtain rfl := Except.ok.inj h
      rw [lookup_erase t root, if_pos rfl] at later
      rw [remove, later]

/-! ## New files and directories -/

/-- **Why a path cannot be used**: it holds a NUL character, or there is an obstacle. -/
inductive Refusal (p : Path) : FileFailure → Prop
  /-- No file system takes the path. -/
  | nul : '\x00' ∈ p.text → Refusal p .embeddedNul
  /-- Something is in the way. -/
  | obstacle (o : Obstacle) (q : Path) : Refusal p (.reaching o q)

/-- A path that cannot be used makes the paths below it unusable. -/
theorem Refusal.of_parent (refusal : Refusal p.parent f) : Refusal p f := by
  cases refusal with
  | nul h => exact .nul (Path.nul_mem_text_of_parent h)
  | obstacle o q => exact .obstacle o q

theorem find_refusal (h : t.find p = .error f) : Refusal p f := by
  rcases find_error h with ⟨rfl, nul⟩ | ⟨o, rfl, -⟩
  · exact .nul nul
  · exact .obstacle o p

theorem write_refusal {content : List UInt8} (h : t.write p content = .error f) : Refusal p f := by
  rw [write] at h
  split at h
  · next found =>
      cases h
      exact find_refusal found
  · cases h
    exact .obstacle _ _
  · cases h
    exact .obstacle _ _
  · cases h

theorem makeDirectory_refusal (h : t.makeDirectory p = .error f) : Refusal p f := by
  rw [makeDirectory] at h
  split at h
  · next found =>
      cases h
      exact find_refusal found
  · cases h
  · cases h
    exact .obstacle _ _

/-- A directory that cannot be made and is not there is refused for the first reason or another. -/
theorem acceptDirectory_refusal {g : FileFailure} (refusal : Refusal p f)
    (h : t.acceptDirectory p f = .error g) : Refusal p g := by
  rw [acceptDirectory] at h
  split at h
  · split at h
    · cases h
    · cases h
      exact refusal
    · next found =>
        cases h
        rw [isDirectory, entry?] at found
        split at found <;> cases found
        exact .obstacle _ _
  · cases h
    exact refusal

theorem makeDirectories_refusal (h : (t.makeDirectories p).2 = .error f) : Refusal p f := by
  fun_induction makeDirectories t p with
  | case1 => cases h
  | case2 =>
      cases h
      exact .obstacle _ _
  | case3 p q made filled t' f parent ih =>
      rw [parent] at ih
      exact (ih h).of_parent
  | case4 => cases h
  | case5 p q made filled t' parent g refused ih =>
      exact acceptDirectory_refusal (makeDirectory_refusal refused) h
  | case6 p g _ refused => exact acceptDirectory_refusal (makeDirectory_refusal refused) h

/-! ## Moves -/

/-- **Why nothing is moved.** -/
theorem rename_error (h : t.rename p q = .error f) :
    (f = .embeddedNul ∧ ('\x00' ∈ p.text ∨ '\x00' ∈ q.text)) ∨ ∃ o, f = .moving o p q := by
  rw [rename] at h
  split at h
  · cases h
    exact Or.inr ⟨_, rfl⟩
  · next other found =>
      cases h
      rcases find_error found with ⟨rfl, nul⟩ | ⟨o, rfl, -⟩
      · exact Or.inl ⟨rfl, Or.inl nul⟩
      · exact absurd rfl (other o p)
  · cases h
    exact Or.inr ⟨_, rfl⟩
  · next other found _ _ =>
      cases h
      rcases find_error found with ⟨rfl, nul⟩ | ⟨o, rfl, -⟩
      · exact Or.inl ⟨rfl, Or.inr nul⟩
      · exact absurd rfl (other o q)
  · cases h
    exact Or.inr ⟨_, rfl⟩
  · split at h
    · cases h
      exact Or.inr ⟨_, rfl⟩
    · split at h
      · cases h
        exact Or.inr ⟨_, rfl⟩
      · cases h

end FileTree

end PageAssembly
