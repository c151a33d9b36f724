import PageAssembly.FileTree.Access

/-!
# Where a path leads

A path that can be followed leads to the place that its spelling means, and what is listed in a
directory are the entries that stand in it.

## Main definitions

* `FileTree.EveryName` — a property of all names in a tree

## Main statements

* `FileTree.find_eq_ok` — what is found at a path is the entry at the path's place
* `FileTree.find_join_name` — a path of one more part leads to an entry of that name
* `FileTree.mem_names_of_lookup` — the name of an entry is listed in its directory
-/

namespace PageAssembly

namespace Path

variable {p : Path}

/-- A relative path of one part leads to the entry of that name. -/
theorem resolve_join_name (p : Path) {name : Text} (h : name ≠ up) (workingDirectory : Location) :
    (p.join ⟨.relative, [name]⟩).resolve workingDirectory =
      p.resolve workingDirectory ++ [name] := by
  rw [resolve_join rfl]
  simp [follow, h]

theorem join_relative_nil (p : Path) : p.join ⟨.relative, []⟩ = p := join_here p

/-- Two relative paths one after the other are one. -/
theorem join_join_relative (p : Path) (r r' : List Text) :
    (p.join ⟨.relative, r⟩).join ⟨.relative, r'⟩ = p.join ⟨.relative, r ++ r'⟩ := by
  simp [join, isAbsolute]

/-- The last part of a path is one step behind the parts before it. -/
theorem resolve_eq_follow (h : p.parts ≠ []) (workingDirectory : Location) :
    p.resolve workingDirectory = follow (p.parent.resolve workingDirectory) p.name := by
  have split : p.parts = p.parts.dropLast ++ [p.name] := by
    rw [name, List.getLastD_eq_getLast?, List.getLast?_eq_some_getLast h, Option.getD_some,
      List.dropLast_concat_getLast]
  show p.parts.foldl follow _ = follow (p.parts.dropLast.foldl follow _) p.name
  rw [split, List.foldl_append, ← split]
  rfl

theorem parts_ne_nil_of_name (h : p.name ≠ []) : p.parts ≠ [] := by
  intro none
  rw [name, none] at h
  exact h rfl

/-- Without `..` each part leads one name further. -/
theorem foldl_follow_of_up_not_mem {parts : List Text} (h : up ∉ parts) (start : Location) :
    parts.foldl follow start = start ++ parts := by
  induction parts generalizing start with
  | nil => simp
  | cons part parts ih =>
      obtain ⟨hp, hps⟩ := not_or.mp fun either => h (List.mem_cons.mpr either)
      rw [List.foldl_cons, ih hps, follow, if_neg (Ne.symm hp), List.append_assoc]
      rfl

/-- The names on the way to a place are those of the start and of the parts that are followed. -/
theorem mem_of_mem_foldl_follow {parts : List Text} {start : Location} {name : Text}
    (h : name ∈ parts.foldl follow start) : name ∈ start ∨ (name ∈ parts ∧ name ≠ up) := by
  induction parts generalizing start with
  | nil => exact .inl h
  | cons part parts ih =>
      rcases ih h with h | ⟨h, hn⟩
      · rw [follow] at h
        split at h
        · exact .inl (List.dropLast_subset _ h)
        · next hp =>
            rcases List.mem_append.mp h with h | h
            · exact .inl h
            · obtain rfl := List.mem_singleton.mp h
              exact .inr ⟨List.mem_cons_self, hp⟩
      · exact .inr ⟨List.mem_cons_of_mem _ h, hn⟩

/-- No place has `..` among its names. -/
theorem up_not_mem_resolve {workingDirectory : Location} (h : up ∉ workingDirectory) (p : Path) :
    up ∉ p.resolve workingDirectory := by
  intro hu
  rcases mem_of_mem_foldl_follow hu with hu | ⟨-, hu⟩
  · split at hu
    · cases hu
    · exact h hu
  · exact hu rfl

end Path

namespace FileTree

variable {t t' : FileTree} {p : Path} {l : Location} {e : Option Entry}

/-! ## Following a path -/

/-- Parts that can be followed lead to the place that they spell. -/
theorem walk_eq_ok {here : Location} {parts : List Text} (h : t.walk here parts = .ok l) :
    l = parts.foldl Path.follow here := by
  fun_induction walk t here parts with
  | case1 here => exact (Except.ok.inj h).symm
  | case2 here parts _ ih => simpa [Path.follow] using ih h
  | case3 => cases h
  | case4 here part parts _ hp _ ih => simpa [Path.follow, hp] using ih h
  | case5 => cases h
  | case6 => cases h

/-- A path at which something is found can be followed. -/
theorem walk_of_find (h : t.find p = .ok (l, e)) :
    t.walk (if p.isAbsolute then [] else t.workingDirectory) p.parts = .ok l ∧ e = t.lookup l := by
  rw [find] at h
  split at h
  · cases h
  · split at h
    · cases h
    · next found located =>
        obtain ⟨rfl, rfl⟩ := Prod.mk.inj (Except.ok.inj h)
        rw [locate] at located
        split at located
        · cases located
        · exact ⟨located, rfl⟩

/-- What is found at a path is the entry at the path's place. -/
theorem find_eq_ok (h : t.find p = .ok (l, e)) :
    l = p.resolve t.workingDirectory ∧ e = t.lookup l := by
  obtain ⟨followed, entry⟩ := walk_of_find h
  exact ⟨walk_eq_ok followed, entry⟩

theorem find_eq_ok_iff :
    t.find p = .ok (l, e) ↔ '\x00' ∉ p.text ∧ t.locate p = .ok l ∧ e = t.lookup l := by
  rw [find]
  split
  · next nul => simp_all
  · next clean =>
      have clean : '\x00' ∉ p.text := by simpa using clean
      cases t.locate p with
      | error o => simp
      | ok m =>
          simp only [Except.ok.injEq, Prod.mk.injEq]
          constructor
          · rintro ⟨rfl, rfl⟩
            exact ⟨clean, rfl, rfl⟩
          · rintro ⟨-, rfl, rfl⟩
            exact ⟨rfl, rfl⟩

/-- What is read at a path is the file found there. -/
theorem read_eq_ok_iff {content : List UInt8} :
    t.read p = .ok content ↔ ∃ l, t.find p = .ok (l, some (.file content)) := by
  rw [read]
  split <;> simp_all

/-- No file system can be asked for a path with a NUL character. -/
theorem read_of_nul (h : '\x00' ∈ p.text) : t.read p = .error .embeddedNul := by
  simp [read, find, h]

/-- Whatever else goes wrong is a failure of the file system. -/
theorem isSystem_of_read {failure : FileFailure} (clean : '\x00' ∉ p.text)
    (h : t.read p = .error failure) : failure.isSystem = true := by
  cases located : t.locate p with
  | error o =>
      have found : t.find p = .error (.reaching o p) := by simp [find, clean, located]
      rw [read, found] at h
      obtain rfl := Except.error.inj h
      rfl
  | ok l =>
      have found : t.find p = .ok (l, t.lookup l) := by simp [find, clean, located]
      rw [read, found] at h
      split at h
      · next other => cases other
      · cases h
      · obtain rfl := Except.error.inj h
        rfl
      · obtain rfl := Except.error.inj h
        rfl

/-- What is listed at a path are the names of the directory found there. -/
theorem list_eq_ok {names : List Text} (h : t.list p = .ok names) :
    ∃ l, t.find p = .ok (l, some .directory) ∧ names = t.names l := by
  rw [list] at h
  split at h
  · cases h
  · next l found => exact ⟨l, found, (Except.ok.inj h).symm⟩
  · cases h
  · cases h

/-- What is found at a path of one more part is an entry of what is found at the path. -/
theorem find_join_name {name : Text} {l' : Location} {e' : Option Entry} (hn : name ≠ Path.up)
    (outer : t.find p = .ok (l, e)) (inner : t.find (p.join ⟨.relative, [name]⟩) = .ok (l', e')) :
    l' = l ++ [name] := by
  rw [(find_eq_ok inner).1, (find_eq_ok outer).1, Path.resolve_join_name p hn]

/-! ## Names -/

/-- **Every name in the tree has the property**, those of the working directory among them. -/
structure EveryName (t : FileTree) (P : Text → Prop) : Prop where
  /-- The names that lead to the working directory. -/
  workingDirectory : ∀ name ∈ t.workingDirectory, P name
  /-- The names that lead to an entry. -/
  entries : ∀ entry ∈ t.entries, ∀ name ∈ entry.1, P name

/-- Only a directory stands at the root. -/
theorem ne_nil_of_lookup (h : t.lookup l ≠ some .directory) : l ≠ [] := by
  rintro rfl
  exact h (lookup_root t)

theorem mem_entries_of_lookup {entry : Entry} (hl : l ≠ []) (h : t.lookup l = some entry) :
    (l, entry) ∈ t.entries := by
  rw [lookup, if_neg hl] at h
  obtain ⟨before, after, split, -⟩ := List.lookup_eq_some_iff.mp h
  rw [split]
  exact List.mem_append_right _ List.mem_cons_self

/-- An entry's name is among the names of the directory it stands in. -/
theorem mem_names_of_lookup {name : Text} {entry : Entry}
    (h : t.lookup (l ++ [name]) = some entry) : name ∈ t.names l := by
  have member := mem_entries_of_lookup (by simp) h
  refine Text.mem_sort.mpr (List.mem_filterMap.mpr ⟨_, member, ?_⟩)
  simp

/-- The names in a directory are names in the tree. -/
theorem EveryName.of_list {P : Text → Prop} {names : List Text} (h : t.EveryName P)
    (listed : t.list p = .ok names) : ∀ name ∈ names, P name := by
  obtain ⟨l, -, rfl⟩ := list_eq_ok listed
  intro name hname
  obtain ⟨⟨k, e⟩, hentry, hk⟩ := List.mem_filterMap.mp (Text.mem_sort.mp hname)
  simp only at hk
  split at hk
  · exact h.entries _ hentry name (List.mem_of_getLast? hk)
  · cases hk

end FileTree

end PageAssembly
