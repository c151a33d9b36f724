import PageAssembly.Proofs.Assets.Scene
import PageAssembly.Proofs.Job.Told

/-!
# The course of copying a directory

## Main definitions

* `Assets.Apart` — two places of which none is at or below the other
* `Assets.Barred` — the failure is one of a path that is looked at

## Main statements

* `Assets.copyFile_tells` — copying a file
* `Assets.copyBelow_tells` — copying an entry of a directory with all that is below it
-/

namespace PageAssembly

namespace FileTree

variable {p : Path} {name : Text}

theorem intercalate_concat {parts : List Text} (h : parts ≠ []) (name : Text) :
    ['/'].intercalate (parts ++ [name]) = ['/'].intercalate parts ++ '/' :: name := by
  induction parts with
  | nil => exact absurd rfl h
  | cons part parts ih =>
      cases parts with
      | nil => simp [List.intercalate]
      | cons next parts =>
          rw [List.cons_append, List.cons_append, List.intercalate_cons_cons,
            List.intercalate_cons_cons, ← List.cons_append, ih nofun]
          simp only [List.append_assoc]

/-- A path of one more part is longer. -/
theorem byteLength_lt_join_name (h : p.parts ≠ []) (name : Text) :
    byteLength p.text < byteLength (p.join ⟨.relative, [name]⟩).text := by
  have here : p ≠ Path.here := fun same => h (by rw [same]; rfl)
  have there : p.join ⟨.relative, [name]⟩ ≠ Path.here := fun same =>
    absurd (congrArg Path.parts same) (by simp [Path.join_name, Path.here])
  rw [Path.text, if_neg here, Path.text, if_neg there, Path.join_name, intercalate_concat h,
    ← List.append_assoc, byteLength_append _ ('/' :: name)]
  show byteLength (Path.anchorText p.anchor ++ _) <
    byteLength (Path.anchorText p.anchor ++ _) + byteLength ('/' :: name)
  have slash : 0 < byteLength ('/' :: name) := by
    simp only [byteLength, List.map_cons, List.foldr_cons]
    have : '/'.utf8Size = 1 := by decide
    omega
  omega

/-- A path with a name at its end is not empty. -/
theorem byteLength_join_name_pos (h : name ≠ []) :
    0 < byteLength (p.join ⟨.relative, [name]⟩).text := by
  by_cases short : p.parts = []
  · obtain ⟨c, rest, rfl⟩ := List.exists_cons_of_ne_nil h
    have there : p.join ⟨.relative, [c :: rest]⟩ ≠ Path.here := fun same =>
      absurd (congrArg Path.parts same) (by simp [Path.join_name, Path.here])
    rw [Path.text, if_neg there, Path.join_name, short, byteLength_append]
    have first : 0 < byteLength (c :: rest) := by
      simp only [byteLength, List.map_cons, List.foldr_cons]
      have := c.utf8Size_pos
      omega
    have alone : ['/'].intercalate ([] ++ [c :: rest]) = c :: rest := by simp [List.intercalate]
    rw [alone]
    omega
  · exact Nat.zero_lt_of_lt (byteLength_lt_join_name short name)

end FileTree

namespace Assets

open FileTree Job

/-! ## Places apart -/

/-- **None of the places is at or below the other one.** -/
def Apart (l m : Location) : Prop := ¬ l <+: m ∧ ¬ m <+: l

namespace Apart

variable {l m : Location}

/-- Places below places that are apart are apart. -/
theorem append (apart : Apart l m) (r r' : Location) : Apart (l ++ r) (m ++ r') := by
  have meet {k : Location} (inL : l <+: k) (inM : m <+: k) : False := by
    rcases Nat.le_total l.length m.length with shorter | shorter
    · exact apart.1 (List.prefix_of_prefix_length_le inL inM shorter)
    · exact apart.2 (List.prefix_of_prefix_length_le inM inL shorter)
  refine ⟨fun h => meet ?_ (List.prefix_append m r'), fun h => meet (List.prefix_append l r) ?_⟩
  · exact (List.prefix_append l r).trans h
  · exact (List.prefix_append m r').trans h

theorem append_ne (apart : Apart l m) (r r' : Location) : l ++ r ≠ m ++ r' :=
  fun same => (apart.append r r').1 (same ▸ List.prefix_rfl)

end Apart

/-! ## Files -/

/-- **The failure is one of a path that is looked at.** -/
def Barred (S : Scene) (A : Location → Prop) (failure : Failure) : Prop :=
  ∃ r f, A r ∧ barrier? (S.along r).source = some f ∧ failure = .files f

variable {t : FileTree} {source target : Path} {l m : Location} {name : Text} {f : FileFailure}

/-- What is wrong with a path of characters that a file system takes is its length. -/
theorem barrier?_of_clean {p : Path} (clean : '\x00' ∉ p.text) (barred : barrier? p = some f) :
    f = .reaching .nameTooLong p := by
  rw [barrier?, if_neg clean] at barred
  split at barred
  · exact (Option.some.inj barred).symm
  · cases barred

/-- What is copied is the same entry as nothing that stands elsewhere. -/
theorem sameEntry_of_apart {e : Entry} (found : t.find source = .ok (l, some e))
    (clean : t.find target ≠ .error .embeddedNul)
    (apart : ∀ m e', t.find target = .ok (m, e') → l ≠ m) :
    t.sameEntry source target = .ok false := by
  rw [sameEntry, found]
  rcases aim : t.find target with (_ | _ | _ | _) | ⟨m, _ | e'⟩
  · cases e <;> rfl
  · cases e <;> rfl
  · cases e <;> rfl
  · exact absurd aim clean
  · cases e <;> rfl
  · have different : (l == m) = false := by simpa using apart m _ aim
    cases e <;> simp [different]

/-- A file that is copied elsewhere is written there. -/
theorem copy_of_file {content : List UInt8} (found : t.find source = .ok (l, some (.file content)))
    (elsewhere : t.sameEntry source target = .ok false) :
    t.copy source target = t.write target content := by
  rw [copy, elsewhere, FileTree.read, found]
  rfl

/-- **What is in the way of copying a file is what the copy fails with.** -/
theorem copy_of_refusal {e : Entry} (hs : t.Enters source) (ht : t.Enters target)
    (clear : barrier? source = none) (clean : '\x00' ∉ target.text)
    (standing : t.lookup (source.resolve t.workingDirectory) = some e) (other : e ≠ .directory)
    (apart : source.resolve t.workingDirectory ≠ target.resolve t.workingDirectory) :
    match (Scene.of t source target).refusal? with
    | some f => t.copy source target = .error f ∧ f.isSystem = true
    | none => ∃ content t', e = .file content ∧ t.copy source target = .ok t' := by
  have found := hs.find
  have aim := ht.find
  simp only [clear, standing] at found
  have elsewhere : t.sameEntry source target = .ok false := by
    refine sameEntry_of_apart found (fun nul => ?_) fun m e' reached => ?_
    · rcases find_error nul with ⟨-, inside⟩ | ⟨o, other, -⟩
      · exact clean inside
      · cases other
    · rw [(find_eq_ok reached).1]
      exact apart
  simp only [Scene.refusal?, Scene.of_there, Scene.of_here, Scene.of_source, Scene.of_target,
    standing]
  cases e with
  | directory => exact absurd rfl other
  | dangling =>
      refine ⟨?_, rfl⟩
      rw [copy, elsewhere, FileTree.read, found]
      rfl
  | file content =>
      rw [copy_of_file found elsewhere, write]
      cases barred : barrier? target with
      | some g =>
          obtain rfl := barrier?_of_clean clean barred
          rw [aim, barred]
          exact ⟨rfl, rfl⟩
      | none =>
          rw [aim, barred]
          simp only [Option.none_or]
          cases occupied : t.lookup (target.resolve t.workingDirectory) with
          | none => exact ⟨content, _, rfl, rfl⟩
          | some old =>
              cases old with
              | directory => exact ⟨rfl, rfl⟩
              | dangling => exact ⟨rfl, rfl⟩
              | file _ => exact ⟨content, _, rfl, rfl⟩

/-- **Copying a file** writes it or reports what is in the way. -/
theorem copyFile_tells {e : Entry} {E : Failure → Prop} (hs : t.Enters source)
    (ht : t.Enters target) (clear : barrier? source = none) (clean : '\x00' ∉ target.text)
    (standing : t.lookup (source.resolve t.workingDirectory) = some e) (other : e ≠ .directory)
    (apart : source.resolve t.workingDirectory ≠ target.resolve t.workingDirectory) :
    (copyFile source target).Tells t (fun copied told t' => ∃ visited,
      Copied (Scene.of t source target) (target.resolve t.workingDirectory) t
        (Scene.of t source target).Attempts visited copied.toList told t') E := by
  have ends := copy_of_refusal hs ht clear clean standing other apart
  rw [copyFile]
  refine .tree_bind ?_
  cases refusal : (Scene.of t source target).refusal? with
  | some f =>
      rw [refusal] at ends
      obtain ⟨failed, system⟩ := ends
      simp only [failed, system]
      refine .note_bind (.pure ?_)
      exact ⟨_, .refused refusal clear⟩
  | none =>
      rw [refusal] at ends
      obtain ⟨content, t', rfl, copied⟩ := ends
      simp only [copied]
      have alters : Alters {target.resolve t.workingDirectory} ∅ t t' := copy_alters copied rfl
      obtain ⟨content', foundSource, foundTarget, -, free, rfl⟩ := copy_eq_ok copied
      obtain rfl : content' = content := by
        have same := (find_eq_ok foundSource).2.trans standing
        cases same
        rfl
      have found := alters.find foundTarget
      rw [lookup_put t (ne_nil_of_lookup free), if_pos rfl] at found
      refine .setTree_bind (.pure ?_)
      exact ⟨_, .file (by rw [Scene.of_there, standing]) refusal clear found alters fun distinct =>
        distinct.put _ _⟩

/-! ## Directories -/

/-- **Opening a directory** gives the names in it and makes the other one, or reports what is in
the way. -/
theorem openDirectory_tells {E : Failure → Prop} (ht : t.Enters target)
    (clean : '\x00' ∉ target.text) (found : t.find source = .ok (l, some .directory)) :
    (openDirectory source target).Tells t (fun names told t' =>
      match (Scene.of t source target).refusal? with
      | some f => names = none ∧ told = [.notCopied source target f] ∧ t' = t
      | none => names = some (t.names l) ∧ told = [] ∧ (t.Distinct → t'.Distinct) ∧
          Alters {target.resolve t.workingDirectory} ∅ t t' ∧
          t'.find target = .ok (target.resolve t.workingDirectory, some .directory)) E := by
  obtain ⟨rfl, standing⟩ := find_eq_ok found
  have made := ht.makeDirectories
  have alters := ht.makeDirectories_ok
  have kept (distinct : t.Distinct) := distinct.makeDirectories target
  rw [openDirectory]
  refine .tree_bind ?_
  simp only [list_of_directory found]
  refine .tree_bind ?_
  simp only [Scene.refusal?, Scene.of_there, Scene.of_here, Scene.of_target, ← standing]
  cases barred : barrier? target with
  | some f =>
      obtain rfl := barrier?_of_clean clean barred
      rw [barred] at made
      simp only [made]
      exact .setTree_bind (.note_bind (.pure ⟨rfl, rfl, rfl⟩))
  | none =>
      rw [barred] at made
      cases occupied : t.lookup (target.resolve t.workingDirectory) with
      | none =>
          simp only [occupied] at made
          simp only [made] at alters kept ⊢
          exact .setTree_bind (.pure ⟨rfl, rfl, kept, alters trivial⟩)
      | some e =>
          cases e with
          | directory =>
              simp only [occupied] at made
              simp only [made] at alters kept ⊢
              exact .setTree_bind (.pure ⟨rfl, rfl, kept, alters trivial⟩)
          | file content =>
              simp only [occupied] at made
              simp only [made]
              exact .setTree_bind (.note_bind (.pure ⟨rfl, rfl, rfl⟩))
          | dangling =>
              simp only [occupied] at made
              simp only [made]
              exact .setTree_bind (.note_bind (.pure ⟨rfl, rfl, rfl⟩))

/-! ## Entries of a directory -/

/-- The property of copying the entry of that name, in the scene that it has on the tree. -/
def CopiesBelow (levels : Nat) (source target : Path) (m : Location) (name : Text)
    (t : FileTree) : Prop :=
  let S := Scene.of t (source.join ⟨.relative, [name]⟩) (target.join ⟨.relative, [name]⟩)
  (copyBelow levels source target name).Tells t (fun copied told t' => ∃ visited,
    Copied S (m ++ [name]) t S.Attempts visited copied told t') (Barred S S.Attempts)

/-- A failure below an entry is one below the directory. -/
theorem Barred.of_below {S : Scene} {names : List Text} {failure : Failure} (h : name ∈ names)
    (barred : Barred (S.below name) (S.below name).Attempts failure) :
    Barred S (Copied.Among S names) failure := by
  obtain ⟨r, f, attempts, wrong, same⟩ := barred
  exact ⟨name :: r, f, ⟨name, h, r, rfl, attempts⟩, wrong, same⟩

/-- A failure of an entry is one of the directory that was opened. -/
theorem Barred.opened {S : Scene} {names : List Text} {failure : Failure}
    (barred : Barred S (Copied.Among S names) failure) (directory : S.there [] = some .directory)
    (accepted : S.refusal? = none) (listed : ∀ name, name ∈ names ↔ S.there [name] ≠ none) :
    Barred S S.Attempts failure := by
  obtain ⟨_, f, ⟨name, member, r, rfl, attempts⟩, wrong, same⟩ := barred
  exact ⟨name :: r, f, .entry directory accepted ((listed name).mp member) attempts, wrong, same⟩

/-- **The entries of a directory are copied one after the other.**  What is done with one of them
depends on its own scene, which the entries before it leave as it is. -/
theorem copyNames_tells (levels : Nat) {names : List Text} {S : Scene}
    (foundSource : t.find source = .ok (l, some .directory))
    (foundTarget : t.find target = .ok (m, some .directory)) (apart : Apart l m)
    (proper : ∀ name ∈ names, name ≠ Path.up)
    (order : names.Pairwise fun a b => Text.le a b = true ∧ a ≠ b)
    (scenes : ∀ name ∈ names, S.below name = (Scene.of t source target).below name)
    (nested : ∀ name ∈ names, ∀ t', Alters Set.univ ∅ t t' → (t.Distinct → t'.Distinct) →
      t'.lookup (l ++ [name]) = t.lookup (l ++ [name]) →
      CopiesBelow levels source target m name t') :
    (names.mapM (copyBelow levels source target)).Tells t (fun copied told t' => ∃ visited,
      Copied S m t (Copied.Among S names) visited copied.flatten told t')
      (Barred S (Copied.Among S names)) := by
  refine .mapM (I := fun done bs told t' => ∃ visited,
    Copied S m t (Copied.Among S done) visited bs.flatten told t') names ⟨[], .start S m t⟩ ?_
  rintro done name rest rfl bs told t' ⟨visited, before⟩
  have member : name ∈ done ++ name :: rest := by simp
  have last (a : Text) (h : a ∈ done) : Text.le a name = true ∧ a ≠ name :=
    (List.pairwise_append.mp order).2.2 a h name List.mem_cons_self
  -- nothing at or below the entry's two places was touched
  have there (r : Location) : t'.lookup (l ++ [name] ++ r) = t.lookup (l ++ [name] ++ r) := by
    refine before.elsewhere _ fun r' _ _ => ?_
    rw [List.append_assoc]
    exact apart.append_ne _ r'
  have here (r : Location) : t'.lookup (m ++ [name] ++ r) = t.lookup (m ++ [name] ++ r) := by
    refine before.elsewhere _ fun r' visit _ same => ?_
    obtain ⟨a, earlier, r', rfl, -⟩ := (before.visits r').mp visit
    rw [List.append_assoc] at same
    exact (last a earlier).2 (List.cons.inj (List.append_cancel_left same)).1.symm
  have scene : Scene.of t' (source.join ⟨.relative, [name]⟩) (target.join ⟨.relative, [name]⟩) =
      S.below name := by
    rw [scenes name member, Scene.below_of foundSource foundTarget (proper name member)]
    refine Scene.of_eq before.alters.workingDirectory ?_ ?_
    · rwa [resolve_entry foundSource (proper name member)]
    · rwa [resolve_entry foundTarget (proper name member)]
  have own := there []
  rw [List.append_nil] at own
  have one := nested name member t' before.alters before.distinct own
  rw [CopiesBelow, scene] at one
  refine one.mono ?_ fun failure barred => barred.of_below member
  rintro copied more t'' ⟨visited', after⟩
  refine ⟨visited ++ visited'.map (name :: ·), ?_⟩
  rw [List.flatten_append, List.flatten_singleton]
  exact before.append after last

/-- What an entry is asked for when nothing is wrong with its path. -/
theorem isDirectory_of_clear {p : Path} (enters : t.Enters p) (clear : barrier? p = none) :
    t.isDirectory p =
      .ok (decide (t.lookup (p.resolve t.workingDirectory) = some .directory)) := by
  have found := enters.find
  rw [clear] at found
  rw [isDirectory, entry?, found]
  cases t.lookup (p.resolve t.workingDirectory) with
  | none => rfl
  | some e => cases e <;> rfl

/-- What an entry is asked for when its path is too long. -/
theorem isDirectory_of_long {p : Path} (enters : t.Enters p)
    (barred : barrier? p = some (.reaching .nameTooLong p)) :
    t.isDirectory p = .error (.reaching .nameTooLong p) := by
  have found := enters.find
  rw [barred] at found
  rw [isDirectory, entry?, found]
  rfl

/-- A path that no file system takes leads to no directory and to no file. -/
theorem copyFile_of_nul (t : FileTree) (target : Path) (nul : '\x00' ∈ source.text) :
    t.isDirectory source = .ok false ∧ t.copy source target = .error .embeddedNul := by
  have found : t.find source = .error .embeddedNul := by simp [find, nul]
  refine ⟨?_, ?_⟩
  · rw [isDirectory, entry?, found]
    rfl
  · rw [copy, sameEntry, found]

/-- **An entry is copied when it is copied as a directory**: everything else is a file or leads
nowhere, or something is wrong with its path. -/
theorem copiesBelow_of_directory {levels : Nat}
    (foundSource : t.find source = .ok (l, some .directory))
    (foundTarget : t.find target = .ok (m, some .directory)) (apart : Apart l m)
    (proper : name ≠ Path.up) (listed : t.lookup (l ++ [name]) ≠ none)
    (directory : ∀ S, S = Scene.of t (source.join ⟨.relative, [name]⟩)
        (target.join ⟨.relative, [name]⟩) → S.there [] = some .directory →
      barrier? S.source = none → '\x00' ∉ S.target.text →
      (copyLevels levels S.source S.target).Tells t (fun copied told t' => ∃ visited,
        Copied S (m ++ [name]) t S.Attempts visited copied told t') (Barred S S.Attempts)) :
    CopiesBelow levels source target m name t := by
  have enters := enters_join_name foundSource proper
  have entersTarget := enters_join_name foundTarget proper
  have place := resolve_entry foundSource proper
  have placeTarget := resolve_entry foundTarget proper
  obtain ⟨S, scene⟩ : ∃ S, S = Scene.of t (source.join ⟨.relative, [name]⟩)
    (target.join ⟨.relative, [name]⟩) := ⟨_, rfl⟩
  rw [CopiesBelow, ← scene, copyBelow, byKind]
  refine .tree_bind ?_
  have wrong {f : FileFailure} (barred : barrier? (source.join ⟨.relative, [name]⟩) = some f) :
      Barred S S.Attempts (.files f) := ⟨[], f, .self S, by rw [scene]; exact barred, rfl⟩
  cases barred : barrier? (source.join ⟨.relative, [name]⟩) with
  | some f =>
      by_cases nul : '\x00' ∈ (source.join ⟨.relative, [name]⟩).text
      · obtain ⟨no, failed⟩ :=
          copyFile_of_nul t (target.join ⟨.relative, [name]⟩) nul
        obtain rfl : f = .embeddedNul := by
          rw [barrier?, if_pos nul] at barred
          exact (Option.some.inj barred).symm
        refine .ofFiles_bind (fun b asked => ?_) fun g asked => by cases no.symm.trans asked
        obtain rfl : false = b := Except.ok.inj (no.symm.trans asked)
        refine .bind (P := fun _ _ _ => False) ?_ fun _ _ _ => False.elim
        rw [copyFile]
        refine .tree_bind ?_
        simp only [failed]
        exact .throw_bind (wrong barred)
      · obtain rfl := barrier?_of_clean nul barred
        rw [isDirectory_of_long enters barred]
        exact .throw_bind (wrong barred)
  | none =>
      have clean : '\x00' ∉ (target.join ⟨.relative, [name]⟩).text := by
        have own : '\x00' ∉ (source.join ⟨.relative, [name]⟩).text := by
          intro nul
          rw [barrier?, if_pos nul] at barred
          cases barred
        have above := (find_eq_ok_iff.mp foundTarget).1
        simp only [Path.nul_mem_text_iff, Path.join_name, List.mem_append, List.mem_singleton,
          not_exists, not_and] at own above ⊢
        rintro part (inside | rfl)
        · exact above part inside
        · exact own part (.inr rfl)
      rw [isDirectory_of_clear enters barred, place]
      refine .ofFiles_bind (fun b asked => ?_) fun g asked => by cases asked
      obtain rfl := Except.ok.inj asked
      by_cases kind : t.lookup (l ++ [name]) = some .directory
      · rw [if_pos (decide_eq_true kind)]
        have nested := directory S scene (by rw [scene, Scene.of_there, place, kind])
          (by rw [scene]; exact barred) (by rw [scene]; exact clean)
        have source' : S.source = source.join ⟨.relative, [name]⟩ := by rw [scene, Scene.of_source]
        have target' : S.target = target.join ⟨.relative, [name]⟩ := by rw [scene, Scene.of_target]
        rwa [source', target'] at nested
      · obtain ⟨e, standing⟩ := Option.ne_none_iff_exists'.mp listed
        rw [if_neg (by simpa using kind)]
        rw [← place] at standing
        have file := copyFile_tells (E := Barred S S.Attempts) enters entersTarget barred clean
          standing (by rintro rfl; exact kind (place ▸ standing))
          (by rw [place, placeTarget]; exact apart.append_ne _ _)
        rw [placeTarget, ← scene] at file
        refine .bind file ?_
        rintro done told t' ⟨visited, copied⟩
        refine .pure ⟨visited, ?_⟩
        rwa [List.append_nil]

/-- Making the target leaves the scenes of the entries as they are. -/
theorem below_of_alters {t' : FileTree}
    (alters : Alters {target.resolve t.workingDirectory} ∅ t t')
    (apart : Apart (source.resolve t.workingDirectory) (target.resolve t.workingDirectory))
    (name : Text) :
    (Scene.of t source target).below name = (Scene.of t' source target).below name := by
  ext1
  · rfl
  · rfl
  · funext r
    show t.lookup (_ ++ name :: r) = t'.lookup (_ ++ name :: r)
    rw [alters.workingDirectory, alters.lookup_eq]
    intro own
    exact apart.append_ne (name :: r) [] (own.trans (List.append_nil _).symm)
  · funext r
    show t.lookup (_ ++ name :: r) = t'.lookup (_ ++ name :: r)
    rw [alters.workingDirectory, alters.lookup_eq]
    intro own
    cases List.append_cancel_left (own.trans (List.append_nil _).symm)

/-- An entry that is a directory is found. -/
theorem find_of_there {S : Scene} (foundSource : t.find source = .ok (l, some .directory))
    (proper : name ≠ Path.up) (scene : S = Scene.of t (source.join ⟨.relative, [name]⟩)
      (target.join ⟨.relative, [name]⟩)) (directory : S.there [] = some .directory)
    (clear : barrier? S.source = none) :
    t.find (source.join ⟨.relative, [name]⟩) = .ok (l ++ [name], some .directory) := by
  subst scene
  rw [Scene.of_there, resolve_entry foundSource proper] at directory
  have found := (enters_join_name foundSource proper).find
  rw [show barrier? (source.join ⟨.relative, [name]⟩) = none from clear] at found
  rwa [resolve_entry foundSource proper, directory] at found

/-- **A directory is copied** with all that is below it, when more levels are left than paths can
have. -/
theorem copyLevels_tells (levels : Nat) (plain : t.Plain) (distinct : t.Distinct)
    (found : t.find source = .ok (l, some .directory)) (ht : t.Enters target)
    (clean : '\x00' ∉ target.text) (apart : Apart l (target.resolve t.workingDirectory))
    (long : source.parts ≠ []) (deep : pathLimit ≤ levels + byteLength source.text) :
    (copyLevels levels source target).Tells t (fun copied told t' => ∃ visited,
      Copied (Scene.of t source target) (target.resolve t.workingDirectory) t
        (Scene.of t source target).Attempts visited copied told t')
      (Barred (Scene.of t source target) (Scene.of t source target).Attempts) := by
  induction levels generalizing source target t l with
  | zero =>
      have short := (locate_eq_ok_iff.mp (find_eq_ok_iff.mp found).2.1).1
      omega
  | succ levels ih =>
      rw [copyLevels_succ]
      refine .bind (openDirectory_tells ht clean found) ?_
      rintro names told t₁ opened
      have clear := barrier?_of_find found
      have directory : (Scene.of t source target).there [] = some .directory := by
        rw [Scene.of_there, ← (find_eq_ok found).1, ← (find_eq_ok found).2]
      cases refusal : (Scene.of t source target).refusal? with
      | some f =>
          rw [refusal] at opened
          obtain ⟨rfl, rfl, rfl⟩ := opened
          exact .pure ⟨_, .refused refusal clear⟩
      | none =>
          rw [refusal] at opened
          obtain ⟨rfl, rfl, distinct₁, alters, foundTarget⟩ := opened
          have foundSource := alters.find_directory found
          have place := (find_eq_ok found).1
          have scenes := below_of_alters alters (place ▸ apart)
          generalize target.resolve t.workingDirectory = m at *
          have proper (name : Text) (h : name ∈ t.names l) : name ≠ Path.up := plain.of_mem_names h
          have listed (name : Text) :
              name ∈ t.names l ↔ (Scene.of t source target).there [name] ≠ none := by
            rw [mem_names_iff, place]
            rfl
          refine .bind ((copyNames_tells levels foundSource foundTarget apart proper
            (distinct.pairwise_names l) (fun name _ => scenes name) ?_).mono (fun _ _ _ h => h)
              fun failure barred => barred.opened directory refusal listed) ?_
          · intro name hname t' between kept same
            have foundSource' := between.find_directory foundSource
            have foundTarget' := between.find_directory foundTarget
            refine copiesBelow_of_directory foundSource' foundTarget' apart (proper name hname)
              ?_ ?_
            · rw [same, alters.lookup_eq]
              · exact mem_names_iff.mp hname
              · intro own
                exact apart.append_ne [name] [] (own.trans (List.append_nil _).symm)
            · intro S scene directory' clear' clean'
              have found' := find_of_there foundSource' (proper name hname) scene directory' clear'
              have entersTarget := enters_join_name foundTarget' (proper name hname)
              have nested := ih (between.plain (alters.plain plain)) (kept (distinct₁ distinct))
                found' entersTarget (by rw [scene] at clean'; exact clean')
                (by rw [resolve_entry foundTarget' (proper name hname)]; exact apart.append _ _)
                (by simp [Path.join_name])
                (by have := byteLength_lt_join_name long name; omega)
              rw [resolve_entry foundTarget' (proper name hname), ← scene] at nested
              rw [scene] at nested ⊢
              exact nested
          · rintro copied told t' ⟨visited, inside⟩
            refine .pure ⟨[] :: visited, ?_⟩
            rw [List.nil_append, List.append_nil]
            exact inside.opened directory refusal listed clear foundTarget
              (alters.mono (Set.subset_univ _) Set.Subset.rfl)
              (fun k other => alters.lookup_eq other) distinct₁

end Assets

end PageAssembly
