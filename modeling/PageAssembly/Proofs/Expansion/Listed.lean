import PageAssembly.Proofs.Expansion.Congruence
import PageAssembly.Proofs.Expansion.Transparency
import PageAssembly.Proofs.Survey.Agreement

/-!
# Expansion opens what a survey lists

An expansion finds a component by its path, and a survey finds it by its name in the component
directory.  On names without a slash they agree, so an expansion does what it would do if it asked
the survey first.

## Main definitions

* `Expansion.componentAmong` — an expansion that opens listed names and no others
* `Expansion.Holds` — a memo that holds listed names alone
* `Expansion.Agree` — operations that do the same on such memos

## Main statements

* `Expansion.agree_componentWithin` — where the openable names are the listed ones, an expansion
  opens listed names and no others
* `Expansion.agree_request_iff` — this is so exactly when no name with a slash can be opened

### What the survey has to say about a name

The comparison asks for the list before it asks for anything else: a name that is not listed is
answered at once, with nothing and one notice.  An expansion looks into the memo and at the names in
progress first.  Both hold listed names alone, which is the invariant of the run.
-/

namespace PageAssembly.Expansion

variable {t : FileTree} {directory : Path} {listed : List Text}

/-! ## Asking the list first -/

/-- **An expansion that opens listed names and no others.**  Any other name contributes nothing and
is reported as missing, unless no file system can be asked for it. -/
def componentAmong (listed : List Text) (t : FileTree) (directory : Path) :
    (budget : Nat) → (inProgress : List Text) → Place → Text → Expanding Text
  | 0, inProgress, _, _ => throw (.circular (Text.sortUnique inProgress))
  | budget + 1, inProgress, place, name =>
    if name ∈ listed then
      openWith (componentAmong listed t directory budget (inProgress ++ [name])) t directory
        inProgress place name
    else if '\x00' ∈ (Fragment.path directory name).text then throw (.files .embeddedNul)
    else do
      Expanding.note (.missingFragment name place.line place.source directory)
      return []

/-- The operation that answers a request by opening listed names and no others. -/
def Request.runAmong (listed : List Text) (t : FileTree) (directory : Path) :
    Request → Expanding Text
  | .component place name => componentAmong listed t directory (budget t) [] place name
  | .line place text => lineWith (componentAmong listed t directory (budget t) []) place text
  | .document source text =>
    linesWith (componentAmong listed t directory (budget t) []) source (Text.splitLines text)

/-! ## Operations that do the same -/

/-- A memo that holds listed names alone. -/
def Holds (listed : List Text) (m : Memo) : Prop :=
  ∀ name markup, m.get? name = some markup → name ∈ listed

theorem Holds.store {m : Memo} (holds : Holds listed m) {name markup : Text}
    (h : name ∈ listed) : Holds listed (m.store name markup) :=
  Memo.forall_get?_store (P := fun name _ => name ∈ listed) holds h

/-- **The two operations do the same on memos of listed names**, and leave such a memo. -/
def Agree (listed : List Text) {α : Type} (op op' : Expanding α) : Prop :=
  ∀ s : Expanding.State, Holds listed s.memo →
    op.run.run s = op'.run.run s ∧ Holds listed (op.run.run s).2.memo

/-- An operation that leaves the memo as it is agrees with itself. -/
theorem Agree.of_memo {α : Type} {op : Expanding α} (h : ∀ s, (op.run.run s).2.memo = s.memo) :
    Agree listed op op := by
  intro s holds
  exact ⟨rfl, h s ▸ holds⟩

/-- **Operations that agree on memos of listed names go on agreeing**, as long as they remember
listed names. -/
theorem agree_congruence (listed : List Text) : Congruence (· ∈ listed) (Agree listed) where
  pure _ := .of_memo fun _ => rfl
  throw _ := .of_memo fun _ => rfl
  note _ := .of_memo fun _ => rfl
  remembered _ := .of_memo fun _ => rfl
  remember known _ _ holds := ⟨rfl, holds.store known⟩
  bind := by
    intro α β op op' f f' first next s holds
    obtain ⟨same, later⟩ := first s holds
    rw [Failure.run_bind, Failure.run_bind, ← same]
    rcases outcome : op.run.run s with ⟨e | a, s'⟩ <;> rw [outcome] at later
    · exact ⟨rfl, later⟩
    · exact next a s' later

/-! ## The run -/

/-- A name without a fragment contributes nothing and is reported as missing, unless no file system
can be asked for it.  Nothing is remembered of it. -/
theorem openWith_of_not_opens (expand : Place → Text → Expanding Text) {inProgress : List Text}
    (place : Place) {name : Text} (closed : ¬ Fragment.Opens t directory name)
    (fresh : name ∉ inProgress) {s : Expanding.State} (unknown : s.memo.get? name = none) :
    (openWith expand t directory inProgress place name).run.run s =
      if '\x00' ∈ (Fragment.path directory name).text then (.error (.files .embeddedNul), s)
      else (.ok [], { s with
        notices := s.notices.push (.missingFragment name place.line place.source directory) }) := by
  rw [run_openWith_of_unknown expand place fresh unknown, fragmentWith]
  cases read : t.read (Fragment.path directory name) with
  | ok bytes => exact absurd ⟨bytes, read⟩ closed
  | error failure =>
      by_cases nul : '\x00' ∈ (Fragment.path directory name).text
      · obtain rfl := Except.error.inj (read.symm.trans (FileTree.read_of_nul nul))
        rw [if_pos nul]
        rfl
      · simp only [FileTree.isSystem_of_read nul read, if_true, if_neg nul]
        rfl

/-- **Where the openable names are the listed ones, an expansion opens listed names and no
others.**  The names in progress are listed, and so are those of the memo. -/
theorem agree_componentWithin (opens : ∀ name, Fragment.Opens t directory name ↔ name ∈ listed)
    (budget : Nat) (inProgress : List Text) (within : ∀ n ∈ inProgress, n ∈ listed)
    (place : Place) (name : Text) :
    Agree listed (componentWithin t directory budget inProgress place name)
      (componentAmong listed t directory budget inProgress place name) := by
  induction budget generalizing inProgress place name with
  | zero => exact (agree_congruence listed).throw _
  | succ budget ih =>
      rw [componentWithin_succ, componentAmong]
      split
      · next known =>
          refine (agree_congruence listed).openWith (fun place n => ih _ ?_ place n) known
            inProgress place
          intro n hn
          rcases List.mem_append.mp hn with hn | hn
          · exact within n hn
          · exact List.mem_singleton.mp hn ▸ known
      · next unlisted =>
          intro s holds
          have unknown : s.memo.get? name = none := by
            by_contra some
            obtain ⟨markup, found⟩ := Option.ne_none_iff_exists'.mp some
            exact unlisted (holds name markup found)
          have answer := openWith_of_not_opens
            (componentWithin t directory budget (inProgress ++ [name])) place
            (fun h => unlisted ((opens name).mp h)) (fun h => unlisted (within name h)) unknown
          rw [answer]
          split
          · exact ⟨rfl, holds⟩
          · exact ⟨rfl, holds⟩

/-- A request opens listed names and no others. -/
theorem agree_request (opens : ∀ name, Fragment.Opens t directory name ↔ name ∈ listed)
    (request : Request) :
    Agree listed (request.run t directory) (request.runAmong listed t directory) := by
  have component := agree_componentWithin opens (budget t) [] fun n hn =>
    absurd hn List.not_mem_nil
  cases request with
  | component place name => exact component place name
  | line place text => exact (agree_congruence listed).lineWith component place text
  | document source text => exact (agree_congruence listed).linesWith component source _

/-- What was read is remembered when it has given markup. -/
theorem get?_of_fragmentWith (expand : Place → Text → Expanding Text) (place : Place)
    {name markup : Text} (opens : Fragment.Opens t directory name) {s s' : Expanding.State}
    (run : (fragmentWith expand t directory place name).run.run s = (.ok markup, s')) :
    s'.memo.get? name = some markup := by
  obtain ⟨bytes, read⟩ := opens
  rw [fragmentWith] at run
  simp only [read] at run
  rw [Failure.run_bind] at run
  split at run
  · next found s'' lines =>
      cases fault : (Stored.lines bytes).fault with
      | some fault' =>
          rw [fault] at run
          cases run
      | none =>
          rw [fault] at run
          obtain ⟨result, rfl⟩ := Prod.mk.inj run
          obtain rfl := Except.ok.inj result
          show (s''.memo.store name found).get? name = some found
          rw [Memo.get?_store, if_pos rfl]
  · cases run

/-- An expansion opens a fragment whether it is listed or not. -/
theorem not_agree_of_opens {name : Text} (opens : Fragment.Opens t directory name)
    (unlisted : name ∉ listed) :
    ¬ Agree listed ((Request.component {} name).run t directory)
      ((Request.component {} name).runAmong listed t directory) := by
  intro agree
  have clean : '\x00' ∉ (Fragment.path directory name).text := by
    intro nul
    obtain ⟨bytes, read⟩ := opens
    rw [FileTree.read_of_nul nul] at read
    cases read
  have among : ((Request.component {} name).runAmong listed t directory).run.run {} =
      (.ok [], { notices := #[.missingFragment name 0 "<document>".toList directory] }) := by
    show (componentAmong listed t directory (t.size + 1 + 1) [] {} name).run.run {} = _
    rw [componentAmong, if_neg unlisted, if_neg clean]
    rfl
  have run := (agree {} fun n markup found => by cases found).1.trans among
  have known := get?_of_fragmentWith (componentWithin t directory (t.size + 1) [name]) {} opens
    (s := {}) run
  cases known

/-- **Expansion opens what a survey lists, on names without a slash.**  After a survey that gives a
map, such a name has a fragment exactly when it is a component of the map, and no component has a
slash.  Every expansion, from any memo of components, does what it would do if it opened components
alone, answering any other name with nothing and one notice and remembering nothing of it, exactly
when no name with a slash leads to a fragment. -/
theorem agree_request_iff {d : Dependencies} {notices : Notices}
    (found : ((Dependencies.survey t directory).run.run notices).1 = .ok d)
    (named : t.EveryName ('/' ∉ ·)) :
    (∀ name, '/' ∉ name → (Fragment.Opens t directory name ↔ name ∈ d.components)) ∧
      (∀ name ∈ d.components, '/' ∉ name) ∧
      ((∀ request : Request, Agree d.components (request.run t directory)
          (request.runAmong d.components t directory)) ↔
        ∀ name, '/' ∈ name → ¬ Fragment.Opens t directory name) := by
  have plain (name : Text) (h : name ∈ d.components) : '/' ∉ name :=
    Dependencies.slash_not_mem_of_listed found named h
  refine ⟨fun name => Dependencies.opens_iff_listed found, plain, ?_, ?_⟩
  · intro agree name slash opens
    exact not_agree_of_opens opens (fun h => plain name h slash) (agree _)
  · intro closed
    refine agree_request fun name => ?_
    by_cases slash : '/' ∈ name
    · constructor
      · exact fun opens => absurd opens (closed name slash)
      · exact fun h => absurd slash (plain name h)
    · exact Dependencies.opens_iff_listed found slash

/-! ### A fragment beside the directory -/

/-- A component directory `c` with one component, and a file beside the directory. -/
def besideTree : FileTree where
  entries := [([['c']], .directory),
    ([['c'], "p.html".toList], .file (Utf8.encode "P\n".toList)),
    (["x.html".toList], .file (Utf8.encode "X\n".toList))]

theorem survey_besideTree :
    ((Dependencies.survey besideTree exampleDirectory).run.run #[]).1 =
      .ok ⟨[(['p'], [])]⟩ := by decide +kernel

theorem opens_besideTree : Fragment.Opens besideTree exampleDirectory "../x".toList :=
  ⟨Utf8.encode "X\n".toList, rfl⟩

/-- The one component can be opened, and another request opens what is no component. -/
theorem agree_request_besideTree :
    Fragment.Opens besideTree exampleDirectory ['p'] ∧
      ¬ ∀ request : Request, Agree [['p']] (request.run besideTree exampleDirectory)
        (request.runAmong [['p']] besideTree exampleDirectory) := by
  have named : besideTree.EveryName ('/' ∉ ·) := ⟨by decide, by decide⟩
  obtain ⟨plain, -, agree⟩ := agree_request_iff survey_besideTree named
  refine ⟨(plain ['p'] (by decide)).mpr (by decide), fun all => ?_⟩
  exact agree.mp all "../x".toList (by decide) opens_besideTree

/-- A reference to a name that is no component is replaced by what stands in the file beside the
directory, which is remembered, and nothing is reported. -/
theorem line_opens_unlisted :
    ((Dependencies.survey besideTree exampleDirectory).run.run #[]).1 =
        .ok ⟨[(['p'], [])]⟩ ∧
      "../x".toList ∉ (⟨[(['p'], [])]⟩ : Dependencies).components ∧
      ∃ s, (line besideTree exampleDirectory {} "<app-../x/>".toList).run.run {} =
          (.ok "X\n".toList, s) ∧
        s.memo.get? "../x".toList = some "X\n".toList ∧ s.notices = #[] := by
  refine ⟨survey_besideTree, by decide, _, Prod.ext ?_ rfl, ?_, ?_⟩
  · decide +kernel
  · decide +kernel
  · decide +kernel

end PageAssembly.Expansion
