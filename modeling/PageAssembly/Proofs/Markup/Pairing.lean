import Mathlib.Data.List.Basic
import PageAssembly.Markup.Printer

/-!
# Start tags and the end tags that close them

A printer is fed with tokens in any disorder.  Every end tag that closes something closes what one
start tag before it has opened; the two are written at one depth and everything between them is
written deeper.  The tags that are open at the end are those of the start tags that were never
closed.

## Main definitions

* `Printer.behind` — the printer behind the first tokens
* `Markup.openAt`, `Markup.depthAt` — the tags open in front of a token, and the depth at which the
  token is written
* `Markup.Opens`, `Markup.Closes` — the tokens that open a tag and those that close one
* `Markup.Pairs` — a start tag and the end tag that takes away what it has opened
* `Markup.Unpaired` — the start tags that nothing has closed so far
* `Markup.Disciplined` — what is written, which tags belong together and which are left

## Main statements

* `Markup.openAt_succ` — what one token does to the open tags
* `Markup.exists_held` — behind any number of tokens, each open tag stands for one start tag
* `Markup.print_disciplined` — every list of tokens is written in a disciplined way

### What carries the induction

The open tags are names, and equal names cannot be told apart.  So the induction is over a list of
positions beside them: the positions of the start tags that opened them.  What such a start tag
has left on the open tags stays there as long as the position stays in the list.
-/

namespace PageAssembly.Markup

/-- The printer behind the first `n` tokens. -/
def Printer.behind (p : Printer) (tokens : List Token) (n : Nat) : Printer :=
  (p.print (tokens.take n)).2

section Positions

variable (indent : Text) (tokens : List Token)

/-- The tags that are open in front of the `n`-th token, innermost first. -/
def openAt (n : Nat) : List Text := (Printer.behind { indent } tokens n).unclosed

/-- The depth at which the `n`-th token is written: a start tag in front of what it opens, an end
tag behind what it closes. -/
def depthAt (n : Nat) : Nat :=
  min (openAt indent tokens n).length (openAt indent tokens (n + 1)).length

/-- The tag name that the `n`-th token refers to. -/
def tagAt (n : Nat) : Option Text := tokens[n]?.bind Token.tag

/-- The `n`-th token is written: it is not blank. -/
def IsWritten (n : Nat) : Prop := ∃ token, tokens[n]? = some token ∧ token.text.trim ≠ []

/-- **The record of the `n`-th token**: its indentations, its trimmed text and a line end, or
nothing when it is blank. -/
def recordAt (n : Nat) : Text :=
  match tokens[n]? with
  | none => []
  | some token =>
    if token.text.trim = [] then []
    else (List.replicate (depthAt indent tokens n) indent).flatten ++ token.text.trim ++ ['\n']

/-- The `n`-th token is a start tag with a name, and not blank. -/
def Opens (n : Nat) : Prop :=
  ∃ token tag, tokens[n]? = some token ∧ token.text.trim ≠ [] ∧ token.kind = .startTag ∧
    token.tag = some tag

/-- The `n`-th token is an end tag with the name of the innermost open tag, and not blank. -/
def Closes (n : Nat) : Prop :=
  ∃ token tag, tokens[n]? = some token ∧ token.text.trim ≠ [] ∧ token.kind = .endTag ∧
    token.tag = some tag ∧ (openAt indent tokens n).head? = some tag

/-- **A start tag and the end tag that closes it**: what is open behind the start tag stays open at
the bottom up to the end tag, where nothing else is open any more. -/
structure Pairs (first last : Nat) : Prop where
  /-- The start tag comes first. -/
  lt : first < last
  /-- The start tag opens a tag. -/
  opens : Opens tokens first
  /-- The end tag closes a tag. -/
  closes : Closes indent tokens last
  /-- What the start tag has opened stays, with everything around it. -/
  stays : ∀ k, first < k → k ≤ last → openAt indent tokens (first + 1) <:+ openAt indent tokens k
  /-- What the end tag closes is what the start tag has opened. -/
  top : openAt indent tokens last = openAt indent tokens (first + 1)

/-- **The start tags among the first `n` tokens that none of these tokens closes**, latest first. -/
structure Unpaired (n : Nat) (positions : List Nat) : Prop where
  /-- Each comes behind the next one. -/
  latestFirst : positions.Pairwise (· > ·)
  /-- They are the start tags without a partner. -/
  mem_iff : ∀ j, j ∈ positions ↔ j < n ∧ Opens tokens j ∧ ¬ ∃ i < n, Pairs indent tokens j i

/-- **What a printer makes of any tokens.** -/
structure Disciplined : Prop where
  /-- One record for each token that is not blank, in their order. -/
  records : (Printer.print { indent } tokens).1 =
    (List.range tokens.length).flatMap (recordAt indent tokens)
  /-- Every end tag that closes something has exactly one start tag. -/
  partner : ∀ i, Closes indent tokens i → ∃! j, Pairs indent tokens j i
  /-- The two have one name and one depth, and everything written between them is deeper. -/
  paired : ∀ j i, Pairs indent tokens j i → tagAt tokens j = tagAt tokens i ∧
    depthAt indent tokens j = depthAt indent tokens i ∧
      ∀ k, j < k → k < i → IsWritten tokens k → depthAt indent tokens j < depthAt indent tokens k
  /-- The tags that are open at any point, the end among them, are those of the start tags that
  nothing has closed. -/
  unpaired : ∀ n, ∃ positions, Unpaired indent tokens n positions ∧
    positions.map (tagAt tokens) = (openAt indent tokens n).map some
  /-- The tags left open at the end are those that are open behind the last token. -/
  left : (Printer.print { indent } tokens).2.unclosed = openAt indent tokens tokens.length
  /-- An end tag that closes nothing leaves the open tags as they are. -/
  stray : ∀ i token, tokens[i]? = some token → token.kind = .endTag → ¬ Closes indent tokens i →
    openAt indent tokens (i + 1) = openAt indent tokens i

end Positions

/-! ## One token -/

section Step

variable {indent : Text} {tokens : List Token} {token : Token} {n : Nat}

theorem behind_succ (p : Printer) (here : tokens[n]? = some token) :
    p.behind tokens (n + 1) = ((p.behind tokens n).feed token).2 := by
  have split : tokens.take (n + 1) = tokens.take n ++ [token] := by
    rw [List.take_add_one, here, Option.toList_some]
  rw [Printer.behind, split, Printer.print_append, Printer.print_cons, Printer.print_nil]
  rfl

theorem behind_of_length_le (p : Printer) (past : tokens.length ≤ n) :
    p.behind tokens n = (p.print tokens).2 := by
  rw [Printer.behind, List.take_of_length_le past]

/-- **What feeding one token can do**: a blank token does nothing; an end tag with the name of the
innermost open tag closes it; a start tag opens its name; every other token is only written. -/
theorem Printer.feed_cases (p : Printer) (token : Token) :
    token.text.trim = [] ∧ p.feed token = ([], p) ∨
    token.text.trim ≠ [] ∧
      (p.closes token = true ∧ p.feed token = (p.closing.line token.text.trim, p.closing) ∨
      (∃ tag, token.kind = .startTag ∧ token.tag = some tag ∧
        p.feed token = (p.line token.text.trim, p.opening tag)) ∨
      p.closes token = false ∧ ¬ (token.kind = .startTag ∧ token.tag.isSome) ∧
        p.feed token = (p.line token.text.trim, p)) := by
  by_cases blank : token.text.trim = []
  · exact Or.inl ⟨blank, feed_blank blank⟩
  refine Or.inr ⟨blank, ?_⟩
  cases closes : p.closes token with
  | true => exact Or.inl ⟨rfl, by simp [feed, blank, closes]⟩
  | false =>
      right
      by_cases opens : token.kind = .startTag ∧ token.tag.isSome
      · obtain ⟨kind, named⟩ := opens
        obtain ⟨tag, name⟩ := Option.isSome_iff_exists.mp named
        exact Or.inl ⟨tag, kind, name, by simp [feed, blank, closes, kind, name]⟩
      · refine Or.inr ⟨rfl, opens, ?_⟩
        simp only [feed, List.isEmpty_iff, blank, closes, Bool.false_eq_true, if_false]
        split
        · next tag kind name => exact absurd ⟨kind, by rw [name]; rfl⟩ opens
        · rfl

theorem Printer.closes_iff (p : Printer) (token : Token) : p.closes token = true ↔
    token.kind = .endTag ∧ ∃ tag, token.tag = some tag ∧ p.unclosed.head? = some tag := by
  rw [closes, OpenTags.peek?, Bool.and_eq_true, Bool.and_eq_true, decide_eq_true_iff,
    decide_eq_true_iff, Option.isSome_iff_exists]
  constructor
  · rintro ⟨⟨kind, tag, name⟩, top⟩
    exact ⟨kind, tag, name, by rw [unclosed, ← top, name]⟩
  · rintro ⟨kind, tag, name, top⟩
    exact ⟨⟨kind, tag, name⟩, by rw [name, ← top]; rfl⟩

theorem Printer.indent_feed (p : Printer) (token : Token) : (p.feed token).2.indent = p.indent := by
  rcases p.feed_cases token with ⟨-, fed⟩ | ⟨-, ⟨-, fed⟩ | ⟨tag, -, -, fed⟩ | ⟨-, -, fed⟩⟩ <;>
    rw [fed] <;> rfl

/-- **What is written of a token** stands at the smaller of the depths in front of it and behind
it. -/
theorem Printer.feed_written (p : Printer) {token : Token} (filled : token.text.trim ≠ []) :
    (p.feed token).1 =
      (List.replicate (min p.depth (p.feed token).2.depth) p.indent).flatten ++ token.text.trim ++
        ['\n'] := by
  rcases p.feed_cases token with ⟨blank, -⟩ | ⟨-, ⟨-, fed⟩ | ⟨tag, -, -, fed⟩ | ⟨-, -, fed⟩⟩
  · exact absurd blank filled
  · have shallower : min p.depth p.closing.depth = p.closing.depth :=
      Nat.min_eq_right (by simp [depth, closing, OpenTags.depth_pop])
    rw [fed, shallower]
    rfl
  · rw [fed, depth_opening, Nat.min_eq_left (Nat.le_succ _)]
    rfl
  · rw [fed, Nat.min_self]
    rfl

variable (indent tokens) in
theorem indent_behind (n : Nat) : (Printer.behind { indent } tokens n).indent = indent := by
  induction n with
  | zero => rfl
  | succ n ih =>
      cases here : tokens[n]? with
      | some token => rw [behind_succ _ here, Printer.indent_feed, ih]
      | none =>
          have past := List.getElem?_eq_none_iff.mp here
          rw [behind_of_length_le _ past] at ih
          rw [behind_of_length_le _ (Nat.le_succ_of_le past), ih]

/-- Behind the last token nothing changes any more. -/
theorem openAt_succ_of_none (past : tokens[n]? = none) :
    openAt indent tokens (n + 1) = openAt indent tokens n := by
  have long := List.getElem?_eq_none_iff.mp past
  rw [openAt, openAt, behind_of_length_le _ long, behind_of_length_le _ (Nat.le_succ_of_le long)]

theorem closes_of_getElem? (here : tokens[n]? = some token) : Closes indent tokens n ↔
    token.text.trim ≠ [] ∧ (Printer.behind { indent } tokens n).closes token = true := by
  rw [Printer.closes_iff, Closes, openAt]
  constructor
  · rintro ⟨token', tag, here', filled, kind, name, top⟩
    cases here.symm.trans here'
    exact ⟨filled, kind, tag, name, top⟩
  · rintro ⟨filled, kind, tag, name, top⟩
    exact ⟨token, tag, here, filled, kind, name, top⟩

theorem opens_of_getElem? (here : tokens[n]? = some token) : Opens tokens n ↔
    token.text.trim ≠ [] ∧ token.kind = .startTag ∧ token.tag.isSome := by
  rw [Opens, Option.isSome_iff_exists]
  constructor
  · rintro ⟨token', tag, here', filled, kind, name⟩
    cases here.symm.trans here'
    exact ⟨filled, kind, tag, name⟩
  · rintro ⟨filled, kind, tag, name⟩
    exact ⟨token, tag, here, filled, kind, name⟩

theorem Opens.not_closes (opens : Opens tokens n) : ¬ Closes indent tokens n := by
  rintro ⟨token', tag', here', -, kind', -⟩
  obtain ⟨token, tag, here, -, kind, -⟩ := opens
  cases here.symm.trans here'
  cases kind.symm.trans kind'

variable (indent tokens) in
/-- **What one token does to the open tags**: it closes the innermost one, which has its name, or
opens its name, or leaves them as they are. -/
theorem openAt_succ (n : Nat) :
    (Closes indent tokens n ∧ ∃ tag, tagAt tokens n = some tag ∧
      openAt indent tokens n = tag :: openAt indent tokens (n + 1)) ∨
    (Opens tokens n ∧ ∃ tag, tagAt tokens n = some tag ∧
      openAt indent tokens (n + 1) = tag :: openAt indent tokens n) ∨
    ¬ Closes indent tokens n ∧ ¬ Opens tokens n ∧
      openAt indent tokens (n + 1) = openAt indent tokens n := by
  cases here : tokens[n]? with
  | none =>
      refine Or.inr (Or.inr ⟨?_, ?_, openAt_succ_of_none here⟩)
      · rintro ⟨token, tag, there, -⟩
        cases here.symm.trans there
      · rintro ⟨token, tag, there, -⟩
        cases here.symm.trans there
  | some token =>
      have name : tagAt tokens n = token.tag := by rw [tagAt, here]; rfl
      have after : openAt indent tokens (n + 1) =
          ((Printer.behind { indent } tokens n).feed token).2.unclosed := by
        rw [openAt, behind_succ _ here]
      rw [closes_of_getElem? here, opens_of_getElem? here, name, after]
      rcases (Printer.behind { indent } tokens n).feed_cases token with
        ⟨blank, fed⟩ | ⟨filled, ⟨closes, fed⟩ | ⟨tag, kind, named, fed⟩ | ⟨unclosed, plain, fed⟩⟩
      · rw [fed]
        exact Or.inr (Or.inr ⟨fun h => h.1 blank, fun h => h.1 blank, rfl⟩)
      · obtain ⟨-, tag, named, top⟩ := (Printer.closes_iff _ _).mp closes
        rw [fed]
        refine Or.inl ⟨⟨filled, closes⟩, tag, named, ?_⟩
        obtain ⟨tags, split⟩ := List.head?_eq_some_iff.mp top
        rw [openAt, split]
        simp only [Printer.unclosed, Printer.closing, OpenTags.toList_pop] at split ⊢
        rw [split, List.tail_cons]
      · rw [fed]
        exact Or.inr (Or.inl ⟨⟨filled, kind, by rw [named]; rfl⟩, tag, named, rfl⟩)
      · rw [fed]
        refine Or.inr (Or.inr ⟨fun h => ?_, fun h => plain h.2, rfl⟩)
        rw [unclosed] at h
        exact Bool.false_ne_true h.2

end Step

/-! ## Pairs -/

section Pairs

variable {indent : Text} {tokens : List Token} {i j k n : Nat}

variable (indent) in
theorem Opens.length_openAt_succ (opens : Opens tokens j) :
    (openAt indent tokens (j + 1)).length = (openAt indent tokens j).length + 1 := by
  rcases openAt_succ indent tokens j with ⟨closes, -⟩ | ⟨-, tag, -, after⟩ | ⟨-, idle, -⟩
  · exact absurd closes opens.not_closes
  · rw [after, List.length_cons]
  · exact absurd opens idle

theorem Closes.length_openAt_succ (closes : Closes indent tokens i) :
    (openAt indent tokens i).length = (openAt indent tokens (i + 1)).length + 1 := by
  rcases openAt_succ indent tokens i with ⟨-, tag, -, before⟩ | ⟨opens, -⟩ | ⟨idle, -⟩
  · rw [before, List.length_cons]
  · exact absurd closes opens.not_closes
  · exact absurd closes idle

namespace Pairs

/-- **An end tag closes one start tag only**: what a later one has opened would lie above. -/
theorem unique (pairs : Pairs indent tokens j i) (pairs' : Pairs indent tokens k i) : j = k := by
  have not_lt {j k : Nat} (pairs : Pairs indent tokens j i) (pairs' : Pairs indent tokens k i) :
      ¬ j < k := by
    intro earlier
    have beneath := (pairs.stays k earlier (Nat.le_of_lt pairs'.lt)).length_le
    have above := pairs'.opens.length_openAt_succ indent
    rw [← pairs'.top, pairs.top] at above
    omega
  exact Nat.le_antisymm (Nat.le_of_not_lt (not_lt pairs' pairs))
    (Nat.le_of_not_lt (not_lt pairs pairs'))

theorem depthAt_first (pairs : Pairs indent tokens j i) :
    depthAt indent tokens j = (openAt indent tokens j).length := by
  have opened := pairs.opens.length_openAt_succ indent
  rw [depthAt, opened, Nat.min_eq_left (Nat.le_succ _)]

theorem depthAt_last (pairs : Pairs indent tokens j i) :
    depthAt indent tokens i = (openAt indent tokens j).length := by
  have opened := pairs.opens.length_openAt_succ indent
  have closed := pairs.closes.length_openAt_succ
  rw [pairs.top, opened] at closed
  rw [depthAt, pairs.top, opened]
  omega

/-- **Between the two tags everything is deeper.** -/
theorem depthAt_lt (pairs : Pairs indent tokens j i) (behind : j < k) (before : k < i) :
    depthAt indent tokens j < depthAt indent tokens k := by
  have opened := pairs.opens.length_openAt_succ indent
  have here := (pairs.stays k behind (Nat.le_of_lt before)).length_le
  have next := (pairs.stays (k + 1) (by omega) before).length_le
  rw [pairs.depthAt_first, depthAt]
  omega

theorem tagAt_eq (pairs : Pairs indent tokens j i) : tagAt tokens j = tagAt tokens i := by
  rcases openAt_succ indent tokens j with ⟨closes, -⟩ | ⟨-, tag, name, after⟩ | ⟨-, idle, -⟩
  · exact absurd closes pairs.opens.not_closes
  · rcases openAt_succ indent tokens i with ⟨-, tag', name', before⟩ | ⟨opens, -⟩ | ⟨idle, -⟩
    · rw [pairs.top, after] at before
      rw [name, name', (List.cons.inj before).1]
    · exact absurd pairs.closes opens.not_closes
    · exact absurd pairs.closes idle
  · exact absurd pairs.opens idle

end Pairs

end Pairs

/-! ## The start tags behind the open tags -/

section Held

variable {indent : Text} {tokens : List Token} {positions : List Nat} {i j n : Nat}

/-- **The positions of the start tags that opened the open tags**, latest first. -/
structure Held (indent : Text) (tokens : List Token) (n : Nat) (positions : List Nat) : Prop
    extends Unpaired indent tokens n positions where
  /-- Each open tag is the name of its start tag. -/
  tags : positions.map (tagAt tokens) = (openAt indent tokens n).map some
  /-- What such a start tag has left on the open tags is still there, right beneath what the later
  ones have opened. -/
  stays : ∀ later j earlier, positions = later ++ j :: earlier →
    openAt indent tokens (j + 1) = (openAt indent tokens n).drop later.length ∧
      ∀ k, j < k → k ≤ n → openAt indent tokens (j + 1) <:+ openAt indent tokens k

variable (indent tokens) in
theorem held_zero : Held indent tokens 0 [] where
  latestFirst := .nil
  mem_iff j := by simp
  tags := rfl
  stays later j earlier split := by simp at split

theorem exists_pairs_lt_succ (j n : Nat) : (∃ i < n + 1, Pairs indent tokens j i) ↔
    (∃ i < n, Pairs indent tokens j i) ∨ Pairs indent tokens j n :=
  Nat.exists_lt_succ_right

namespace Held

/-- A token that neither opens nor closes leaves everything as it is. -/
theorem succ_of_idle (held : Held indent tokens n positions) (shut : ¬ Closes indent tokens n)
    (plain : ¬ Opens tokens n) (same : openAt indent tokens (n + 1) = openAt indent tokens n) :
    Held indent tokens (n + 1) positions where
  latestFirst := held.latestFirst
  mem_iff j := by
    rw [held.mem_iff, exists_pairs_lt_succ]
    constructor
    · rintro ⟨lt, opens, alone⟩
      exact ⟨by omega, opens, fun pairs => pairs.elim alone fun pairs => shut pairs.closes⟩
    · rintro ⟨lt, opens, alone⟩
      have other : j ≠ n := fun same => plain (same ▸ opens)
      exact ⟨by omega, opens, fun pairs => alone (Or.inl pairs)⟩
  tags := by rw [held.tags, same]
  stays later j earlier split := by
    obtain ⟨beneath, stays⟩ := held.stays later j earlier split
    refine ⟨by rw [beneath, same], fun k behind before => ?_⟩
    rcases Nat.lt_or_eq_of_le before with before | rfl
    · exact stays k behind (by omega)
    · rw [beneath, same]
      exact List.drop_suffix _ _

/-- A start tag is held on top of the others. -/
theorem succ_of_opens {tag : Text} (held : Held indent tokens n positions)
    (opens : Opens tokens n) (name : tagAt tokens n = some tag)
    (after : openAt indent tokens (n + 1) = tag :: openAt indent tokens n) :
    Held indent tokens (n + 1) (n :: positions) where
  latestFirst := by
    refine List.pairwise_cons.mpr ⟨fun j member => ?_, held.latestFirst⟩
    exact ((held.mem_iff j).mp member).1
  mem_iff j := by
    rw [List.mem_cons, held.mem_iff, exists_pairs_lt_succ]
    constructor
    · rintro (rfl | ⟨lt, opensJ, alone⟩)
      · refine ⟨Nat.lt_succ_self _, opens, ?_⟩
        rintro (⟨i, lt, pairs⟩ | pairs)
        · exact absurd pairs.lt (by omega)
        · exact absurd pairs.lt (Nat.lt_irrefl _)
      · refine ⟨by omega, opensJ, fun pairs => pairs.elim alone fun pairs => ?_⟩
        exact opens.not_closes pairs.closes
    · rintro ⟨lt, opensJ, alone⟩
      by_cases same : j = n
      · exact Or.inl same
      · exact Or.inr ⟨by omega, opensJ, fun pairs => alone (Or.inl pairs)⟩
  tags := by rw [List.map_cons, held.tags, name, after, List.map_cons]
  stays later j earlier split := by
    cases later with
    | nil =>
        obtain ⟨rfl, rfl⟩ := List.cons.inj split
        refine ⟨rfl, fun k behind before => ?_⟩
        obtain rfl := Nat.le_antisymm before behind
        exact List.suffix_rfl
    | cons first later =>
        obtain ⟨rfl, onward⟩ := List.cons.inj split
        obtain ⟨beneath, stays⟩ := held.stays later j earlier onward
        refine ⟨by rw [beneath, after, List.length_cons, List.drop_succ_cons], ?_⟩
        intro k behind before
        rcases Nat.lt_or_eq_of_le before with before | rfl
        · exact stays k behind (by omega)
        · rw [beneath, after]
          exact (List.drop_suffix _ _).trans (List.suffix_cons _ _)

/-- **An end tag takes away the latest start tag that is held**, and the two are a pair. -/
theorem succ_of_closes {tag : Text} (held : Held indent tokens n positions)
    (closes : Closes indent tokens n)
    (before : openAt indent tokens n = tag :: openAt indent tokens (n + 1)) :
    ∃ first earlier, Pairs indent tokens first n ∧ positions = first :: earlier ∧
      Held indent tokens (n + 1) earlier := by
  have tags := held.tags
  rw [before, List.map_cons] at tags
  obtain ⟨first, earlier, rfl, -, onward⟩ := List.map_eq_cons_iff.mp tags
  obtain ⟨lt, opens, -⟩ := (held.mem_iff first).mp List.mem_cons_self
  obtain ⟨top, stays⟩ := held.stays [] first earlier rfl
  have pairs : Pairs indent tokens first n := ⟨lt, opens, closes, stays, top.symm⟩
  obtain ⟨latest, latestFirst⟩ := List.pairwise_cons.mp held.latestFirst
  refine ⟨first, earlier, pairs, rfl, ⟨latestFirst, fun j => ?_⟩, onward, ?_⟩
  · have others := held.mem_iff j
    rw [List.mem_cons] at others
    rw [exists_pairs_lt_succ]
    constructor
    · intro member
      obtain ⟨lt, opensJ, alone⟩ := others.mp (Or.inr member)
      refine ⟨by omega, opensJ, fun pairs' => pairs'.elim alone fun pairs' => ?_⟩
      exact Nat.lt_irrefl _ (pairs.unique pairs' ▸ latest j member)
    · rintro ⟨lt, opensJ, alone⟩
      have other : j ≠ n := fun same => (same ▸ opensJ).not_closes closes
      have member := others.mpr ⟨by omega, opensJ, fun pairs' => alone (Or.inl pairs')⟩
      exact member.resolve_left fun same => alone (Or.inr (same ▸ pairs))
  · intro later j rest split
    obtain ⟨beneath, stays⟩ := held.stays (first :: later) j rest (by rw [split]; rfl)
    rw [before, List.length_cons, List.drop_succ_cons] at beneath
    refine ⟨beneath, fun k behind upTo => ?_⟩
    rcases Nat.lt_or_eq_of_le upTo with upTo | rfl
    · exact stays k behind (by omega)
    · rw [beneath]
      exact List.drop_suffix _ _

end Held

variable (indent tokens) in
/-- **Behind any number of tokens the open tags stand for the unpaired start tags.** -/
theorem exists_held (n : Nat) : ∃ positions, Held indent tokens n positions := by
  induction n with
  | zero => exact ⟨[], held_zero indent tokens⟩
  | succ n ih =>
      obtain ⟨positions, held⟩ := ih
      rcases openAt_succ indent tokens n with
        ⟨closes, tag, -, before⟩ | ⟨opens, tag, name, after⟩ | ⟨shut, plain, same⟩
      · obtain ⟨-, earlier, -, -, onward⟩ := held.succ_of_closes closes before
        exact ⟨earlier, onward⟩
      · exact ⟨n :: positions, held.succ_of_opens opens name after⟩
      · exact ⟨positions, held.succ_of_idle shut plain same⟩

/-- **Every end tag that closes a tag has a start tag.** -/
theorem Closes.exists_pairs (closes : Closes indent tokens i) :
    ∃ j, Pairs indent tokens j i := by
  obtain ⟨positions, held⟩ := exists_held indent tokens i
  rcases openAt_succ indent tokens i with ⟨-, tag, -, before⟩ | ⟨opens, -⟩ | ⟨shut, -⟩
  · obtain ⟨first, -, pairs, -⟩ := held.succ_of_closes closes before
    exact ⟨first, pairs⟩
  · exact absurd closes opens.not_closes
  · exact absurd closes shut

end Held

/-! ## What is written -/

section Records

variable (indent : Text) (tokens : List Token)

theorem recordAt_of_getElem? {token : Token} {n : Nat} (here : tokens[n]? = some token) :
    recordAt indent tokens n = ((Printer.behind { indent } tokens n).feed token).1 := by
  rw [recordAt, here]
  simp only
  split
  · next blank => rw [Printer.feed_blank blank]
  · next filled =>
      rw [Printer.feed_written _ filled, indent_behind, ← behind_succ _ here]
      rfl

theorem print_take (n : Nat) : (Printer.print { indent } (tokens.take n)).1 =
    (List.range n).flatMap (recordAt indent tokens) := by
  induction n with
  | zero => rfl
  | succ n ih =>
      rw [List.range_succ, List.flatMap_append, ← ih, List.flatMap_singleton, List.take_add_one]
      cases here : tokens[n]? with
      | none =>
          have nothing : recordAt indent tokens n = [] := by rw [recordAt, here]
          rw [nothing, Option.toList_none, List.append_nil, List.append_nil]
      | some token =>
          rw [recordAt_of_getElem? indent tokens here, Option.toList_some, Printer.print_append,
            Printer.print_cons, Printer.print_nil, List.append_nil]
          rfl

/-- **A printer keeps discipline whatever it is fed with.**  Each token that is not blank is written
once; each end tag that closes a tag belongs to exactly one start tag, of the same name and at the
same depth, with everything between them deeper; and the tags left open are those of the start tags
that nothing has closed, latest first. -/
theorem print_disciplined : Disciplined indent tokens where
  records := by rw [← print_take, List.take_length]
  partner i closes := by
    obtain ⟨j, pairs⟩ := closes.exists_pairs
    exact ⟨j, pairs, fun k pairs' => pairs'.unique pairs⟩
  paired j i pairs :=
    ⟨pairs.tagAt_eq, pairs.depthAt_first.trans pairs.depthAt_last.symm,
      fun _ behind before _ => pairs.depthAt_lt behind before⟩
  unpaired n := by
    obtain ⟨positions, held⟩ := exists_held indent tokens n
    exact ⟨positions, held.toUnpaired, held.tags⟩
  left := by rw [openAt, behind_of_length_le _ (Nat.le_refl _)]
  stray i token here kind shut := by
    rcases openAt_succ indent tokens i with ⟨closes, -⟩ | ⟨⟨token', tag, here', -, start, -⟩, -⟩ |
      ⟨-, -, same⟩
    · exact absurd closes shut
    · cases here.symm.trans here'
      cases kind.symm.trans start
    · exact same

end Records

end PageAssembly.Markup
