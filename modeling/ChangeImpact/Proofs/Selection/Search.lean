/-
The closure as a search with a queue, name by name.

`closure` puts its rounds together from whole sets. Here a round is what a search does that meets one name after the
other: a name that was not closed yet is closed and queued for the next round at once, and so a name that is met again
later, in the same round or in any other, is passed over. The names that are met in a round are those that the queued
ones lead to, in any order and with any repetitions; a table may have cycles, loops and members that are no keys.

Whatever the order, the rounds of the search are those of `closure`. A round that queues something lowers the number of
mentions of the table that are not closed, so that a search cannot go on forever; it can only stop with an empty queue,
and then what is closed is what the roots reach.

Results:
- `midway_meetAll`: what holds in the middle of a round, after any of the names that it meets.
- `Expands.closed_eq`, `Expands.frontier_eq`: a round as a step of `closure`.
- `Sound.expands`, `Sound.runs`: what a round keeps, and so every search.
- `Runs.length_le`, `exists_runs`: no search goes on forever, and every search can be brought to its end.
- `Runs.nodup`: a name is queued once in the whole of a search.
- `closure_by_search`: the closure is the least closed set with the roots, and every search ends with it.
-/
import Mathlib.Data.List.Induction
import Mathlib.Data.List.Nodup
import ChangeImpact.Proofs.Selection.Reachable

namespace ChangeImpact

/-- what a search has come to: the names that it has closed, and those of them that wait for the next round -/
structure Search where
  closed : NameSet
  queue : List String

namespace Search

/-- a name is met: when it is new it is closed and queued -/
def meet (s : Search) (x : String) : Search :=
  if x ∈ s.closed then s else ⟨s.closed ∪ .ofList [x], s.queue ++ [x]⟩

/-- names are met one after the other -/
def meetAll (s : Search) (met : List String) : Search :=
  met.foldl meet s

/-- the search before its first round, in which the roots have been met -/
def ofRoots (roots : List String) : Search :=
  meetAll ⟨∅, []⟩ roots

/-- the names that wait -/
def frontier (s : Search) : NameSet :=
  .ofList s.queue

/-- the second search is the first one after a round: with an empty queue all names have been met that a waiting name leads
to, in some order -/
def Expands (t : NameTable) (s s' : Search) : Prop :=
  s.queue ≠ [] ∧ ∃ met : List String, (∀ y, y ∈ met ↔ ∃ x ∈ s.queue, t.Step x y) ∧ s' = meetAll ⟨s.closed, []⟩ met

/-- rounds that lead from one search to another, with the queues that they began with -/
inductive Runs (t : NameTable) : Search → List (List String) → Search → Prop
  | here (s : Search) : Runs t s [] s
  | round {s s' last : Search} {queues : List (List String)} (first : Expands t s s') (later : Runs t s' queues last) :
      Runs t s (s.queue :: queues) last

variable {t : NameTable} {s s' last : Search} {queues : List (List String)} {roots : List String}

theorem mem_frontier {x : String} : x ∈ s.frontier ↔ x ∈ s.queue :=
  NameSet.mem_ofList

theorem frontier_eq_empty_iff : s.frontier = ∅ ↔ s.queue = [] := by
  constructor
  · intro h
    apply List.eq_nil_iff_forall_not_mem.mpr
    intro x hx
    rw [← mem_frontier, h] at hx
    exact NameSet.not_mem_empty x hx
  · intro h
    ext x
    simp [mem_frontier, h]

/-! ## In the middle of a round -/

/-- a round that began with some closed names and has met some more: these are closed as well, and of them those are queued,
once each, that were not closed when it began -/
structure Midway (before : NameSet) (met : List String) (s : Search) : Prop where
  closed : ∀ x, x ∈ s.closed ↔ x ∈ before ∨ x ∈ met
  queued : ∀ x, x ∈ s.queue ↔ x ∈ met ∧ x ∉ before
  once : s.queue.Nodup

theorem midway_begin (before : NameSet) : Midway before [] ⟨before, []⟩ :=
  ⟨by simp, by simp, .nil⟩

theorem Midway.meet {before : NameSet} {met : List String} (h : Midway before met s) (x : String) :
    Midway before (met ++ [x]) (s.meet x) := by
  unfold Search.meet
  by_cases hx : x ∈ s.closed
  · rw [if_pos hx]
    have hold : x ∈ before ∨ x ∈ met := (h.closed x).mp hx
    refine ⟨?_, ?_, h.once⟩
    · intro y
      rw [h.closed, List.mem_append, List.mem_singleton]
      constructor
      · intro hy
        exact hy.imp_right .inl
      · rintro (hy | hy | rfl)
        · exact .inl hy
        · exact .inr hy
        · exact hold
    · intro y
      rw [h.queued, List.mem_append, List.mem_singleton]
      constructor
      · rintro ⟨hy, hnew⟩
        exact ⟨.inl hy, hnew⟩
      · rintro ⟨hy | rfl, hnew⟩
        · exact ⟨hy, hnew⟩
        · exact ⟨hold.resolve_left hnew, hnew⟩
  · rw [if_neg hx]
    obtain ⟨hbefore, hmet⟩ : x ∉ before ∧ x ∉ met := not_or.mp (mt (h.closed x).mpr hx)
    refine ⟨?_, ?_, ?_⟩
    · intro y
      simp only [NameSet.mem_union, NameSet.mem_ofList, h.closed, List.mem_append, List.mem_singleton, or_assoc]
    · intro y
      rw [List.mem_append, List.mem_append, List.mem_singleton, h.queued]
      constructor
      · rintro (⟨hy, hnew⟩ | rfl)
        · exact ⟨.inl hy, hnew⟩
        · exact ⟨.inr rfl, hbefore⟩
      · rintro ⟨hy | rfl, hnew⟩
        · exact .inl ⟨hy, hnew⟩
        · exact .inr rfl
    · have hqueue : x ∉ s.queue := fun hy => hmet ((h.queued x).mp hy).1
      exact h.once.append (List.nodup_singleton x) (List.disjoint_singleton.mpr hqueue)

/-- what holds before the first name is met holds after each of them -/
theorem midway_meetAll (before : NameSet) (met : List String) : Midway before met (meetAll ⟨before, []⟩ met) := by
  -- on the names that were met, the last one apart
  induction met using List.reverseRecOn with
  | nil => exact midway_begin before
  | append_singleton met x ih =>
    rw [meetAll, List.foldl_append]
    exact ih.meet x

/-! ## A round -/

namespace Expands

theorem midway (h : Expands t s s') : ∃ met, (∀ y, y ∈ met ↔ ∃ x ∈ s.queue, t.Step x y) ∧ Midway s.closed met s' := by
  obtain ⟨-, met, hmet, rfl⟩ := h
  exact ⟨met, hmet, midway_meetAll s.closed met⟩

theorem frontier_eq (h : Expands t s s') : s'.frontier = nextFrontier t s.closed s.frontier := by
  obtain ⟨met, hmet, hmidway⟩ := h.midway
  ext y
  rw [mem_frontier, hmidway.queued, hmet, mem_nextFrontier]
  simp only [mem_frontier]

theorem closed_eq (h : Expands t s s') : s'.closed = s.closed ∪ nextFrontier t s.closed s.frontier := by
  obtain ⟨met, hmet, hmidway⟩ := h.midway
  ext y
  rw [NameSet.mem_union, mem_nextFrontier, hmidway.closed, hmet]
  simp only [mem_frontier]
  tauto

theorem once (h : Expands t s s') : s'.queue.Nodup := by
  obtain ⟨met, -, hmidway⟩ := h.midway
  exact hmidway.once

theorem queue_new (h : Expands t s s') {x : String} (hx : x ∈ s'.queue) : x ∉ s.closed := by
  obtain ⟨met, -, hmidway⟩ := h.midway
  exact ((hmidway.queued x).mp hx).2

theorem closed_subset (h : Expands t s s') {x : String} (hx : x ∈ s.closed) : x ∈ s'.closed := by
  rw [h.closed_eq]
  exact NameSet.mem_union.mpr (.inl hx)

/-- a round that queues a name closes a mention that was not closed -/
theorem unreached_lt (h : Expands t s s') (hq : s'.queue ≠ []) : t.unreached s'.closed < t.unreached s.closed := by
  rw [h.closed_eq]
  apply ChangeImpact.unreached_lt
  rw [← h.frontier_eq]
  exact mt frontier_eq_empty_iff.mp hq

end Expands

/-- the round that takes the waiting names in the order of the queue, and what each leads to in the order of the table -/
def next (t : NameTable) (s : Search) : Search :=
  meetAll ⟨s.closed, []⟩ (s.queue.flatMap fun x => (t.members x).names)

/-- as long as names wait there is a next round -/
theorem expands_next (h : s.queue ≠ []) : Expands t s (s.next t) := by
  refine ⟨h, _, fun y => ?_, rfl⟩
  rw [List.mem_flatMap]
  rfl

/-! ## What a search keeps -/

/-- a search is sound: its closed names are the roots and names that a root reaches, and lead to closed names again unless
they wait -/
structure Sound (t : NameTable) (roots : List String) (s : Search) : Prop where
  round : Round t s.closed s.frontier
  rooted : ∀ r ∈ roots, r ∈ s.closed
  reached : ∀ x ∈ s.closed, ∃ r ∈ roots, t.Reaches r x

theorem midway_ofRoots (roots : List String) : Midway ∅ roots (ofRoots roots) :=
  midway_meetAll ∅ roots

theorem closed_ofRoots (roots : List String) : (ofRoots roots).closed = .ofList roots := by
  ext x
  simp [(midway_ofRoots roots).closed]

theorem frontier_ofRoots (roots : List String) : (ofRoots roots).frontier = .ofList roots := by
  ext x
  simp [mem_frontier, (midway_ofRoots roots).queued]

theorem sound_ofRoots (t : NameTable) (roots : List String) : Sound t roots (ofRoots roots) := by
  refine ⟨?_, ?_, ?_⟩
  · rw [closed_ofRoots, frontier_ofRoots]
    exact round_roots t _
  · intro r hr
    rw [closed_ofRoots]
    exact NameSet.mem_ofList.mpr hr
  · intro x hx
    rw [closed_ofRoots] at hx
    exact ⟨x, NameSet.mem_ofList.mp hx, .refl⟩

theorem Sound.expands (h : Sound t roots s) (he : Expands t s s') : Sound t roots s' := by
  refine ⟨?_, fun r hr => he.closed_subset (h.rooted r hr), ?_⟩
  · rw [he.closed_eq, he.frontier_eq]
    exact round_next h.round
  · intro y hy
    rw [he.closed_eq, NameSet.mem_union, mem_nextFrontier] at hy
    rcases hy with hy | ⟨⟨x, hx, hstep⟩, -⟩
    · exact h.reached y hy
    · obtain ⟨r, hr, hreaches⟩ := h.reached x (h.round.inside x hx)
      exact ⟨r, hr, hreaches.tail hstep⟩

theorem Sound.runs (h : Sound t roots s) (hr : Runs t s queues last) : Sound t roots last := by
  induction hr with
  | here => exact h
  | round first _ ih => exact ih (h.expands first)

/-- a sound search with an empty queue has closed what the roots reach -/
theorem Sound.closed_eq_closure (h : Sound t roots s) (hq : s.queue = []) : s.closed = closure t (.ofList roots) := by
  have hstep : ∀ x ∈ s.closed, ∀ y, t.Step x y → y ∈ s.closed := by
    intro x hx y hxy
    have hdone : x ∉ s.frontier := by
      rw [mem_frontier, hq]
      exact List.not_mem_nil
    exact h.round.expanded x hx hdone y hxy
  ext x
  simp only [mem_closure, NameSet.mem_ofList]
  constructor
  · exact h.reached x
  · rintro ⟨r, hr, hreaches⟩
    induction hreaches with
    | refl => exact h.rooted r hr
    | tail _ hxy ih => exact hstep _ ih _ hxy

/-! ## The end of a search -/

namespace Runs

/-- with nothing to wait for there is no further round -/
theorem queues_eq_nil (h : Runs t s queues last) (hq : s.queue = []) : queues = [] := by
  cases h with
  | here => rfl
  | round first _ => exact absurd hq first.1

/-- **A search does not go on forever**: every round but the last leaves fewer mentions that are not closed. -/
theorem length_le (h : Runs t s queues last) : queues.length ≤ t.unreached s.closed + 1 := by
  induction h with
  | here => exact Nat.zero_le _
  | @round s s' last queues first later ih =>
    rw [List.length_cons]
    by_cases hq : s'.queue = []
    · rw [later.queues_eq_nil hq]
      exact Nat.le_add_left _ _
    · have hless := first.unreached_lt hq
      omega

/-- what is queued during a search waits at its beginning or is new -/
theorem queued_new (h : Runs t s queues last) {x : String} (hx : x ∈ queues.flatten ++ last.queue) :
    x ∈ s.queue ∨ x ∉ s.closed := by
  induction h with
  | here => exact .inl hx
  | @round s s' last queues first later ih =>
    rw [List.flatten_cons, List.append_assoc] at hx
    rcases List.mem_append.mp hx with hx | hx
    · exact .inl hx
    · right
      rcases ih hx with hx | hx
      · exact first.queue_new hx
      · exact mt first.closed_subset hx

/-- **A name is queued once**, in whichever rounds and however often it is met. -/
theorem nodup (h : Runs t s queues last) (hinside : ∀ x ∈ s.queue, x ∈ s.closed) (honce : s.queue.Nodup) :
    (queues.flatten ++ last.queue).Nodup := by
  induction h with
  | here => exact honce
  | @round s s' last queues first later ih =>
    have hlater : ∀ x ∈ s'.queue, x ∈ s'.closed := by
      intro x hx
      rw [first.closed_eq, ← first.frontier_eq]
      exact NameSet.mem_union.mpr (.inr (mem_frontier.mpr hx))
    rw [List.flatten_cons, List.append_assoc]
    refine honce.append (ih hlater first.once) ?_
    intro x hx hagain
    rcases later.queued_new hagain with hnext | hnew
    · exact first.queue_new hnext (hinside x hx)
    · exact hnew (first.closed_subset (hinside x hx))

/-- the queues of a finished search are the frontiers of the closure -/
theorem frontiers_eq (h : Runs t s queues last) (hq : last.queue = []) {rounds : Nat} (hr : queues.length ≤ rounds) :
    frontiers t rounds s.closed s.frontier = queues.map NameSet.ofList := by
  induction h generalizing rounds with
  | here s =>
    rw [frontier_eq_empty_iff.mpr hq, frontiers_empty]
    rfl
  | @round s s' last queues first later ih =>
    obtain ⟨n, rfl⟩ := Nat.exists_eq_succ_of_ne_zero (Nat.ne_of_gt (Nat.lt_of_lt_of_le (Nat.zero_lt_succ _) hr))
    rw [Nat.succ_eq_add_one, frontiers_succ t n s.closed (mt frontier_eq_empty_iff.mp first.1), ← first.closed_eq,
      ← first.frontier_eq, ih hq (Nat.le_of_succ_le_succ hr)]
    rfl

end Runs

/-- **Every search can be brought to its end.** -/
theorem exists_runs (t : NameTable) (s : Search) : ∃ queues last, Runs t s queues last ∧ last.queue = [] := by
  -- on the mentions that are not closed: a round that queues something leaves fewer of them
  induction hn : t.unreached s.closed using Nat.strongRecOn generalizing s with
  | ind n ih =>
    by_cases hq : s.queue = []
    · exact ⟨[], s, .here s, hq⟩
    · have hround : Expands t s (s.next t) := expands_next hq
      by_cases hlast : (s.next t).queue = []
      · exact ⟨[s.queue], s.next t, .round hround (.here _), hlast⟩
      · have hless : t.unreached (s.next t).closed < n := hn ▸ hround.unreached_lt hlast
        obtain ⟨queues, last, hruns, hend⟩ := ih _ hless (s.next t) rfl
        exact ⟨s.queue :: queues, last, .round hround hruns, hend⟩

/-! ## The closure -/

/-- **The closure by a search.** For every table and all roots: the closure has the names that a root reaches in any number
of steps, none included. It has the roots, is closed under steps, and lies in every set that has the roots and is closed
under steps. A search from the roots can be brought to its end. However it goes, it has no more rounds than one for each
mention of the table and one besides, no name is queued twice in all of them, a round follows as long as names wait, and
when none waits, the closed names are the closure and the queues have been the frontiers of its rounds. -/
theorem closure_by_search (t : NameTable) (roots : List String) :
    (∀ x, x ∈ closure t (.ofList roots) ↔ ∃ r ∈ roots, t.Reaches r x) ∧
    (∀ r ∈ roots, r ∈ closure t (.ofList roots)) ∧
    (∀ x ∈ closure t (.ofList roots), ∀ y, t.Step x y → y ∈ closure t (.ofList roots)) ∧
    (∀ p : String → Prop, (∀ r ∈ roots, p r) → (∀ x, p x → ∀ y, t.Step x y → p y) →
      ∀ x ∈ closure t (.ofList roots), p x) ∧
    (∃ queues last, Runs t (ofRoots roots) queues last ∧ last.queue = []) ∧
    (∀ queues last, Runs t (ofRoots roots) queues last →
      queues.length ≤ t.mentions + 1 ∧
      (queues.flatten ++ last.queue).Nodup ∧
      (last.queue ≠ [] → ∃ next, Expands t last next) ∧
      (last.queue = [] →
        last.closed = closure t (.ofList roots) ∧ queues.map .ofList = allFrontiers t (.ofList roots))) := by
  have hclosure : ∀ x, x ∈ closure t (.ofList roots) ↔ ∃ r ∈ roots, t.Reaches r x := by
    intro x
    simp only [mem_closure, NameSet.mem_ofList]
  refine ⟨hclosure, ?_, ?_, ?_, exists_runs t _, ?_⟩
  · intro r hr
    exact (hclosure r).mpr ⟨r, hr, .refl⟩
  · intro x hx y hxy
    obtain ⟨r, hr, hreaches⟩ := (hclosure x).mp hx
    exact (hclosure y).mpr ⟨r, hr, hreaches.tail hxy⟩
  · intro p hroots hstep x hx
    obtain ⟨r, hr, hreaches⟩ := (hclosure x).mp hx
    induction hreaches with
    | refl => exact hroots r hr
    | tail hreaches hxy ih => exact hstep _ (ih ((hclosure _).mpr ⟨r, hr, hreaches⟩)) _ hxy
  · intro queues last hruns
    have hsound : Sound t roots (ofRoots roots) := sound_ofRoots t roots
    have hlength : queues.length ≤ t.mentions + 1 :=
      Nat.le_trans hruns.length_le (Nat.add_le_add_right (t.unreached_le _) 1)
    refine ⟨hlength, ?_, fun hq => ⟨_, expands_next hq⟩, fun hq => ⟨(hsound.runs hruns).closed_eq_closure hq, ?_⟩⟩
    · exact hruns.nodup (fun x hx => hsound.round.inside x (mem_frontier.mpr hx)) (midway_ofRoots roots).once
    · have hrounds := hruns.frontiers_eq hq (Nat.le_succ_of_le hlength)
      rw [closed_ofRoots, frontier_ofRoots] at hrounds
      exact hrounds.symm

/-- a table with a cycle, a loop and a member that is no key -/
def tangled : NameTable :=
  .ofEntries [("a", .ofList ["a", "b"]), ("b", .ofList ["a", "c"])]

theorem step_tangled {x y : String} :
    tangled.Step x y ↔ (x = "a" ∧ (y = "a" ∨ y = "b")) ∨ (x = "b" ∧ (y = "a" ∨ y = "c")) := by
  rw [NameTable.Step, NameTable.mem_members, tangled]
  simp only [Table.get?_ofEntries, Table.lastUnder, List.reverse_cons, List.reverse_nil, List.nil_append, List.singleton_append,
    List.lookup_cons, List.lookup_nil]
  by_cases hb : x = "b"
  · simp [hb]
  · by_cases ha : x = "a"
    · simp [ha]
    · simp [beq_false_of_ne ha, beq_false_of_ne hb, ha, hb]

/-- a search through it, from one of its names and from another one that is given twice -/
theorem closure_by_search_tangled :
    ∃ last, Runs tangled (ofRoots ["d", "a", "d"]) [["d", "a"], ["b"], ["c"]] last ∧ last.queue = [] ∧
      (∀ x, x ∈ closure tangled (.ofList ["d", "a", "d"]) ↔ x ∈ ["a", "b", "c", "d"]) ∧
      allFrontiers tangled (.ofList ["d", "a", "d"]) = [.ofList ["d", "a"], .ofList ["b"], .ofList ["c"]] := by
  let roots : NameSet := ∅ ∪ .ofList ["d"] ∪ .ofList ["a"]
  have hroots : ofRoots ["d", "a", "d"] = ⟨roots, ["d", "a"]⟩ := by
    simp [ofRoots, meetAll, meet, roots]
  have hfirst : Expands tangled ⟨roots, ["d", "a"]⟩ ⟨roots ∪ .ofList ["b"], ["b"]⟩ :=
    ⟨by simp, ["a", "b"], fun y => by simp [step_tangled], by simp [meetAll, meet, roots]⟩
  have hsecond : Expands tangled ⟨roots ∪ .ofList ["b"], ["b"]⟩ ⟨roots ∪ .ofList ["b"] ∪ .ofList ["c"], ["c"]⟩ :=
    ⟨by simp, ["a", "c"], fun y => by simp [step_tangled], by simp [meetAll, meet, roots]⟩
  have hthird : Expands tangled ⟨roots ∪ .ofList ["b"] ∪ .ofList ["c"], ["c"]⟩
      ⟨roots ∪ .ofList ["b"] ∪ .ofList ["c"], []⟩ :=
    ⟨by simp, [], fun y => by simp [step_tangled], by simp [meetAll]⟩
  have hruns : Runs tangled (ofRoots ["d", "a", "d"]) [["d", "a"], ["b"], ["c"]]
      ⟨roots ∪ .ofList ["b"] ∪ .ofList ["c"], []⟩ := by
    rw [hroots]
    exact .round hfirst (.round hsecond (.round hthird (.here _)))
  obtain ⟨-, -, -, -, -, hsearch⟩ := closure_by_search tangled ["d", "a", "d"]
  obtain ⟨-, -, -, hend⟩ := hsearch _ _ hruns
  obtain ⟨hclosed, hfrontiers⟩ := hend rfl
  refine ⟨_, hruns, rfl, ?_, hfrontiers.symm⟩
  intro x
  rw [← hclosed]
  simp only [roots, NameSet.mem_union, NameSet.mem_ofList, List.mem_cons, NameSet.not_mem_empty]
  tauto

end Search

end ChangeImpact
