/-
Reachability along a table of dependencies.

`NameTable.Reaches` is any number of steps along the table, `closure` the rounds that compute it. The
rounds stop because a round that finds a new name leaves fewer mentions of the table unreached
(`unreached_lt`), so the number of mentions bounds them, on a cyclic table as on any other.

Results:
- `Round`: what a round keeps. Its frontier lies in what is closed, and every other closed name has
  its steps inside already.
- `seen_step`: once the rounds are over, what was seen is closed under steps.
- `mem_closure`: a name is in the closure iff some root reaches it.
-/
import Mathlib.Logic.Relation
import ChangeImpact.Selection.Closure

namespace ChangeImpact

/-! ## Steps along a table -/

namespace NameTable

/-- the table lists the second name under the first -/
def Step (t : NameTable) (x y : String) : Prop :=
  y ∈ t.members x

/-- the second name is any number of steps away from the first -/
def Reaches (t : NameTable) : String → String → Prop :=
  Relation.ReflTransGen t.Step

/-- how many mentions of the table are of names outside a set -/
def unreached (t : NameTable) (closed : NameSet) : Nat :=
  (t.entries.flatMap fun e => e.2.names).countP fun x => x ∉ closed

theorem mem_mentions {t : NameTable} {key x : String} (h : x ∈ t.members key) :
    x ∈ t.entries.flatMap fun e => e.2.names := by
  obtain ⟨s, hs, hx⟩ := mem_members.mp h
  obtain ⟨before, after, he, -⟩ := List.lookup_eq_some_iff.mp hs
  refine List.mem_flatMap.mpr ⟨(key, s), ?_, hx⟩
  rw [he]
  simp

/-- what holds of every member of the table and of a name holds of all that the name reaches -/
theorem Reaches.induct_members {t : NameTable} {p : String → Prop} (hp : ∀ key, ∀ x ∈ t.members key, p x) {x y : String}
    (h : t.Reaches x y) (hx : p x) : p y := by
  cases h with
  | refl => exact hx
  | tail _ hstep => exact hp _ y hstep

theorem unreached_le (t : NameTable) (closed : NameSet) : t.unreached closed ≤ t.mentions :=
  List.countP_le_length

end NameTable

/-! ## What a round keeps -/

/-- the state between two rounds -/
structure Round (t : NameTable) (closed frontier : NameSet) : Prop where
  inside : ∀ x ∈ frontier, x ∈ closed
  expanded : ∀ x ∈ closed, x ∉ frontier → ∀ y ∈ t.members x, y ∈ closed

theorem round_roots (t : NameTable) (roots : NameSet) : Round t roots roots :=
  ⟨fun _ hx => hx, fun _ hx hn => absurd hx hn⟩

theorem mem_nextFrontier {t : NameTable} {closed frontier : NameSet} {y : String} :
    y ∈ nextFrontier t closed frontier ↔ (∃ x, x ∈ frontier ∧ t.Step x y) ∧ y ∉ closed := by
  simp [nextFrontier, NameTable.Step]

theorem round_next {t : NameTable} {closed frontier : NameSet} (h : Round t closed frontier) :
    Round t (closed ∪ nextFrontier t closed frontier) (nextFrontier t closed frontier) := by
  refine ⟨fun x hx => NameSet.mem_union.mpr (Or.inr hx), fun x hx hn y hy => ?_⟩
  have hxc : x ∈ closed := (NameSet.mem_union.mp hx).resolve_right hn
  by_cases hyc : y ∈ closed
  · exact NameSet.mem_union.mpr (Or.inl hyc)
  · by_cases hxf : x ∈ frontier
    · exact NameSet.mem_union.mpr (Or.inr (mem_nextFrontier.mpr ⟨⟨x, hxf, hy⟩, hyc⟩))
    · exact absurd (h.expanded x hxc hxf y hy) hyc

theorem countP_lt_countP {p q : String → Bool} {l : List String} {y : String} (h : ∀ x ∈ l, q x → p x) (hy : y ∈ l)
    (hp : p y) (hq : ¬ q y) : l.countP q < l.countP p := by
  obtain ⟨before, after, rfl⟩ := List.append_of_mem hy
  have hb : before.countP q ≤ before.countP p :=
    List.countP_mono_left fun x hx => h x (List.mem_append_left _ hx)
  have ha : after.countP q ≤ after.countP p :=
    List.countP_mono_left fun x hx => h x (List.mem_append_right _ (List.mem_cons_of_mem _ hx))
  rw [List.countP_append, List.countP_append, List.countP_cons_of_pos hp, List.countP_cons_of_neg hq]
  omega

/-- a round that finds a new name leaves fewer mentions unreached -/
theorem unreached_lt {t : NameTable} {closed frontier : NameSet} (h : nextFrontier t closed frontier ≠ ∅) :
    t.unreached (closed ∪ nextFrontier t closed frontier) < t.unreached closed := by
  obtain ⟨y, hy⟩ := NameSet.exists_mem_of_ne_empty h
  obtain ⟨⟨x, -, hxy⟩, hyc⟩ := mem_nextFrontier.mp hy
  have hfound : y ∈ closed ∪ nextFrontier t closed frontier := NameSet.mem_union.mpr (Or.inr hy)
  refine countP_lt_countP (fun z _ hz => ?_) (NameTable.mem_mentions hxy) (decide_eq_true hyc)
    fun hq => of_decide_eq_true hq hfound
  simp only [NameSet.mem_union, not_or, decide_eq_true_eq] at hz ⊢
  exact hz.1

/-! ## All rounds -/

/-- everything that was closed at some round is closed before them or in one of their frontiers -/
def Seen (t : NameTable) (rounds : Nat) (closed frontier : NameSet) (x : String) : Prop :=
  x ∈ closed ∨ ∃ f ∈ frontiers t rounds closed frontier, x ∈ f

theorem frontiers_empty (t : NameTable) (rounds : Nat) (closed : NameSet) : frontiers t rounds closed ∅ = [] := by
  cases rounds <;> simp [frontiers]

theorem frontiers_succ (t : NameTable) (rounds : Nat) (closed : NameSet) {frontier : NameSet} (h : frontier ≠ ∅) :
    frontiers t (rounds + 1) closed frontier =
      frontier :: frontiers t rounds (closed ∪ nextFrontier t closed frontier) (nextFrontier t closed frontier) := by
  rw [frontiers, if_neg h]

theorem seen_of_round {t : NameTable} {rounds : Nat} {closed frontier : NameSet} {x : String} (hf : frontier ≠ ∅)
    (hr : nextFrontier t closed frontier = ∅ ∨ rounds ≠ 0) (h : Round t closed frontier) :
    Seen t (rounds + 1) closed frontier x ↔
      Seen t rounds (closed ∪ nextFrontier t closed frontier) (nextFrontier t closed frontier) x := by
  unfold Seen
  rw [frontiers_succ t rounds closed hf]
  constructor
  · rintro (hx | ⟨f, hfm, hx⟩)
    · exact Or.inl (NameSet.mem_union.mpr (Or.inl hx))
    · rcases List.mem_cons.mp hfm with rfl | hfm
      · exact Or.inl (NameSet.mem_union.mpr (Or.inl (h.inside x hx)))
      · exact Or.inr ⟨f, hfm, hx⟩
  · rintro (hx | ⟨f, hfm, hx⟩)
    · rcases NameSet.mem_union.mp hx with hx | hx
      · exact Or.inl hx
      · -- a name that the round finds is in the frontier of the next round
        have hne : nextFrontier t closed frontier ≠ ∅ := by
          intro he
          rw [he] at hx
          exact NameSet.not_mem_empty x hx
        obtain ⟨n, rfl⟩ := Nat.exists_eq_succ_of_ne_zero (hr.resolve_left hne)
        refine Or.inr ⟨nextFrontier t closed frontier, List.mem_cons_of_mem _ ?_, hx⟩
        rw [Nat.succ_eq_add_one, frontiers_succ t n _ hne]
        exact List.mem_cons_self
    · exact Or.inr ⟨f, List.mem_cons_of_mem _ hfm, hx⟩

/-- what was seen is closed under steps when the rounds outnumber the unreached mentions -/
theorem seen_step {t : NameTable} {rounds : Nat} {closed frontier : NameSet} {x y : String}
    (h : Round t closed frontier) (hr : frontier = ∅ ∨ t.unreached closed < rounds)
    (hx : Seen t rounds closed frontier x) (hxy : t.Step x y) : Seen t rounds closed frontier y := by
  -- induction on the rounds: each one either ends the search or lowers `unreached`
  induction rounds generalizing closed frontier with
  | zero =>
    obtain rfl : frontier = ∅ := hr.resolve_right (Nat.not_lt_zero _)
    rcases hx with hx | ⟨f, hfm, -⟩
    · exact Or.inl (h.expanded x hx (NameSet.not_mem_empty x) y hxy)
    · exact absurd hfm (by simp [frontiers])
  | succ n ih =>
    by_cases hf : frontier = ∅
    · subst hf
      rcases hx with hx | ⟨f, hfm, -⟩
      · exact Or.inl (h.expanded x hx (NameSet.not_mem_empty x) y hxy)
      · rw [frontiers_empty] at hfm
        exact absurd hfm List.not_mem_nil
    · have hn : t.unreached closed < n + 1 := hr.resolve_left hf
      have hnext : nextFrontier t closed frontier = ∅ ∨
          t.unreached (closed ∪ nextFrontier t closed frontier) < n := by
        by_cases he : nextFrontier t closed frontier = ∅
        · exact Or.inl he
        · have := unreached_lt he
          exact Or.inr (by omega)
      have hround : nextFrontier t closed frontier = ∅ ∨ n ≠ 0 := hnext.imp_right fun hlt => by omega
      rw [seen_of_round hf hround h] at hx ⊢
      exact ih (round_next h) hnext hx

theorem seen_of_reaches {t : NameTable} {rounds : Nat} {closed frontier : NameSet} {x y : String}
    (h : Round t closed frontier) (hr : frontier = ∅ ∨ t.unreached closed < rounds)
    (hx : Seen t rounds closed frontier x) (hxy : t.Reaches x y) : Seen t rounds closed frontier y := by
  induction hxy with
  | refl => exact hx
  | tail _ hstep ih => exact seen_step h hr ih hstep

/-- a round finds nothing that its first frontier does not reach -/
theorem reaches_of_mem_frontiers {t : NameTable} {rounds : Nat} {closed frontier f : NameSet} {x : String}
    (hf : f ∈ frontiers t rounds closed frontier) (hx : x ∈ f) : ∃ r ∈ frontier, t.Reaches r x := by
  induction rounds generalizing closed frontier with
  | zero => exact absurd hf (by simp [frontiers])
  | succ n ih =>
    by_cases he : frontier = ∅
    · rw [he, frontiers_empty] at hf
      exact absurd hf List.not_mem_nil
    · rw [frontiers_succ t n closed he] at hf
      rcases List.mem_cons.mp hf with rfl | hf
      · exact ⟨x, hx, .refl⟩
      · obtain ⟨r, hr, hrx⟩ := ih hf
        obtain ⟨⟨r', hr', hstep⟩, -⟩ := mem_nextFrontier.mp hr
        exact ⟨r', hr', .head hstep hrx⟩

/-! ## The closure -/

theorem mem_closure_iff_seen {t : NameTable} {roots : NameSet} {x : String} :
    x ∈ closure t roots ↔ Seen t (t.mentions + 2) roots roots x := by
  have hroots : x ∈ roots → ∃ f ∈ allFrontiers t roots, x ∈ f := by
    intro hx
    have hne : roots ≠ ∅ := by
      rintro rfl
      exact NameSet.not_mem_empty x hx
    refine ⟨roots, ?_, hx⟩
    rw [allFrontiers, frontiers_succ t _ roots hne]
    exact List.mem_cons_self
  simp only [closure, NameSet.mem_ofList, List.mem_flatMap, NameSet.mem_names]
  exact ⟨Or.inr, fun h => h.elim hroots id⟩

/-- **The closure is what can be reached**, with or without cycles: a name is in it iff a root reaches the name in any
number of steps. -/
theorem mem_closure {t : NameTable} {roots : NameSet} {x : String} :
    x ∈ closure t roots ↔ ∃ r ∈ roots, t.Reaches r x := by
  rw [mem_closure_iff_seen]
  constructor
  · rintro (hx | ⟨f, hf, hx⟩)
    · exact ⟨x, hx, .refl⟩
    · exact reaches_of_mem_frontiers hf hx
  · rintro ⟨r, hr, hrx⟩
    refine seen_of_reaches (round_roots t roots) (Or.inr ?_) (Or.inl hr) hrx
    exact Nat.lt_of_le_of_lt (t.unreached_le roots) (by omega)

end ChangeImpact
