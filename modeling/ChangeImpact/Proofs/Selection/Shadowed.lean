/-
Rules that other rules leave nothing.

A rule for a skipped project drops every file that it matches. When such rules drop all that another rule matches, that
rule is shadowed: it never gives a file to its project. Whether it is can be read off the patterns, two at a time. A
pattern generalizes another one when it is no longer and has a wildcard at each of its positions or else the segment that
the other one has there, and a rule is shadowed iff one skipping rule generalizes it.

That several rules together do no more than one of them is due to wildcards. In place of a wildcard any segment can
stand, also one that no pattern has. Of the paths that a pattern covers, `filled` is one with such a segment for every
wildcard and nothing behind the pattern. What covers it can use no segment of its own where a wildcard stood, and so it
covers everything else that the pattern covers.

Results:
- `covers_of_generalizes`: a generalization covers what the pattern covers.
- `covers_filled_iff`: only generalizations cover a pattern that has been filled up.
- `covered_iff`: patterns cover all that a pattern covers iff one of them generalizes it.
- `ownersOf_eq_empty_iff`: which paths have no owners.
- `shadowed_by_one`: shadowed rules of any tables, from one skipping rule each.
-/
import Mathlib.Data.Fintype.EquivFin
import ChangeImpact.Proofs.Selection.Attribution
import ChangeImpact.Proofs.Tables.Rebuilt

namespace ChangeImpact

/-- the first pattern is no longer than the second one, and at each of its positions it has a wildcard or what the second
one has there -/
def Generalizes (q p : List String) : Prop :=
  q.length ≤ p.length ∧ ∀ i < q.length, q[i]? = some wildcard ∨ q[i]? = p[i]?

instance (q p : List String) : Decidable (Generalizes q p) :=
  inferInstanceAs (Decidable (_ ∧ _))

/-- the pattern as a path, with the same segment for all wildcards -/
def filled (segment : String) (p : List String) : List String :=
  p.map fun s => if s = wildcard then segment else s

variable {p q path : List String} {segment : String}

/-! ## Coverage -/

/-- a path that is covered is not shorter than the pattern -/
theorem length_le_of_covers (h : covers q path = true) : q.length ≤ path.length := by
  by_contra hlonger
  have hi : path.length < q.length := Nat.lt_of_not_le hlonger
  obtain ⟨s, hs, -⟩ := covers_iff.mp h path.length q[path.length] (List.getElem?_eq_getElem hi)
  rw [List.getElem?_eq_none (Nat.le_refl _)] at hs
  contradiction

theorem covers_of_generalizes (h : Generalizes q p) (hp : covers p path = true) : covers q path = true := by
  obtain ⟨hlength, heach⟩ := h
  rw [covers_iff] at hp ⊢
  intro i s hs
  have hi : i < q.length := (List.getElem?_eq_some_iff.mp hs).1
  have hip : i < p.length := Nat.lt_of_lt_of_le hi hlength
  have hpi : p[i]? = some p[i] := List.getElem?_eq_getElem hip
  obtain ⟨u, hu, hfits⟩ := hp i _ hpi
  refine ⟨u, hu, ?_⟩
  rcases heach i hi with hwild | hsame
  · left
    rw [hs] at hwild
    exact Option.some.inj hwild
  · rw [hs, hpi] at hsame
    rw [Option.some.inj hsame]
    exact hfits

theorem getElem?_filled (i : Nat) : (filled segment p)[i]? = p[i]?.map fun s => if s = wildcard then segment else s :=
  List.getElem?_map

theorem covers_filled (segment : String) (p : List String) : covers p (filled segment p) = true := by
  rw [covers_iff]
  intro i s hs
  refine ⟨if s = wildcard then segment else s, ?_, ?_⟩
  · rw [getElem?_filled, hs]
    rfl
  · by_cases hwild : s = wildcard
    · exact .inl hwild
    · rw [if_neg hwild]
      exact .inr rfl

/-- a pattern without the segment that the wildcards were filled with -/
theorem covers_filled_iff (h : segment ∉ q) : covers q (filled segment p) = true ↔ Generalizes q p := by
  refine ⟨fun hcovers => ⟨?_, ?_⟩, fun hgeneral => covers_of_generalizes hgeneral (covers_filled segment p)⟩
  · have hlength := length_le_of_covers hcovers
    rwa [filled, List.length_map] at hlength
  · intro i hi
    obtain ⟨u, hu, hfits⟩ := covers_iff.mp hcovers i q[i] (List.getElem?_eq_getElem hi)
    rw [getElem?_filled] at hu
    obtain ⟨s, hs, rfl⟩ := Option.map_eq_some_iff.mp hu
    rw [List.getElem?_eq_getElem hi, hs]
    rcases hfits with hwild | hsame
    · exact .inl (congrArg some hwild)
    · right
      by_cases hwild : s = wildcard
      · -- the pattern would have the segment
        rw [if_pos hwild] at hsame
        exact absurd (hsame ▸ List.getElem_mem hi) h
      · rw [hsame, if_neg hwild]

theorem exists_unused (patterns : List (List String)) : ∃ segment : String, ∀ q ∈ patterns, segment ∉ q := by
  obtain ⟨segment, hunused⟩ := Infinite.exists_notMem_finset patterns.flatten.toFinset
  rw [List.mem_toFinset, List.mem_flatten] at hunused
  exact ⟨segment, fun q hq hs => hunused ⟨q, hq, hs⟩⟩

theorem covered_iff {patterns : List (List String)} :
    (∀ path, covers p path = true → ∃ q ∈ patterns, covers q path = true) ↔ ∃ q ∈ patterns, Generalizes q p := by
  constructor
  · intro h
    obtain ⟨segment, hunused⟩ := exists_unused patterns
    obtain ⟨q, hq, hcovers⟩ := h (filled segment p) (covers_filled segment p)
    exact ⟨q, hq, (covers_filled_iff (hunused q hq)).mp hcovers⟩
  · rintro ⟨q, hq, hgeneral⟩ path hpath
    exact ⟨q, hq, covers_of_generalizes hgeneral hpath⟩

/-! ## Shadowed rules -/

namespace Model

variable {m : Model}

/-- the patterns of the rules for skipped projects -/
def skippingPatterns (m : Model) : List (List String) :=
  (m.rules.filter fun r => r.project ∈ m.skipped).map Rule.segments

theorem exists_skippingPattern_iff {holds : List String → Prop} :
    (∃ q ∈ m.skippingPatterns, holds q) ↔ ∃ r ∈ m.rules, r.project ∈ m.skipped ∧ holds r.segments := by
  simp [skippingPatterns, and_assoc]

/-- a path has no owners iff it has no segments or a skipping rule covers it -/
theorem ownersOf_eq_empty_iff :
    m.ownersOf path = ∅ ↔ path = [] ∨ ∃ r ∈ m.rules, r.project ∈ m.skipped ∧ covers r.segments path = true := by
  constructor
  · intro h
    by_contra hnone
    obtain ⟨hsome, hfree⟩ := not_or.mp hnone
    obtain ⟨first, rest, rfl⟩ := List.exists_cons_of_ne_nil hsome
    have howner : first ∈ m.ownersOf (first :: rest) := by
      rw [mem_ownersOf]
      exact ⟨fun r hr hcovers hskipped => hfree ⟨r, hr, hskipped, hcovers⟩, .inl rfl⟩
    rw [h] at howner
    exact NameSet.not_mem_empty first howner
  · intro h
    ext x
    refine iff_of_false ?_ (NameSet.not_mem_empty x)
    intro hx
    obtain ⟨hfree, hplace⟩ := mem_ownersOf.mp hx
    rcases h with rfl | ⟨r, hr, hskipped, hcovers⟩
    · simp at hplace
    · exact hfree r hr hcovers hskipped

/-- **Rules are shadowed by one rule or not at all.** For every pattern and every list of patterns: all paths that the
pattern covers are covered by patterns of the list iff one of them generalizes it. So in any model a rule that has a
segment, as those of accepted configurations have, gives owners to none of the paths that it covers iff one rule for a
skipped project generalizes its pattern. And when the rules for skipped projects together cover all that a rule covers, one
of them does so alone. -/
theorem shadowed_by_one :
    (∀ (p : List String) (patterns : List (List String)),
      (∀ path, covers p path = true → ∃ q ∈ patterns, covers q path = true) ↔ ∃ q ∈ patterns, Generalizes q p) ∧
    (∀ (m : Model) (r : Rule), r.segments ≠ [] →
      ((∀ path, covers r.segments path = true → m.ownersOf path = ∅) ↔
        ∃ q ∈ m.rules, q.project ∈ m.skipped ∧ Generalizes q.segments r.segments)) ∧
    (∀ (v : Value) (m : Model), ofValue v = .ok m → ∀ r ∈ m.rules, r.segments ≠ []) ∧
    (∀ (m : Model) (r : Rule),
      (∀ path, covers r.segments path = true →
        ∃ q ∈ m.rules, q.project ∈ m.skipped ∧ covers q.segments path = true) →
      ∃ q ∈ m.rules, q.project ∈ m.skipped ∧
        ∀ path, covers r.segments path = true → covers q.segments path = true) := by
  refine ⟨fun p patterns => covered_iff, ?_, fun v m h r hr => (segments_of_ofValue h hr).1, ?_⟩
  · intro m r hsome
    have hone : (∃ q ∈ m.skippingPatterns, Generalizes q r.segments) ↔
        ∃ q ∈ m.rules, q.project ∈ m.skipped ∧ Generalizes q.segments r.segments := exists_skippingPattern_iff
    rw [← hone, ← covered_iff]
    refine forall_congr' fun path => imp_congr_right fun hcovers => ?_
    have hpath : path ≠ [] := by
      rintro rfl
      exact hsome (List.length_eq_zero_iff.mp (Nat.le_zero.mp (length_le_of_covers hcovers)))
    rw [ownersOf_eq_empty_iff, or_iff_right hpath, exists_skippingPattern_iff]
  · intro m r h
    have hcovered : ∃ q ∈ m.skippingPatterns, Generalizes q r.segments :=
      covered_iff.mp fun path hpath => exists_skippingPattern_iff.mpr (h path hpath)
    obtain ⟨q, hq, hskipped, hgeneral⟩ := exists_skippingPattern_iff.mp hcovered
    exact ⟨q, hq, hskipped, fun path => covers_of_generalizes hgeneral⟩

/-- in the bundled tables no rule for a project that is not skipped is shadowed, and one for documents of clang would be -/
theorem shadowed_by_one_bundled :
    (∀ r ∈ Bundled.rules, r.project ∉ Bundled.model.skipped →
      ∃ path, covers r.segments path = true ∧ Bundled.model.ownersOf path ≠ ∅) ∧
    (∀ path, covers ["clang", "docs", "tools"] path = true → Bundled.model.ownersOf path = ∅) ∧
    ∃ q ∈ Bundled.rules, ∀ path, covers ["clang", "docs", "tools"] path = true → covers q.segments path = true := by
  obtain ⟨-, hshadowed, -, hone⟩ := shadowed_by_one
  have hskipped : ∀ x, x ∈ Bundled.model.skipped ↔ x ∈ ["docs", "gn"] := fun x => NameSet.mem_ofList
  have hdocs : ∃ q ∈ Bundled.rules, q.project ∈ Bundled.model.skipped ∧
      Generalizes q.segments ["clang", "docs", "tools"] := by
    simp only [hskipped]
    decide
  have hcovered : ∀ path, covers ["clang", "docs", "tools"] path = true →
      ∃ q ∈ Bundled.rules, q.project ∈ Bundled.model.skipped ∧ covers q.segments path = true := by
    obtain ⟨q, hq, hs, hgeneral⟩ := hdocs
    exact fun path hpath => ⟨q, hq, hs, covers_of_generalizes hgeneral hpath⟩
  let docs : Rule := ⟨["clang", "docs", "tools"], "docs"⟩
  refine ⟨?_, (hshadowed Bundled.model docs (List.cons_ne_nil _ _)).mpr hdocs, ?_⟩
  · intro r hr hfree
    have hplain : r.segments ≠ [] ∧
        ¬ ∃ q ∈ Bundled.rules, q.project ∈ Bundled.model.skipped ∧ Generalizes q.segments r.segments := by
      simp only [hskipped] at hfree ⊢
      revert hfree
      revert r
      decide
    have hsome := mt (hshadowed Bundled.model r hplain.1).mp hplain.2
    push Not at hsome
    exact hsome
  · obtain ⟨q, hq, -, hcovers⟩ := hone Bundled.model docs hcovered
    exact ⟨q, hq, hcovers⟩

end Model

end ChangeImpact
