/-
Which names a file belongs to.

`covers` compares a pattern with the beginning of a path segment by segment, and `walkRules` goes over the
rules with what it has found so far, and stops at one for a skipped project. Here both are said without a
walk: a pattern covers a path iff each of its positions fits, the walk finds what the covering rules say
together (`ruledBy`), and a name owns a path iff it is the first segment or a covering rule's project,
provided that no covering rule is for a skipped project.

Results:
- `segments_clean`: cleaning a path keeps its segments.
- `covers_iff`, `covers_iff_isPrefix`: coverage position by position, and of a pattern without wildcards.
- `walkRules_eq`, `ownersOf_cons`: what the walk over the rules finds, by induction on the rules.
- `mem_ownersOf`: who owns a path.
-/
import Mathlib.Data.List.Infix
import ChangeImpact.Proofs.Selection.Union

namespace ChangeImpact

open ChangeImpact.Text

/-! ## Segments -/

theorem not_mem_of_mem_pieces {separator : Char} {cs p : List Char} (h : p ∈ pieces separator cs) : separator ∉ p := by
  induction cs generalizing p with
  | nil =>
    obtain rfl := List.mem_singleton.mp h
    exact List.not_mem_nil
  | cons c rest ih =>
    rw [pieces] at h
    split at h
    · rcases List.mem_cons.mp h with rfl | h
      · exact List.not_mem_nil
      · exact ih h
    · next hc =>
      obtain ⟨q, qs, hq⟩ := List.exists_cons_of_ne_nil (pieces_ne_nil separator rest)
      rw [hq] at h ih
      rcases List.mem_cons.mp h with rfl | h
      · intro hm
        rcases List.mem_cons.mp hm with rfl | hm
        · exact hc rfl
        · exact ih List.mem_cons_self hm
      · exact ih (List.mem_cons_of_mem _ h)

/-- a segment is neither empty nor a single dot, and has no slash -/
theorem of_mem_segments {path s : String} (h : s ∈ segments path) : (s ≠ "" ∧ s ≠ ".") ∧ '/' ∉ s.toList := by
  obtain ⟨hs, hkept⟩ := List.mem_filter.mp h
  obtain ⟨p, hp, rfl⟩ := List.mem_map.mp hs
  refine ⟨of_decide_eq_true hkept, ?_⟩
  rw [String.toList_ofList]
  exact not_mem_of_mem_pieces hp

/-- cleaning a path keeps its segments: joined by slashes they are found again -/
theorem segments_clean (path : String) : segments (clean path) = segments (slashed path) := by
  have hsplit : splitAt '/' (clean path) = if segments (slashed path) = [] then [""] else segments (slashed path) :=
    splitAt_joined fun s hs => (of_mem_segments hs).2
  rw [segments, hsplit]
  split
  · next hnone => exact hnone.symm
  · apply List.filter_eq_self.mpr
    intro s hs
    exact decide_eq_true (of_mem_segments hs).1

/-! ## Coverage -/

/-- a pattern covers a path iff the path has a segment at each of its positions, the same one unless a wildcard stands
there -/
theorem covers_iff {pattern path : List String} :
    covers pattern path = true ↔
      ∀ (i : Nat) (p : String), pattern[i]? = some p → ∃ s, path[i]? = some s ∧ (p = wildcard ∨ p = s) := by
  induction pattern generalizing path with
  | nil => simp [covers]
  | cons p ps ih =>
    cases path with
    | nil =>
      refine iff_of_false (by simp [covers]) fun h => ?_
      obtain ⟨s, hs, -⟩ := h 0 p rfl
      simp at hs
    | cons s ss =>
      rw [covers, Bool.and_eq_true, ih, Bool.or_eq_true, decide_eq_true_eq, decide_eq_true_eq]
      constructor
      · rintro ⟨hp, hps⟩ i q hq
        cases i with
        | zero =>
          obtain rfl : p = q := Option.some.inj hq
          exact ⟨s, rfl, hp⟩
        | succ i => exact hps i q hq
      · intro h
        refine ⟨?_, fun i q hq => h (i + 1) q hq⟩
        obtain ⟨s', hs, hp⟩ := h 0 p rfl
        obtain rfl : s = s' := Option.some.inj hs
        exact hp

/-- without wildcards a pattern covers the paths that begin with it -/
theorem covers_iff_isPrefix {pattern path : List String} (h : wildcard ∉ pattern) :
    covers pattern path = true ↔ pattern <+: path := by
  induction pattern generalizing path with
  | nil => simp [covers]
  | cons p ps ih =>
    obtain ⟨hp, hps⟩ : p ≠ wildcard ∧ wildcard ∉ ps := by simpa [eq_comm] using h
    cases path with
    | nil => simp [covers]
    | cons s ss =>
      rw [covers, Bool.and_eq_true, ih hps, Bool.or_eq_true, decide_eq_true_eq, decide_eq_true_eq, List.cons_prefix_cons,
        or_iff_right hp]

/-! ## Owners -/

/-- the projects of the rules that cover a path -/
def ruledBy (path : List String) (rules : List Rule) : NameSet :=
  .ofList ((rules.filter fun r => covers r.segments path).map Rule.project)

theorem mem_ruledBy {path : List String} {rules : List Rule} {x : String} :
    x ∈ ruledBy path rules ↔ ∃ r ∈ rules, covers r.segments path = true ∧ r.project = x := by
  simp [ruledBy, and_assoc]

theorem ruledBy_of_covers {path : List String} {r : Rule} (h : covers r.segments path = true) (rest : List Rule) :
    ruledBy path (r :: rest) = .ofList [r.project] ∪ ruledBy path rest := by
  ext x
  have hproject : r.project = x ↔ x = r.project := eq_comm
  simp [mem_ruledBy, h, hproject]

theorem ruledBy_of_not_covers {path : List String} {r : Rule} (h : ¬ covers r.segments path = true) (rest : List Rule) :
    ruledBy path (r :: rest) = ruledBy path rest := by
  ext x
  simp [mem_ruledBy, h]

/-- the walk over the rules finds the projects of all rules that cover the path, or stops when one of them is skipped -/
theorem walkRules_eq (skipped : NameSet) (path : List String) (found : NameSet) (rules : List Rule) :
    walkRules skipped path found rules =
      if (ruledBy path rules).names.any (· ∈ skipped) then none else some (found ∪ ruledBy path rules) := by
  induction rules generalizing found with
  | nil =>
    have hnothing : found ∪ ruledBy path [] = found := by
      ext x
      simp [mem_ruledBy]
    have hnone : (ruledBy path []).names.any (· ∈ skipped) = false := by
      simp [mem_ruledBy]
    rw [walkRules, hnone, hnothing]
    rfl
  | cons r rest ih =>
    rw [walkRules]
    by_cases hcovers : covers r.segments path = true
    · rw [if_pos hcovers, ruledBy_of_covers hcovers]
      by_cases hskipped : r.project ∈ skipped
      · have hany : (NameSet.ofList [r.project] ∪ ruledBy path rest).names.any (· ∈ skipped) = true := by
          refine List.any_eq_true.mpr ⟨r.project, ?_, decide_eq_true hskipped⟩
          simp
        rw [if_pos hskipped, if_pos hany]
      · have hsame : (NameSet.ofList [r.project] ∪ ruledBy path rest).names.any (· ∈ skipped) =
            (ruledBy path rest).names.any (· ∈ skipped) := by
          rw [Bool.eq_iff_iff]
          simp [List.any_eq_true, hskipped]
        have hunion : found ∪ .ofList [r.project] ∪ ruledBy path rest = found ∪ (.ofList [r.project] ∪ ruledBy path rest) := by
          ext x
          simp [or_assoc]
        rw [if_neg hskipped, ih, hsame, hunion]
    · rw [if_neg hcovers, ih, ruledBy_of_not_covers hcovers]

namespace Model

/-- the owners by what the rules that cover a path say together -/
theorem ownersOf_cons (m : Model) (first : String) (rest : List String) :
    m.ownersOf (first :: rest) =
      if (ruledBy (first :: rest) m.rules).names.any (· ∈ m.skipped) then ∅
      else ruledBy (first :: rest) m.rules ∪ .ofList [first] := by
  have hempty : (∅ : NameSet) ∪ ruledBy (first :: rest) m.rules = ruledBy (first :: rest) m.rules := by
    ext x
    simp
  rw [ownersOf, walkRules_eq, hempty]
  by_cases hany : (ruledBy (first :: rest) m.rules).names.any (· ∈ m.skipped) = true
  · rw [if_pos hany, if_pos hany]
  · rw [if_neg hany, if_neg hany]

/-- a name owns a path iff no covering rule is for a skipped project, and the name is the first segment or the project
of a covering rule -/
theorem mem_ownersOf {m : Model} {path : List String} {x : String} :
    x ∈ m.ownersOf path ↔
      (∀ r ∈ m.rules, covers r.segments path = true → r.project ∉ m.skipped) ∧
      (path.head? = some x ∨ path ≠ [] ∧ ∃ r ∈ m.rules, covers r.segments path = true ∧ r.project = x) := by
  cases path with
  | nil => simp [ownersOf]
  | cons first rest =>
    have hany : ((ruledBy (first :: rest) m.rules).names.any (· ∈ m.skipped)) = true ↔
        ¬ ∀ r ∈ m.rules, covers r.segments (first :: rest) = true → r.project ∉ m.skipped := by
      simp only [List.any_eq_true, NameSet.mem_names, mem_ruledBy, decide_eq_true_eq]
      push Not
      constructor
      · rintro ⟨_, ⟨r, hr, hc, rfl⟩, hs⟩
        exact ⟨r, hr, hc, hs⟩
      · rintro ⟨r, hr, hc, hs⟩
        exact ⟨r.project, ⟨r, hr, hc, rfl⟩, hs⟩
    rw [ownersOf_cons]
    split
    · next h =>
      exact iff_of_false (NameSet.not_mem_empty x) fun hx => hany.mp h hx.1
    · next h =>
      have hfree := not_not.mp (mt hany.mpr h)
      simp only [NameSet.mem_union, mem_ruledBy, NameSet.mem_ofList, List.mem_singleton, List.head?_cons, Option.some.injEq]
      constructor
      · rintro (hx | rfl)
        · exact ⟨hfree, .inr ⟨List.cons_ne_nil _ _, hx⟩⟩
        · exact ⟨hfree, .inl rfl⟩
      · rintro ⟨-, rfl | ⟨-, hx⟩⟩
        · exact .inr rfl
        · exact .inl hx

end Model

end ChangeImpact
