/-
Who owns a path, rule by rule.

`Model.owners` walks along the pieces of a path and over the rules, and stops at the first rule that matches
and is for a skipped project. What it finds can be said without a walk: a rule matches a path when its
pattern is as long as some beginning of the path's segments and agrees with it segment by segment, wildcards
agreeing with everything (`Rule.Matches`). One matching rule for a skipped project is enough for a path to
have no owners, wherever the rule stands; without one the owners are the first segment and the projects of
all rules that match. So it does not matter in which order or how often a rule is written, nor how often a
path repeats its slashes or stays where it is.

Results:
- `covers_iff_matches`: the walk along a pattern finds the paths that it matches.
- `owners_eq_empty`, `mem_owners_iff`: the paths without owners, and the owners of all others.
- `segments_slash`, `segments_inserted`: the segments of a longer path, and pieces that add none.
- `owners_by_rules`: all of it, for every path, every list of rules and every set of skipped projects.
-/
import ChangeImpact.Proofs.Selection.Order

namespace ChangeImpact

open ChangeImpact.Text

/-! ## Rules -/

/-- the pattern agrees with a beginning of the segments that has its length, segment by segment, where a wildcard agrees
with everything -/
def Rule.Matches (r : Rule) (path : List String) : Prop :=
  ∃ beginning, beginning <+: path ∧ List.Forall₂ (fun p s => p = "*" ∨ p = s) r.segments beginning

theorem covers_iff_matches {r : Rule} {path : List String} : covers r.segments path = true ↔ r.Matches path := by
  unfold Rule.Matches
  -- along the pattern, with what is left of the path
  induction r.segments generalizing path with
  | nil => simp [covers]
  | cons p ps ih =>
    cases path with
    | nil => simp [covers]
    | cons s ss =>
      rw [covers, Bool.and_eq_true, ih, Bool.or_eq_true, decide_eq_true_eq, decide_eq_true_eq]
      constructor
      · intro h
        obtain ⟨hp, beginning, hprefix, hps⟩ := h
        exact ⟨s :: beginning, List.cons_prefix_cons.mpr ⟨rfl, hprefix⟩, .cons hp hps⟩
      · intro h
        obtain ⟨beginning, hprefix, hall⟩ := h
        cases hall with
        | cons hp hps =>
          obtain ⟨rfl, hrest⟩ := List.cons_prefix_cons.mp hprefix
          exact ⟨hp, _, hrest, hps⟩

namespace Model

variable {m : Model} {path : String}

/-- a rule for a skipped project matches the segments -/
def Skips (m : Model) (path : List String) : Prop :=
  ∃ r ∈ m.rules, r.Matches path ∧ r.project ∈ m.skipped

theorem not_skips_iff {path : List String} :
    ¬ m.Skips path ↔ ∀ r ∈ m.rules, covers r.segments path = true → r.project ∉ m.skipped := by
  simp only [Skips, covers_iff_matches]
  push Not
  rfl

theorem owners_eq_empty (h : segments path = [] ∨ m.Skips (segments path)) : m.owners path = ∅ := by
  ext x
  refine iff_of_false ?_ (NameSet.not_mem_empty x)
  intro hx
  obtain ⟨hfree, hplace⟩ := mem_ownersOf.mp hx
  rcases h with hnone | hskips
  · rw [hnone] at hplace
    simp at hplace
  · exact not_skips_iff.mpr hfree hskips

theorem mem_owners_iff (h : ¬ (segments path = [] ∨ m.Skips (segments path))) {x : String} :
    x ∈ m.owners path ↔
      (segments path).head? = some x ∨ ∃ r ∈ m.rules, r.Matches (segments path) ∧ r.project = x := by
  obtain ⟨hsome, hfree⟩ := not_or.mp h
  have howners : x ∈ m.owners path ↔ _ := mem_ownersOf
  rw [howners, and_iff_right (not_skips_iff.mp hfree), and_iff_right hsome]
  simp only [covers_iff_matches]

end Model

/-! ## Paths -/

/-- the pieces between slashes are pieces without slashes that make up the path again -/
theorem joined_splitAt (path : String) : joined '/' (splitAt '/' path) = path := by
  unfold joined splitAt
  rw [List.map_map]
  have hback : (String.toList ∘ String.ofList) = id := by
    funext cs
    exact String.toList_ofList
  rw [hback, List.map_id, joinPieces_pieces, String.ofList_toList]

theorem slash_not_mem_of_mem_splitAt {path piece : String} (h : piece ∈ splitAt '/' path) : '/' ∉ piece.toList := by
  obtain ⟨p, hp, rfl⟩ := List.mem_map.mp h
  rw [String.toList_ofList]
  exact not_mem_of_mem_pieces hp

/-- the segments of two paths with a slash between them -/
theorem segments_slash (a b : String) : segments (a ++ "/" ++ b) = segments a ++ segments b := by
  have hsplit : splitAt '/' (a ++ "/" ++ b) = splitAt '/' a ++ splitAt '/' b := by
    simp [splitAt, pieces_append]
  rw [segments, hsplit, List.filter_append]
  rfl

/-- slashes, and single dots with their slash, add no segments to what follows them -/
theorem segments_inserted {inserted : List String} (h : ∀ w ∈ inserted, w = "/" ∨ w = "./") (b : String) :
    segments (String.join inserted ++ b) = segments b := by
  induction inserted with
  | nil => simp [String.join]
  | cons w ws ih =>
    have hws := ih fun v hv => h v (List.mem_cons_of_mem w hv)
    have hjoin : String.join (w :: ws) ++ b = w ++ (String.join ws ++ b) := by
      simp [String.append_assoc]
    have hslash : "/" = "" ++ "/" := by decide
    have hdot : "./" = "." ++ "/" := by decide
    rw [hjoin]
    rcases h w List.mem_cons_self with rfl | rfl
    · rw [hslash, segments_slash, hws]
      rfl
    · rw [hdot, segments_slash, hws]
      rfl

namespace Model

/-! ## Owners -/

/-- **The owners of a path.** For every path, every list of rules and every set of skipped projects: the path is cut at its
slashes, and what is neither empty nor a single dot are its segments. Without segments, or when a rule for a skipped project
matches them, wherever that rule stands, the path has no owners. Otherwise its owners are the first segment and the projects
of all matching rules, and nothing else. Rules can be permuted and repeated, and slashes and single dots put between
segments, without a change. -/
theorem owners_by_rules :
    (∀ path : String, joined '/' (splitAt '/' path) = path ∧ ∀ piece ∈ splitAt '/' path, '/' ∉ piece.toList) ∧
    (∀ (m : Model) (path : String),
      let s := (splitAt '/' path).filter fun piece => piece ≠ "" ∧ piece ≠ "."
      let skips := ∃ r ∈ m.rules, r.Matches s ∧ r.project ∈ m.skipped
      (s = [] ∨ skips → m.owners path = ∅) ∧
      (¬ (s = [] ∨ skips) →
        ∀ x, x ∈ m.owners path ↔ s.head? = some x ∨ ∃ r ∈ m.rules, r.Matches s ∧ r.project = x)) ∧
    (∀ (m : Model) (rules : List Rule) (path : String), (∀ r, r ∈ rules ↔ r ∈ m.rules) →
      ({ m with rules } : Model).owners path = m.owners path) ∧
    (∀ (m : Model) (a b : String) (inserted : List String), (∀ w ∈ inserted, w = "/" ∨ w = "./") →
      m.owners (a ++ "/" ++ String.join inserted ++ b) = m.owners (a ++ "/" ++ b)) := by
  refine ⟨fun path => ⟨joined_splitAt path, fun _ => slash_not_mem_of_mem_splitAt⟩, fun m path => ?_, ?_, ?_⟩
  · intro s skips
    exact ⟨owners_eq_empty, fun h x => mem_owners_iff h⟩
  · intro m rules path h
    exact ownersOf_of_rules h (segments path)
  · intro m a b inserted h
    have hsegments : segments (a ++ "/" ++ String.join inserted ++ b) = segments (a ++ "/" ++ b) := by
      rw [String.append_assoc, segments_slash, segments_slash, segments_inserted h]
    unfold owners
    rw [hsegments]

/-- the bundled tables, a file of documents under two rules of which the skipping one stands first, and one file in two
spellings -/
theorem owners_by_rules_bundled :
    (splitAt '/' "third-party/docs/a.md").filter (fun piece => piece ≠ "" ∧ piece ≠ ".") = ["third-party", "docs", "a.md"] ∧
    Bundled.model.owners "third-party/docs/a.md" = ∅ ∧
    (∀ w ∈ ["./", "/"], w = "/" ∨ w = "./") ∧
    Bundled.model.owners "llvm/.//utils/lit/lit.py" = Bundled.model.owners "llvm/utils/lit/lit.py" := by
  obtain ⟨-, howners, -, hpaths⟩ := owners_by_rules
  have hsegments : (splitAt '/' "third-party/docs/a.md").filter (fun piece => piece ≠ "" ∧ piece ≠ ".") =
      ["third-party", "docs", "a.md"] := by decide
  have hinserted : ∀ w ∈ ["./", "/"], w = "/" ∨ w = "./" := by decide
  have hrule : (⟨["*", "docs"], "docs"⟩ : Rule).Matches ["third-party", "docs", "a.md"] :=
    ⟨["third-party", "docs"], ⟨["a.md"], rfl⟩, .cons (.inl rfl) (.cons (.inr rfl) .nil)⟩
  have hskipped : "docs" ∈ Bundled.model.skipped := NameSet.mem_ofList.mpr (by decide)
  have hlisted : (⟨["*", "docs"], "docs"⟩ : Rule) ∈ Bundled.model.rules := by
    change _ ∈ Bundled.rules
    decide
  refine ⟨hsegments, ?_, hinserted, ?_⟩
  · apply (howners Bundled.model "third-party/docs/a.md").1
    rw [hsegments]
    exact .inr ⟨_, hlisted, hrule, hskipped⟩
  · exact hpaths Bundled.model "llvm" "utils/lit/lit.py" ["./", "/"] hinserted

end Model

end ChangeImpact
