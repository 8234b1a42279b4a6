/-
What is below a directory.

The segments of a path below a directory begin with those of the directory, so a rule that matches the directory matches
everything below it. Deeper down more rules match, and they can do two things only: add their projects, or be for a
skipped project, and then nothing is left. So a path keeps the owners of its directory or has none, and below a skipped
directory everything is skipped.

The two paths are any texts. Slashes at their ends, single dots and empty texts make no segments, so that what is written
below a directory may be the directory itself.

Results:
- `Rule.Matches.below`, `Skips.below`: what matches and what skips a directory does so for all that is below it.
- `mem_owners_below`: the owners of a path below a directory, from those of the directory.
- `owners_inherited`: owners are kept or lost as a whole, and lost to a skipping rule only.
-/
import ChangeImpact.Proofs.Selection.Attribution

namespace ChangeImpact

/-- a rule that matches a directory matches all that is below it -/
theorem Rule.Matches.below {r : Rule} {path : List String} (h : r.Matches path) (more : List String) :
    r.Matches (path ++ more) := by
  obtain ⟨beginning, hprefix, hall⟩ := h
  exact ⟨beginning, hprefix.trans (List.prefix_append path more), hall⟩

namespace Model

variable {m : Model} {f g : String}

theorem Skips.below {path : List String} (h : m.Skips path) (more : List String) : m.Skips (path ++ more) := by
  obtain ⟨r, hr, hmatches, hskipped⟩ := h
  exact ⟨r, hr, hmatches.below more, hskipped⟩

theorem owners_eq_empty_below (h : m.Skips (segments f)) : m.owners f = ∅ ∧ m.owners (f ++ "/" ++ g) = ∅ := by
  refine ⟨owners_eq_empty (.inr h), owners_eq_empty (.inr ?_)⟩
  rw [segments_slash]
  exact h.below (segments g)

/-- the owners of a path that is not skipped are those of the directory it is in, and the projects of the rules that match
the path and not the directory -/
theorem mem_owners_below (hf : segments f ≠ []) (h : ¬ m.Skips (segments (f ++ "/" ++ g))) {x : String} :
    x ∈ m.owners (f ++ "/" ++ g) ↔
      x ∈ m.owners f ∨
        ∃ r ∈ m.rules, r.Matches (segments (f ++ "/" ++ g)) ∧ ¬ r.Matches (segments f) ∧ r.project = x := by
  have hfree : ¬ m.Skips (segments f) := by
    intro hskips
    rw [segments_slash] at h
    exact h (hskips.below (segments g))
  have hsome : segments (f ++ "/" ++ g) ≠ [] := by
    rw [segments_slash]
    exact List.append_ne_nil_of_left_ne_nil hf (segments g)
  have hhead : (segments (f ++ "/" ++ g)).head? = (segments f).head? := by
    rw [segments_slash, List.head?_append_of_ne_nil _ hf]
  rw [mem_owners_iff (not_or.mpr ⟨hsome, h⟩), mem_owners_iff (not_or.mpr ⟨hf, hfree⟩), hhead]
  constructor
  · rintro (hfirst | ⟨r, hr, hmatches, rfl⟩)
    · exact .inl (.inl hfirst)
    · by_cases hdirectory : r.Matches (segments f)
      · exact .inl (.inr ⟨r, hr, hdirectory, rfl⟩)
      · exact .inr ⟨r, hr, hmatches, hdirectory, rfl⟩
  · rintro ((hfirst | ⟨r, hr, hdirectory, rfl⟩) | ⟨r, hr, hmatches, -, rfl⟩)
    · exact .inl hfirst
    · refine .inr ⟨r, hr, ?_, rfl⟩
      rw [segments_slash]
      exact hdirectory.below (segments g)
    · exact .inr ⟨r, hr, hmatches, rfl⟩

theorem owners_subset_below (h : ¬ m.Skips (segments (f ++ "/" ++ g))) : m.owners f ⊆ m.owners (f ++ "/" ++ g) := by
  intro x hx
  by_cases hnone : segments f = []
  · rw [owners_eq_empty (.inl hnone)] at hx
    exact absurd hx (NameSet.not_mem_empty x)
  · exact (mem_owners_below hnone h).mpr (.inl hx)

/-- **Owners are inherited.** For every model and any two texts: a path below a directory has no owners or all those of the
directory, and when a rule for a skipped project matches the directory, neither has any. If one owner of the directory is
lost below it, they all are, and to a rule for a skipped project that matches the path and not yet the directory. A path
that is not skipped has, besides the owners of its directory, the projects of the rules that match from there on. -/
theorem owners_inherited (m : Model) (f g : String) :
    (m.owners (f ++ "/" ++ g) = ∅ ∨ m.owners f ⊆ m.owners (f ++ "/" ++ g)) ∧
    ((∃ r ∈ m.rules, r.Matches (segments f) ∧ r.project ∈ m.skipped) →
      m.owners f = ∅ ∧ m.owners (f ++ "/" ++ g) = ∅) ∧
    (∀ x ∈ m.owners f, x ∉ m.owners (f ++ "/" ++ g) →
      m.owners (f ++ "/" ++ g) = ∅ ∧
        ∃ r ∈ m.rules, r.Matches (segments (f ++ "/" ++ g)) ∧ ¬ r.Matches (segments f) ∧ r.project ∈ m.skipped) ∧
    (segments f ≠ [] → (¬ ∃ r ∈ m.rules, r.Matches (segments (f ++ "/" ++ g)) ∧ r.project ∈ m.skipped) →
      ∀ x, x ∈ m.owners (f ++ "/" ++ g) ↔
        x ∈ m.owners f ∨
          ∃ r ∈ m.rules, r.Matches (segments (f ++ "/" ++ g)) ∧ ¬ r.Matches (segments f) ∧ r.project = x) := by
  refine ⟨?_, owners_eq_empty_below, ?_, fun hf h x => mem_owners_below hf h⟩
  · by_cases hskips : m.Skips (segments (f ++ "/" ++ g))
    · exact .inl (owners_eq_empty (.inr hskips))
    · exact .inr (owners_subset_below hskips)
  · intro x hx hlost
    have hskips : m.Skips (segments (f ++ "/" ++ g)) := by
      by_contra hfree
      exact hlost (owners_subset_below hfree x hx)
    refine ⟨owners_eq_empty (.inr hskips), ?_⟩
    obtain ⟨r, hr, hmatches, hskipped⟩ := hskips
    refine ⟨r, hr, hmatches, fun hdirectory => ?_, hskipped⟩
    -- the directory would be skipped, but it has an owner
    rw [owners_eq_empty (.inr ⟨r, hr, hdirectory, hskipped⟩)] at hx
    exact NameSet.not_mem_empty x hx

/-- a directory of documents in the bundled tables, with a path below it that is written with a slash too many -/
theorem owners_inherited_bundled :
    (⟨["*", "docs"], "docs"⟩ : Rule).Matches (segments "clang/docs/") ∧
    Bundled.model.owners "clang/docs/" = ∅ ∧ Bundled.model.owners ("clang/docs/" ++ "/" ++ "tools/a.rst") = ∅ := by
  have hmatches : (⟨["*", "docs"], "docs"⟩ : Rule).Matches (segments "clang/docs/") :=
    covers_iff_matches.mp (by decide +kernel)
  have hlisted : (⟨["*", "docs"], "docs"⟩ : Rule) ∈ Bundled.model.rules := by
    change _ ∈ Bundled.rules
    decide
  have hskipped : "docs" ∈ Bundled.model.skipped := NameSet.mem_ofList.mpr (by decide)
  obtain ⟨-, hskips, -⟩ := owners_inherited Bundled.model "clang/docs/" "tools/a.rst"
  exact ⟨hmatches, hskips ⟨_, hlisted, hmatches, hskipped⟩⟩

end Model

end ChangeImpact
