/-
Rules that no file can match.

A rule is compared with the segments of a clean path. These are pieces between slashes, and backslashes were turned into
slashes before, so no segment has either of them in it, and none is a single dot. A pattern with such a segment is dead:
no file comes out with it. Nothing rejects the rule, since the segments of a pattern are kept as they are written and any
text will do that is not empty.

Every other pattern is live, also one that begins or ends with a blank character or has control characters in it. The file
that shows it is the pattern with a single dot in front of it and another one behind it. The dots are left out when the
file is taken apart, but before that they keep the blank characters of the pattern from being taken off.

Results:
- `plain_of_mem_segments`: what no segment of a clean path can be.
- `segments_fenced`, `slashed_fenced`: the segments between dots are found again as they were.
- `live_iff`: which rules are matched by some file.
- `ofValue_listing_with_rules`: which rules are accepted with the other parts of an accepted model.
- `live_by_text`: live rules of accepted configurations.
-/
import ChangeImpact.Proofs.Selection.Settled
import ChangeImpact.Proofs.Tables.Rebuilt

namespace ChangeImpact

open ChangeImpact.Text

/-! ## Plain segments -/

/-- the text is not a single dot, and has neither a slash nor a backslash in it -/
def IsPlain (s : String) : Prop :=
  s ≠ "." ∧ '/' ∉ s.toList ∧ '\\' ∉ s.toList

theorem isPlain_wildcard : IsPlain wildcard := by
  unfold IsPlain wildcard
  decide

theorem plain_of_mem_segments {file s : String} (h : s ∈ segments (clean file)) : IsPlain s := by
  rw [segments_clean] at h
  obtain ⟨⟨-, hdot⟩, hslash⟩ := of_mem_segments h
  refine ⟨hdot, hslash, fun hback => ?_⟩
  exact backslash_not_mem_slashed file (mem_of_mem_segments h hback)

/-! ## A file for a pattern -/

/-- the texts as a path, with a single dot at each end of it -/
def fenced (texts : List String) : String :=
  joined '/' ("." :: texts ++ ["."])

variable {texts : List String}

theorem segments_fenced (hsome : ∀ s ∈ texts, s ≠ "") (hplain : ∀ s ∈ texts, IsPlain s) :
    segments (fenced texts) = texts := by
  have hslash : ∀ s ∈ "." :: texts ++ ["."], '/' ∉ s.toList := by
    simp only [List.cons_append, List.forall_mem_cons, List.forall_mem_append]
    exact ⟨by decide, fun s hs => (hplain s hs).2.1, by decide, by simp⟩
  have hkept : (texts.filter fun s => s ≠ "" ∧ s ≠ ".") = texts :=
    List.filter_eq_self.mpr fun s hs => decide_eq_true ⟨hsome s hs, (hplain s hs).1⟩
  rw [segments, fenced, splitAt_joined hslash, if_neg (List.append_ne_nil_of_left_ne_nil (List.cons_ne_nil _ _) _),
    List.filter_append, List.filter_cons_of_neg (by decide), hkept]
  exact List.append_nil texts

/-- between the dots nothing is taken off and nothing is replaced -/
theorem slashed_fenced (hplain : ∀ s ∈ texts, IsPlain s) : slashed (fenced texts) = fenced texts := by
  have hback : '\\' ∉ (fenced texts).toList := by
    intro h
    rcases mem_joined h with hslash | ⟨s, hs, hc⟩
    · exact absurd hslash (by decide)
    · simp only [List.cons_append, List.mem_cons, List.mem_append, List.mem_nil_iff, or_false] at hs
      rcases hs with rfl | hs | rfl
      · exact absurd hc (by decide)
      · exact (hplain s hs).2.2 hc
      · exact absurd hc (by decide)
  have hdot : ∀ c ∈ (some '.' : Option Char), isBlank c = false := by
    rintro c ⟨⟩
    decide
  have hlastText : ("." :: texts ++ ["."]).getLast? = some "." := List.getLast?_concat
  obtain ⟨hhead, hlast⟩ := @ends_joined '/' ("." :: texts ++ ["."]) (by simp) (by rw [hlastText]; simp)
  rw [hlastText] at hlast
  rw [slashed_eq_trim hback, trim_eq_self_iff, fenced, hhead, hlast]
  exact ⟨hdot, hdot⟩

/-! ## Live rules -/

/-- the rule matches the clean path of some changed file -/
def Rule.Live (r : Rule) : Prop :=
  ∃ file, ∃ path ∈ cleanAll [file], covers r.segments (ChangeImpact.segments path) = true

theorem covers_self (p : List String) : covers p p = true :=
  covers_iff.mpr fun _ s hs => ⟨s, hs, .inr rfl⟩

theorem live_iff {r : Rule} (hne : r.segments ≠ []) (hsome : ∀ s ∈ r.segments, s ≠ "") :
    r.Live ↔ ∀ s ∈ r.segments, IsPlain s := by
  constructor
  · intro hlive s hs
    obtain ⟨file, path, hpath, hcovers⟩ := hlive
    obtain ⟨-, rfl⟩ := mem_cleanAll_singleton.mp hpath
    obtain ⟨i, hi⟩ := List.getElem?_of_mem hs
    obtain ⟨u, hu, hfits⟩ := covers_iff.mp hcovers i s hi
    rcases hfits with rfl | rfl
    · exact isPlain_wildcard
    · exact plain_of_mem_segments (List.mem_of_getElem? hu)
  · intro hplain
    have hsegments : segments (slashed (fenced r.segments)) = r.segments := by
      rw [slashed_fenced hplain, segments_fenced hsome hplain]
    refine ⟨fenced r.segments, clean (fenced r.segments), mem_cleanAll_singleton.mpr ⟨?_, rfl⟩, ?_⟩
    · rw [Ne, clean_eq_empty_iff, hsegments]
      exact hne
    · rw [segments_clean, hsegments]
      exact covers_self r.segments

/-! ## Accepted rules -/

theorem namesValue_segments {w : Value} (h : Tables.ruleShape.Fits w) :
    namesValue (Tables.readRule w).segments = Tables.fieldOf w "path" := by
  have hpath : (Shape.list true .segment).Fits (Tables.fieldOf w "path") := Tables.fits_required h (by simp)
  rw [Tables.readRule]
  generalize Tables.fieldOf w "path" = path at hpath
  cases hpath with
  | list _ each =>
    rw [namesValue, Tables.itemsOf, List.map_map]
    refine congrArg Value.array ((List.map_congr_left fun item hitem => ?_).trans (List.map_id _))
    cases each item hitem with
    | segment => rfl

namespace Model

variable {v : Value} {m : Model}

/-- with the other parts of an accepted model all rules are accepted that have segments, none of them empty, and are for a
known project -/
theorem ofValue_listing_with_rules (h : ofValue v = .ok m) {rules : List Rule} :
    ofValue ({ m with rules } : Model).listing.toValue = .ok { m with rules } ↔
      ∀ r ∈ rules, (r.segments ≠ [] ∧ ∀ s ∈ r.segments, s ≠ "") ∧ m.Known r.project := by
  constructor
  · intro haccepted r hr
    obtain ⟨-, -, hsound⟩ := ofValue_eq_ok_iff_sound.mp haccepted
    exact ⟨segments_of_ofValue haccepted hr, hsound.rules r hr⟩
  · intro hrules
    obtain ⟨hfits, rfl, hsound⟩ := ofValue_eq_ok_iff_sound.mp h
    have hlists := lists_listing { ofTables (Tables.ofValue v) with rules }
    have hmodel := ofTables_of_lists hlists
    have hwritten := Tables.legible_ofValue hfits
    -- the texts are those that were read, but for the rules
    have hchanged : ({ Tables.ofValue v with rules } : Tables).Legible := by
      refine ⟨hwritten.projects, hwritten.names, fun n => ?_, hwritten.targets, fun r hr => (hrules r hr).1⟩
      have hkeys := hwritten.keys n
      cases n <;> exact hkeys
    have hknown := hsound.of_rules fun r hr => (hrules r hr).2
    have hl := legible_of_same hchanged hlists.toDistinctKeys hmodel.symm
    have hc := consistent_of_sound hlists.toDistinctKeys (hmodel.symm ▸ hknown)
    rw [ofValue_toValue hl hc, hmodel]

/-- **Whether a rule is live is decided by its text.** The rules of an accepted configuration have the patterns that are
written there, character by character. Such a rule matches the clean path of some changed file iff no segment of its pattern
is a single dot and none has a slash or a backslash in it. Acceptance does not depend on that: whatever segments the rules
have, if only there are some and none is empty, the configuration is accepted with these rules in place of its own. -/
theorem live_by_text (h : ofValue v = .ok m) :
    (m.rules.map fun r => namesValue r.segments) =
      (Tables.itemsOf (Tables.fieldOf v "meta_projects")).map (fun written => Tables.fieldOf written "path") ∧
    (∀ r ∈ m.rules, r.Live ↔ ∀ s ∈ r.segments, s ≠ "." ∧ '/' ∉ s.toList ∧ '\\' ∉ s.toList) ∧
    ∀ rules : List Rule,
      ofValue ({ m with rules } : Model).listing.toValue = .ok { m with rules } ↔
        ∀ r ∈ rules, (r.segments ≠ [] ∧ ∀ s ∈ r.segments, s ≠ "") ∧ m.Known r.project := by
  refine ⟨?_, fun r hr => ?_, fun rules => ofValue_listing_with_rules h⟩
  · obtain ⟨hfits, rfl, -⟩ := ofValue_eq_ok_iff_sound.mp h
    have hrules : Tables.fieldOf v "meta_projects" = .null ∨
        (Shape.list false Tables.ruleShape).Fits (Tables.fieldOf v "meta_projects") :=
      Tables.fits_optional hfits (by simp [Tables.fieldShapes])
    calc ((Tables.ofValue v).rules.map fun r => namesValue r.segments)
        = (Tables.itemsOf (Tables.fieldOf v "meta_projects")).map
            fun written => namesValue (Tables.readRule written).segments := List.map_map
      _ = _ := List.map_congr_left fun w hw => namesValue_segments (Tables.fits_of_mem_itemsOf hrules hw)
  · obtain ⟨hne, hsome⟩ := segments_of_ofValue h hr
    exact live_iff hne hsome

/-- with the bundled tables a rule for a path in one piece is accepted and dead, and one with blank characters is live -/
theorem live_by_text_spaced :
    let rules : List Rule := [⟨["clang/lib"], "clang"⟩, ⟨[" clang ", wildcard], "clang"⟩]
    ofValue ({ Bundled.model with rules } : Model).listing.toValue = .ok { Bundled.model with rules } ∧
      ¬ Rule.Live ⟨["clang/lib"], "clang"⟩ ∧ Rule.Live ⟨[" clang ", wildcard], "clang"⟩ := by
  intro rules
  have hclang : Bundled.model.Known "clang" := known_ofTables.mpr (.inl (by decide))
  obtain ⟨-, -, hacceptable⟩ := live_by_text ofValue_bundled
  have hrules : ∀ r ∈ rules, (r.segments ≠ [] ∧ ∀ s ∈ r.segments, s ≠ "") ∧ Bundled.model.Known r.project := by
    simp only [rules, List.forall_mem_cons]
    exact ⟨⟨by decide, hclang⟩, ⟨by decide, hclang⟩, nofun⟩
  have haccepted := (hacceptable rules).mpr hrules
  obtain ⟨-, hlive, -⟩ := live_by_text haccepted
  refine ⟨haccepted, fun h => ?_, ?_⟩
  · obtain ⟨-, hslash, -⟩ := (hlive _ List.mem_cons_self).mp h "clang/lib" List.mem_cons_self
    exact hslash (by decide)
  · refine (hlive _ (List.mem_cons_of_mem _ List.mem_cons_self)).mpr ?_
    decide

end Model

end ChangeImpact
