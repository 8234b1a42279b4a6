/-
An environment can be read back.

A name list is split at its semicolons into the members of its set, and a target list at its spaces into the targets of
those members that have one. Both are in the order of the names, which is that of their code units: the targets stand in
the places of their names, not in an order of their own. A set of names comes with no order. Here it is given as a list in
which names stand in any order and any number of times (`Selection.ofLists`), and the environment depends on which names
there are.

Reading back needs names without semicolons and targets without spaces, and none of them empty (`Printable`). An empty name
alone would be printed as the empty text, which is how the empty set is printed.

Results:
- `Ordered.unique`: names in order are determined by which names they are.
- `readsAs_joined`, `ReadsAs.unique`: printable texts are read back, and nothing else is.
- `namesIn_listed`, `targetsIn_joined`: the lists of an environment.
- `ofList_eq_of_listed_eq`: sets that are printed alike are equal.
- `Selection.ofLists_names`: every selection is given by lists.
- `rendering_decodes`: all lists of an environment, in whatever order the sets are given.
-/
import ChangeImpact.Proofs.Selection.Union
import ChangeImpact.Proofs.Text.Joined

namespace ChangeImpact

open ChangeImpact.Text

/-! ## Names in order -/

/-- names in the order of their code units, each once: those with a property -/
structure Ordered (names : List String) (among : String → Prop) : Prop where
  ascending : names.Pairwise fun x y => units x < units y
  mem_iff : ∀ x, x ∈ names ↔ among x

theorem Ordered.unique {names others : List String} {among : String → Prop} (h : Ordered names among)
    (ho : Ordered others among) : names = others := by
  let s : NameSet := ⟨names, h.ascending.imp before_iff.mpr⟩
  let t : NameSet := ⟨others, ho.ascending.imp before_iff.mpr⟩
  have hst : s = t := NameSet.ext fun x => (h.mem_iff x).trans (ho.mem_iff x).symm
  exact congrArg NameSet.names hst

theorem NameSet.ordered (s : NameSet) : Ordered s.names (· ∈ s) :=
  ⟨s.ascending.imp before_iff.mp, fun _ => Iff.rfl⟩

theorem NameSet.ordered_filter (s : NameSet) (keep : String → Bool) :
    Ordered (s.names.filter keep) fun x => x ∈ s ∧ keep x = true :=
  ⟨(s.ascending.filter keep).imp before_iff.mp, fun _ => List.mem_filter⟩

/-! ## Printed lists -/

/-- texts that can be told apart when they stand between separators -/
def Printable (separator : Char) (texts : List String) : Prop :=
  ∀ t ∈ texts, t ≠ "" ∧ separator ∉ t.toList

instance (separator : Char) (texts : List String) : Decidable (Printable separator texts) :=
  inferInstanceAs (Decidable (∀ t ∈ texts, t ≠ "" ∧ separator ∉ t.toList))

/-- what a text is split into at its separators, where the empty text stands for no texts at all -/
structure ReadsAs (separator : Char) (text : String) (texts : List String) : Prop where
  pieces : splitAt separator text = if texts = [] then [""] else texts
  empty_iff : text = "" ↔ texts = []

theorem ReadsAs.unique {separator : Char} {text : String} {texts others : List String} (h : ReadsAs separator text texts)
    (ho : ReadsAs separator text others) : texts = others := by
  by_cases hempty : text = ""
  · rw [h.empty_iff.mp hempty, ho.empty_iff.mp hempty]
  · have htexts : splitAt separator text = texts := h.pieces.trans (if_neg (hempty ∘ h.empty_iff.mpr))
    have hothers : splitAt separator text = others := ho.pieces.trans (if_neg (hempty ∘ ho.empty_iff.mpr))
    exact htexts.symm.trans hothers

theorem joined_eq_empty_iff {separator : Char} {texts : List String} (h : ∀ t ∈ texts, t ≠ "") :
    joined separator texts = "" ↔ texts = [] := by
  constructor
  · intro hempty
    refine List.eq_nil_iff_forall_not_mem.mpr fun t ht => ?_
    -- a character of one text is a character of the whole
    obtain ⟨c, hc⟩ := List.exists_mem_of_ne_nil t.toList (mt String.toList_eq_nil_iff.mp (h t ht))
    have hwhole : c ∈ (joined separator texts).toList := by
      rw [joined, String.toList_ofList]
      exact mem_joinPieces (List.mem_map_of_mem ht) hc
    rw [hempty] at hwhole
    exact absurd hwhole List.not_mem_nil
  · rintro rfl
    rfl

theorem readsAs_joined {separator : Char} {texts : List String} (h : Printable separator texts) :
    ReadsAs separator (joined separator texts) texts :=
  ⟨splitAt_joined fun t ht => (h t ht).2, joined_eq_empty_iff fun t ht => (h t ht).1⟩

/-! ## Names and their targets -/

/-- a text that lists names: those of a list, each once, in the order of their code units -/
def NamesIn (text : String) (members : List String) : Prop :=
  ∃ names, Ordered names (· ∈ members) ∧ ReadsAs ';' text names

/-- a text that lists targets: one for each name of a list that has one, in the order of the names' code units -/
def TargetsIn (targets : Table String) (text : String) (members : List String) : Prop :=
  ∃ names found, Ordered names (fun x => x ∈ members ∧ (targets.get? x).isSome = true) ∧
    List.Forall₂ (fun x t => targets.get? x = some t) names found ∧ ReadsAs ' ' text found

variable {targets : Table String} {members : List String}

theorem namesIn_listed (h : Printable ';' members) : NamesIn (listed (.ofList members)) members := by
  refine ⟨(NameSet.ofList members).names, ?_, readsAs_joined fun x hx => h x (NameSet.mem_ofList.mp hx)⟩
  simpa only [NameSet.mem_ofList] using NameSet.ordered (.ofList members)

/-- names that are read from one text are the same names -/
theorem NamesIn.mem_iff {text : String} {others : List String} (h : NamesIn text members) (ho : NamesIn text others)
    (x : String) : x ∈ members ↔ x ∈ others := by
  obtain ⟨names, hordered, hreads⟩ := h
  obtain ⟨names', hordered', hreads'⟩ := ho
  obtain rfl := hreads.unique hreads'
  exact (hordered.mem_iff x).symm.trans (hordered'.mem_iff x)

/-- sets that are printed alike are equal -/
theorem ofList_eq_of_listed_eq {others : List String} (h : Printable ';' members) (ho : Printable ';' others)
    (heq : listed (.ofList members) = listed (.ofList others)) : NameSet.ofList members = NameSet.ofList others := by
  have hmembers : NamesIn (listed (.ofList others)) members := by
    rw [← heq]
    exact namesIn_listed h
  ext x
  rw [NameSet.mem_ofList, NameSet.mem_ofList]
  exact hmembers.mem_iff (namesIn_listed ho) x

/-- the proviso is needed: two names are printed as one name is that has a semicolon -/
example : listed ⟨["clang", "lld"], by decide⟩ = listed ⟨["clang;lld"], by decide⟩ := by decide

/-- what is found under some keys, key by key -/
theorem forall₂_filterMap {α β : Type} (f : α → Option β) (keys : List α) :
    List.Forall₂ (fun x t => f x = some t) (keys.filter fun x => (f x).isSome) (keys.filterMap f) := by
  induction keys with
  | nil => exact .nil
  | cons x keys ih =>
    cases hx : f x with
    | none =>
      rw [List.filterMap_cons_none hx, List.filter_cons_of_neg (by simp [hx])]
      exact ih
    | some t =>
      rw [List.filterMap_cons_some hx, List.filter_cons_of_pos (by simp [hx])]
      exact .cons hx ih

theorem targetsIn_joined (h : Printable ' ' (members.filterMap targets.get?)) :
    TargetsIn targets (joined ' ' (targetsOf targets (.ofList members))) members := by
  refine ⟨_, targetsOf targets (.ofList members), ?_, forall₂_filterMap targets.get? _, readsAs_joined fun t ht => h t ?_⟩
  · simpa only [NameSet.mem_ofList] using NameSet.ordered_filter (.ofList members) fun x => (targets.get? x).isSome
  · obtain ⟨x, hx, hxt⟩ := List.mem_filterMap.mp ht
    exact List.mem_filterMap.mpr ⟨x, NameSet.mem_ofList.mp hx, hxt⟩

/-! ## Selections -/

/-- a selection whose sets are given as lists, in which names stand in any order and any number of times -/
def Selection.ofLists (lists : Part → List String) (sentinel : Bool) : Selection where
  tested := .ofList (lists .tested)
  built := .ofList (lists .built)
  runtimesTested := .ofList (lists .runtimesTested)
  runtimesReconfigured := .ofList (lists .runtimesReconfigured)
  runtimesBuilt := .ofList (lists .runtimesBuilt)
  sentinel := sentinel

theorem Selection.part_ofLists (lists : Part → List String) (sentinel : Bool) (p : Part) :
    (Selection.ofLists lists sentinel).part p = .ofList (lists p) := by
  cases p <;> rfl

/-- every selection is given by lists -/
theorem Selection.ofLists_names (s : Selection) : Selection.ofLists (fun p => (s.part p).names) s.sentinel = s := by
  refine Selection.ext_parts (fun p => ?_) rfl
  rw [Selection.part_ofLists, NameSet.ofList_names]

theorem Selection.ofLists_congr {lists others : Part → List String} (h : ∀ p x, x ∈ lists p ↔ x ∈ others p)
    (sentinel : Bool) : Selection.ofLists lists sentinel = Selection.ofLists others sentinel := by
  refine Selection.ext_parts (fun p => ?_) rfl
  rw [Selection.part_ofLists, Selection.part_ofLists]
  ext x
  rw [NameSet.mem_ofList, NameSet.mem_ofList, h p x]

/-- **The lists of an environment can be read back.** For all targets and every selection, its sets given in any order: the
names to build are read back from their text, and so are the runtimes, when they are printable, and from each text of
targets, when these are printable, one target for each member that has one. The same members give the same environment in
whatever order they come, and printable names of two selections, under whatever targets, that are printed alike in both
lists are the same names. -/
theorem rendering_decodes (targets : Table String) (lists : Part → List String) (sentinel : Bool) :
    let s := Selection.ofLists lists sentinel
    let e := Environment.ofSelection targets s
    (Printable ';' (lists .built) → NamesIn e.built (lists .built)) ∧
    (Printable ';' (lists .runtimesBuilt) → NamesIn e.runtimesBuilt (lists .runtimesBuilt)) ∧
    (Printable ' ' ((lists .tested).filterMap targets.get?) → TargetsIn targets e.checkTargets (lists .tested)) ∧
    (Printable ' ' ((lists .runtimesTested).filterMap targets.get?) →
      TargetsIn targets e.runtimeTargets (lists .runtimesTested)) ∧
    (Printable ' ' ((lists .runtimesReconfigured).filterMap targets.get?) →
      TargetsIn targets e.reconfiguredTargets (lists .runtimesReconfigured)) ∧
    (∀ others : Part → List String, (∀ p x, x ∈ others p ↔ x ∈ lists p) →
      Environment.ofSelection targets (.ofLists others sentinel) = e) ∧
    (∀ (targets' : Table String) (others : Part → List String) (sentinel' : Bool),
      let s' := Selection.ofLists others sentinel'
      let e' := Environment.ofSelection targets' s'
      Printable ';' (lists .built) → Printable ';' (lists .runtimesBuilt) →
      Printable ';' (others .built) → Printable ';' (others .runtimesBuilt) →
      e'.built = e.built → e'.runtimesBuilt = e.runtimesBuilt →
      s'.built = s.built ∧ s'.runtimesBuilt = s.runtimesBuilt) := by
  refine ⟨namesIn_listed, namesIn_listed, targetsIn_joined, targetsIn_joined, targetsIn_joined, ?_, ?_⟩
  · intro others h
    rw [Selection.ofLists_congr h]
  · intro targets' others sentinel' s' e' hbuilt hruntimes hbuilt' hruntimes' heq heqr
    exact ⟨ofList_eq_of_listed_eq hbuilt' hbuilt heq, ofList_eq_of_listed_eq hruntimes' hruntimes heqr⟩

/-- a name above U+FFFF comes before one that has a lower code point, and the targets stand as their names do -/
theorem rendering_decodes_astral :
    let names := ["\uFFFD", "lit", String.singleton (Char.ofNat 0x1F600), "lit"]
    let targets : Table String := .ofEntries [("\uFFFD", "check-a"), (String.singleton (Char.ofNat 0x1F600), "check-b")]
    let e := Environment.ofSelection targets (.ofLists (fun _ => names) true)
    Printable ';' names ∧ splitAt ';' e.built = ["lit", String.singleton (Char.ofNat 0x1F600), "\uFFFD"] ∧
    Printable ' ' (names.filterMap targets.get?) ∧ splitAt ' ' e.checkTargets = ["check-b", "check-a"] := by
  intro names targets e
  have hget : ∀ x, targets.get? x = Table.lastUnder _ x := Table.get?_ofEntries _
  have hnames : Printable ';' names := by decide
  have htargets : Printable ' ' (names.filterMap targets.get?) := by
    rw [funext hget]
    decide
  obtain ⟨hbuilt, -, hchecks, -⟩ := rendering_decodes targets (fun _ => names) true
  refine ⟨hnames, ?_, htargets, ?_⟩
  · obtain ⟨found, hordered, hreads⟩ := hbuilt hnames
    have hfound : found = ["lit", String.singleton (Char.ofNat 0x1F600), "\uFFFD"] := by
      refine hordered.unique ⟨by decide, fun x => ?_⟩
      simp only [names, List.mem_cons, List.not_mem_nil, or_false]
      tauto
    rw [hreads.pieces, hfound, if_neg (by simp)]
  · obtain ⟨found, values, hordered, hvalues, hreads⟩ := hchecks htargets
    have hfound : found = [String.singleton (Char.ofNat 0x1F600), "\uFFFD"] := by
      refine hordered.unique ⟨by decide, fun x => ?_⟩
      simp only [hget]
      constructor
      · revert x
        decide
      · rintro ⟨hx, hsome⟩
        revert x
        decide
    subst hfound
    obtain _ | ⟨hfirst, _ | ⟨hsecond, _ | _⟩⟩ := hvalues
    rw [hget] at hfirst hsecond
    obtain rfl : _ = "check-b" := Option.some.inj (hfirst.symm.trans (by decide))
    obtain rfl : _ = "check-a" := Option.some.inj (hsecond.symm.trans (by decide))
    rw [hreads.pieces, if_neg (by simp)]

end ChangeImpact
