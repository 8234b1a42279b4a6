/-
What a shell reads from the printed settings.

`Shell.assignments?` reads a text as a shell does that takes a single quote to last until the next one:
a name, an equals sign, a quote, everything up to the next quote, and then the end of the line. Nothing
can be escaped inside the quotes, so a value with a quote ends too early (`untilQuote?_eq_some_iff` says
where). The settings are printed without looking at their values; that they can be read back depends on
where the values come from. Names of a selection are known names and targets are those of the tables, so
no character of a changed file gets into a setting.

Results:
- `assignments?_joined`: settings without quotes in their values are read back, whatever else is in them.
- `not_mem_listed`, `not_mem_targets`: a character that is in no name and in no target is in no setting.
- `scope_read_back`: the settings of every change under every accepted configuration without quotes.
-/
import ChangeImpact.Proofs.Selection.Excluded

namespace ChangeImpact

theorem toList_joined_cons (separator : Char) (t u : String) (texts : List String) :
    (joined separator (t :: u :: texts)).toList = t.toList ++ separator :: (joined separator (u :: texts)).toList := by
  simp [joined, Text.joinPieces]

/-! ## The reader -/

namespace Shell

/-- the single quote -/
def quote : Char := '\x27'

/-- a character that the name of a variable can have -/
def isNameCharacter (c : Char) : Bool :=
  c.isAlphanum || c = '_'

/-- the text in front of the next quote, and what comes after the quote -/
def untilQuote? : List Char → Option (List Char × List Char)
  | [] => none
  | c :: rest => if c = quote then some ([], rest) else (untilQuote? rest).map fun r => (c :: r.1, r.2)

/-- the assignment that a text begins with, and what comes after its closing quote -/
def assignment? (cs : List Char) : Option ((String × String) × List Char) :=
  match cs.dropWhile isNameCharacter with
  | '=' :: q :: rest =>
    if q = quote then
      (untilQuote? rest).map fun r => ((String.ofList (cs.takeWhile isNameCharacter), String.ofList r.1), r.2)
    else none
  | _ => none

theorem untilQuote?_eq_some_iff {cs value rest : List Char} :
    untilQuote? cs = some (value, rest) ↔ cs = value ++ quote :: rest ∧ quote ∉ value := by
  induction cs generalizing value with
  | nil => simp [untilQuote?]
  | cons c cs ih =>
    rw [untilQuote?]
    split
    · next hc =>
      subst hc
      cases value with
      | nil => simp [eq_comm]
      | cons v value => simp +contextual
    · next hc =>
      cases value with
      | nil => simp [hc]
      | cons v value =>
        simp only [Option.map_eq_some_iff, Prod.mk.injEq, Prod.exists, List.cons.injEq, List.cons_append, List.mem_cons,
          not_or]
        constructor
        · rintro ⟨w, r, hw, ⟨rfl, rfl⟩, rfl⟩
          obtain ⟨rfl, hq⟩ := ih.mp hw
          exact ⟨⟨rfl, rfl⟩, fun hv => hc hv.symm, hq⟩
        · rintro ⟨⟨rfl, rfl⟩, -, hq⟩
          exact ⟨value, rest, ih.mpr ⟨rfl, hq⟩, ⟨rfl, rfl⟩, rfl⟩

theorem assignment?_length {cs rest : List Char} {a : String × String} (h : assignment? cs = some (a, rest)) :
    rest.length < cs.length := by
  have hdrop : (cs.dropWhile isNameCharacter).length ≤ cs.length := (List.dropWhile_sublist _).length_le
  unfold assignment? at h
  split at h
  · next q after hafter =>
    split at h
    · obtain ⟨⟨value, r⟩, hr, hpair⟩ := Option.map_eq_some_iff.mp h
      obtain ⟨rfl, -⟩ := untilQuote?_eq_some_iff.mp hr
      obtain rfl : r = rest := (Prod.mk.inj hpair).2
      rw [hafter] at hdrop
      simp only [List.length_cons, List.length_append] at hdrop
      omega
    · contradiction
  · contradiction

/-- the assignments of a text, one on a line, and nothing besides them -/
def assignments? (cs : List Char) : Option (List (String × String)) :=
  match _h : assignment? cs with
  | none => none
  | some (a, []) => some [a]
  | some (a, c :: rest) => if c = '\n' then (assignments? rest).map (a :: ·) else none
termination_by cs.length
decreasing_by
  rename assignment? cs = _ => hread
  have hlength := assignment?_length hread
  simp only [List.length_cons] at hlength
  omega

/-! ## Reading what was written -/

theorem assignment?_assignment {name value : String} (hname : ∀ c ∈ name.toList, isNameCharacter c = true)
    (hvalue : quote ∉ value.toList) (rest : List Char) :
    assignment? ((Environment.assignment name value).toList ++ rest) = some ((name, value), rest) := by
  have hwritten : (Environment.assignment name value).toList ++ rest =
      name.toList ++ '=' :: quote :: (value.toList ++ quote :: rest) := by
    simp [Environment.assignment, quote]
  have hequals : isNameCharacter '=' = false := by decide
  have hread : untilQuote? (value.toList ++ quote :: rest) = some (value.toList, rest) :=
    untilQuote?_eq_some_iff.mpr ⟨rfl, hvalue⟩
  rw [hwritten, assignment?, List.dropWhile_append_of_pos hname, List.takeWhile_append_of_pos hname,
    List.dropWhile_cons_of_neg (by simp [hequals]), List.takeWhile_cons_of_neg (by simp [hequals])]
  simp only [if_true, hread, Option.map_some, List.append_nil, String.ofList_toList]

theorem assignments?_last {cs : List Char} {a : String × String} (h : assignment? cs = some (a, [])) :
    assignments? cs = some [a] := by
  rw [assignments?]
  split <;> simp_all

theorem assignments?_line {cs rest : List Char} {a : String × String} (h : assignment? cs = some (a, '\n' :: rest)) :
    assignments? cs = (assignments? rest).map (a :: ·) := by
  rw [assignments?]
  split <;> simp_all

/-- **Settings without quotes in their values are read back**, one by one and with nothing else, whatever other characters
the values have. -/
theorem assignments?_joined {settings : List (String × String)} (hne : settings ≠ [])
    (hnames : ∀ s ∈ settings, ∀ c ∈ s.1.toList, isNameCharacter c = true) (hvalues : ∀ s ∈ settings, quote ∉ s.2.toList) :
    assignments? (joined '\n' (settings.map fun s => Environment.assignment s.1 s.2)).toList = some settings := by
  induction settings with
  | nil => contradiction
  | cons s settings ih =>
    have hfirst := assignment?_assignment (hnames s List.mem_cons_self) (hvalues s List.mem_cons_self)
    cases settings with
    | nil =>
      refine assignments?_last ?_
      rw [← hfirst [], List.append_nil]
      simp [joined, Text.joinPieces]
    | cons t settings =>
      have hrest := ih (List.cons_ne_nil t settings) (fun u hu => hnames u (List.mem_cons_of_mem s hu))
        fun u hu => hvalues u (List.mem_cons_of_mem s hu)
      have hline := assignments?_line (hfirst ('\n' :: (joined '\n' ((t :: settings).map fun s =>
        Environment.assignment s.1 s.2)).toList))
      rw [hrest] at hline
      rw [List.map_cons, List.map_cons, toList_joined_cons]
      exact hline

/-- a quote in a value ends it, and what follows is read as a setting of its own -/
example : assignments? (Environment.assignment "a" "x'\nb='y").toList = some [("a", "x"), ("b", "y")] := by cbv

end Shell

/-! ## Where the values come from -/

theorem mem_joined {separator c : Char} {texts : List String} (h : c ∈ (joined separator texts).toList) :
    c = separator ∨ ∃ t ∈ texts, c ∈ t.toList := by
  induction texts with
  | nil => simp [joined, Text.joinPieces] at h
  | cons t texts ih =>
    cases texts with
    | nil =>
      have ht : c ∈ t.toList := by simpa [joined, Text.joinPieces] using h
      exact Or.inr ⟨t, List.mem_cons_self, ht⟩
    | cons u texts =>
      rw [toList_joined_cons] at h
      rcases List.mem_append.mp h with ht | hrest
      · exact Or.inr ⟨t, List.mem_cons_self, ht⟩
      · rcases List.mem_cons.mp hrest with hseparator | hrest
        · exact Or.inl hseparator
        · rcases ih hrest with hseparator | ⟨v, hv, hc⟩
          · exact Or.inl hseparator
          · exact Or.inr ⟨v, List.mem_cons_of_mem t hv, hc⟩

theorem not_mem_listed {c : Char} (hc : c ≠ ';') {s : NameSet} (h : ∀ x ∈ s, c ∉ x.toList) : c ∉ (listed s).toList := by
  intro hm
  rcases mem_joined hm with rfl | ⟨x, hx, hcx⟩
  · exact hc rfl
  · exact h x hx hcx

theorem not_mem_targets {c : Char} (hc : c ≠ ' ') {targets : Table String}
    (h : ∀ x target, targets.get? x = some target → c ∉ target.toList) (s : NameSet) :
    c ∉ (joined ' ' (targetsOf targets s)).toList := by
  intro hm
  rcases mem_joined hm with rfl | ⟨t, ht, hct⟩
  · exact hc rfl
  · obtain ⟨x, -, hx⟩ := Model.mem_targetsOf.mp ht
    exact h x t hx hct

namespace Model

open Shell

/-- no name and no check target of the model has a single quote -/
structure Unquoted (m : Model) : Prop where
  names : ∀ x, m.Known x → quote ∉ x.toList
  targets : ∀ x target, m.checkTargets.get? x = some target → quote ∉ target.toList

theorem unquoted_bundled : Bundled.model.Unquoted where
  names x hx := by
    have hnames : ∀ x ∈ Bundled.projects ++ Bundled.runtimes, quote ∉ x.toList := by decide
    exact hnames x (List.mem_append.mpr (known_ofTables.mp hx))
  targets x target ht := by
    have htargets : ∀ e ∈ Bundled.checkTargets, quote ∉ e.2.toList := by decide
    exact htargets _ (mem_checkTargets_bundled ht)

theorem quote_not_mem_settings {m : Model} (h : m.Consistent) (hm : m.Unquoted) (files : List String) (platform : String) :
    ∀ s ∈ (m.scope files platform).environment.settings, quote ∉ s.2.toList := by
  have hbuilt : quote ∉ (listed (m.scope files platform).selection.built).toList :=
    not_mem_listed (by decide) fun x hx => hm.names x (known_of_mem_built h hx)
  have hruntimes : quote ∉ (listed (m.scope files platform).selection.runtimesBuilt).toList :=
    not_mem_listed (by decide) fun x hx => hm.names x (Or.inr (runtimesBuilt_subset h _ _ x hx))
  have htargets : ∀ s : NameSet, quote ∉ (joined ' ' (targetsOf m.checkTargets s)).toList :=
    not_mem_targets (by decide) hm.targets
  have hsentinel : ∀ b : Bool, quote ∉ (if b then "ON" else "OFF").toList := by decide
  simp only [Environment.settings, List.forall_mem_cons]
  exact ⟨hbuilt, htargets _, hruntimes, htargets _, htargets _, hsentinel _, List.forall_mem_nil _⟩

/-- **Changed files cannot break out of the printed settings.** Under every accepted configuration without single quotes in
its names and targets, as the bundled tables are, for every change and platform: what a shell reads from the printed lines is
the six settings in their order, each with its value, and nothing else. -/
theorem scope_read_back :
    (∀ (v : Value) (m : Model), ofValue v = .ok m → m.Unquoted → ∀ (files : List String) (platform : String),
      let e := (m.scope files platform).environment
      assignments? (joined '\n' e.assignments).toList =
        some [("projects_to_build", e.built), ("project_check_targets", e.checkTargets),
          ("runtimes_to_build", e.runtimesBuilt), ("runtimes_check_targets", e.runtimeTargets),
          ("runtimes_check_targets_needs_reconfig", e.reconfiguredTargets), ("enable_cir", e.sentinel)]) ∧
    Bundled.model.Unquoted := by
  refine ⟨fun v m hv hm files platform => ?_, unquoted_bundled⟩
  have h : m.Consistent := consistent_of_ofValue hv
  intro e
  have hnames : ∀ s ∈ e.settings, s.1.toList.all isNameCharacter = true := by
    simp only [Environment.settings, List.forall_mem_cons]
    decide
  exact assignments?_joined (List.cons_ne_nil _ _) (fun s hs => List.all_eq_true.mp (hnames s hs))
    (quote_not_mem_settings h hm files platform)

/-- a file of the bundled tables' repository whose directory would end a quoted text and start a command -/
theorem scope_read_back_bundled :
    ofValue Bundled.tables.toValue = .ok Bundled.model ∧ Bundled.model.Unquoted ∧
    let e := (Bundled.model.scope ["clang/a.c", "x';touch y;'/b.c\nenable_cir='ON"] "Linux").environment
    assignments? (joined '\n' e.assignments).toList = some e.settings := by
  obtain ⟨hall, hbundled⟩ := scope_read_back
  exact ⟨ofValue_bundled, hbundled, hall _ _ ofValue_bundled hbundled _ _⟩

end Model

end ChangeImpact
