/-
Orders that a result does not depend on.

A scope is made of sets, and sets are listed in the order of their names. So neither the order of the
changed files nor that of the configuration shows in a result: not the order of a list of names, of the
rules or of a table's entries, and not how often a name, a rule or a file is repeated. What is told to a
log is worked out from the scope, and at the same times it is the same text.

Results:
- `ownersOf_of_rules`: the owners of a path depend on which rules there are.
- `scope_of_rules`: so does the scope, and on which files there are.
- `scope_of_reordered`: a reordered configuration with the same files has the same scope and the same log.
-/
import ChangeImpact.Selection.Scope
import ChangeImpact.Proofs.Selection.Owners
import ChangeImpact.Proofs.Tables.Reordered

namespace ChangeImpact

/-- what working out a scope tells a log whose clock stands still -/
def Scope.notices (s : Scope) (platform : String) (now : Number) : List Notice :=
  (s.events platform).map fun event => ⟨now, event, true⟩

namespace Model

section

variable {m : Model} {rules : List Rule} (h : ∀ r, r ∈ rules ↔ r ∈ m.rules)
include h

theorem ruledBy_of_rules (path : List String) : ruledBy path rules = ruledBy path m.rules := by
  ext x
  simp only [mem_ruledBy, h]

/-- the owners of a path depend on which rules there are and not on their order -/
theorem ownersOf_of_rules (path : List String) : ({ m with rules } : Model).ownersOf path = m.ownersOf path := by
  cases path with
  | nil => rfl
  | cons first rest => simp only [ownersOf_cons, ruledBy_of_rules h]

theorem touched_of_rules (paths : List String) : ({ m with rules } : Model).touched paths = m.touched paths := by
  ext x
  simp only [mem_touched, owners, ownersOf_of_rules h]

/-- the scope depends on which rules and which files there are -/
theorem scope_of_rules {files others : List String} (hfiles : ∀ f, f ∈ files ↔ f ∈ others) (platform : String) :
    ({ m with rules } : Model).scope others platform = m.scope files platform := by
  have hclean : cleanAll others = cleanAll files := by
    ext x
    simp only [mem_cleanAll, hfiles]
  simp only [scope, hclean, touched_of_rules h]
  rfl

end

/-- **Orders do not show.** Take an accepted configuration, and one that says the same in another order: its lists of names
with the same members, its rules the same rules, and its tables with the same entries, in another order only where no two
keys are the same name. It is accepted too, and for files that are the same as a set, on every platform, it gives the same
scope and the same log. -/
theorem scope_of_reordered {v w : Value} {m : Model} (hv : ofValue v = .ok m) (h : v.Reordered w) :
    ∃ other, ofValue w = .ok other ∧
      ∀ (files others : List String) (platform : String), (∀ f, f ∈ files ↔ f ∈ others) →
        other.scope others platform = m.scope files platform ∧
        ∀ (context : List (String × Value)) (text : String) (now : Number),
          writeNotices context text ((other.scope others platform).notices platform now) =
            writeNotices context text ((m.scope files platform).notices platform now) := by
  obtain ⟨rules, hrules, hw⟩ := ofValue_of_reordered hv h
  refine ⟨{ m with rules }, hw, fun files others platform hfiles => ?_⟩
  have hscope := scope_of_rules hrules hfiles platform
  exact ⟨hscope, fun context text now => by rw [hscope]⟩

/-- the documents of every project, which are skipped -/
def documents : Rule :=
  ⟨["*", "docs"], "docs"⟩

/-- a directory that belongs to a project of another name -/
def tools : Rule :=
  ⟨["tools"], "lld"⟩

/-- a configuration, and the same one written in another order -/
def configurations : Value × Value :=
  (.object
    [("projects", namesValue ["lld", "docs", " llvm "]),
     ("dependencies", nameListsValue [("lld ", ["llvm", "docs"]), ("docs", [])]),
     ("check_targets", .object [("lld", .string "check-lld"), ("llvm", .string "check-llvm")]),
     ("meta_projects", .array [documents.toValue, tools.toValue]),
     ("skip_projects", namesValue ["docs"])],
   .object
    [("projects", namesValue [" llvm ", "docs", "docs", "lld"]),
     ("meta_projects", .array [tools.toValue, documents.toValue]),
     ("dependencies", nameListsValue [("docs", []), ("lld ", ["docs", "llvm", "docs"])]),
     ("check_targets", .object [("llvm", .string "check-llvm"), ("lld", .string "check-lld")]),
     ("skip_projects", namesValue ["docs", "docs"])])

theorem scope_of_reordered_configurations :
    ∃ m other, ofValue configurations.1 = .ok m ∧ ofValue configurations.2 = .ok other ∧
      other.scope ["llvm/docs/a.rst", "tools/lld/a.cpp"] "Linux" =
        m.scope ["tools/lld/a.cpp", "llvm/docs/a.rst", "tools/lld/a.cpp"] "Linux" := by
  have hdependencies : (nameListsValue [("lld ", ["llvm", "docs"]), ("docs", [])]).Reordered
      (nameListsValue [("docs", []), ("lld ", ["docs", "llvm", "docs"])]) := by
    refine @Value.Reordered.entries _ [("lld ", namesValue ["docs", "llvm", "docs"]), ("docs", namesValue [])] _ rfl ?_ ?_
    · exact .cons (.names (by simp [or_comm])) (.cons (.refl _) .nil)
    · exact .inr ⟨by decide +kernel, .swap ..⟩
  have htargets : Value.Reordered (.object [("lld", .string "check-lld"), ("llvm", .string "check-llvm")])
      (.object [("llvm", .string "check-llvm"), ("lld", .string "check-lld")]) := by
    refine @Value.Reordered.entries _ _ _ rfl (.cons (.refl _) (.cons (.refl _) .nil)) ?_
    exact .inr ⟨by decide +kernel, .swap ..⟩
  have hreordered : configurations.1.Reordered configurations.2 := by
    refine @Value.Reordered.entries _
      [("projects", namesValue [" llvm ", "docs", "docs", "lld"]),
       ("dependencies", nameListsValue [("docs", []), ("lld ", ["docs", "llvm", "docs"])]),
       ("check_targets", .object [("llvm", .string "check-llvm"), ("lld", .string "check-lld")]),
       ("meta_projects", .array [tools.toValue, documents.toValue]),
       ("skip_projects", namesValue ["docs", "docs"])] _ rfl ?_ ?_
    · refine .cons (.names fun x => ?_) (.cons hdependencies (.cons htargets (.cons (.items fun v => ?_)
        (.cons (.names fun x => ?_) .nil))))
      · simp
        tauto
      · simp [or_comm]
      · simp
    · exact .inr ⟨by decide +kernel, .cons _ (.trans (.cons _ (.swap ..)) (.swap ..))⟩
  have hshape : Tables.shape.issues [] configurations.1 = [] := by decide +kernel
  have hnames : (Tables.ofValue configurations.1).offences = [] := by decide +kernel
  have haccepted : ofValue configurations.1 = .ok (ofTables (Tables.ofValue configurations.1)) :=
    ofValue_eq_ok_iff.mpr ⟨hshape, (Tables.offences_eq_nil_iff _).mp hnames, rfl⟩
  obtain ⟨other, hother, hsame⟩ := scope_of_reordered haccepted hreordered
  exact ⟨_, other, haccepted, hother, (hsame _ _ "Linux" (by simp [or_comm])).1⟩

end Model

end ChangeImpact
