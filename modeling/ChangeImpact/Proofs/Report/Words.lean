/-
Failures that are put into words, and those that cannot be.

The title, the message, the hint and the next step of a report come from texts that were given, without what is blank at
their ends, or else from texts that are always the same; so none of them is blank, and neither is the name of an error or the
text of its cause. What can be in the way of a report is a value that has no text at all: an object with a field of its own
where the text is made, unless it brings a message, or an array that holds such an object at any depth. The lines for everyone
need the text of the failure only, those in detail that of its cause as well.

Results:
- `hasText_eq_false_iff`, `tells_eq_false_iff`: the values and failures without a text.
- `tellable_eq_false_iff`: the failures that cannot be reported.
- `report_worded`: the texts of a report that are not blank.
-/
import ChangeImpact.Failure
import ChangeImpact.Proofs.Text.Joined
import ChangeImpact.Proofs.Text.Trimmed

namespace ChangeImpact

open Text

/-! ## Values without a text -/

/-- a value that has no text -/
inductive Value.Textless : Value → Prop
  /-- an object has a field of its own where its text is made -/
  | object {fields : List (String × Value)} (h : fields.lookup "toString" ≠ none) : Textless (.object fields)
  /-- an array has no text without those of its items -/
  | array {items : List Value} {v : Value} (hv : v ∈ items) (h : v.Textless) : Textless (.array items)

-- over the recursion through items: lists of values are the second thing that is recursed on
theorem Value.hasText_eq_false_iff (v : Value) : v.hasText = false ↔ v.Textless := by
  refine hasText.induct (fun v => v.hasText = false ↔ v.Textless)
    (fun items => itemsHaveText items = false ↔ ∃ v ∈ items, v.Textless) ?array ?object ⟨nofun, nofun⟩ (fun _ => ⟨nofun, nofun⟩)
    (fun _ => ⟨nofun, nofun⟩) (fun _ => ⟨nofun, nofun⟩) ?nil ?cons v
  case array =>
    intro items ih
    rw [hasText, ih]
    constructor
    · rintro ⟨v, hv, h⟩
      exact .array hv h
    · rintro (_ | ⟨hv, h⟩)
      exact ⟨_, hv, h⟩
  case object =>
    intro fields
    rw [hasText, Option.isNone_eq_false_iff, Option.isSome_iff_ne_none]
    constructor
    · exact .object
    · rintro (h | _)
      exact h
  case nil => simp [itemsHaveText]
  case cons =>
    intro v rest ihv ihrest
    rw [itemsHaveText, Bool.and_eq_false_iff, ihv, ihrest]
    simp

namespace Failure

/-- a failure without a text that says what went wrong -/
inductive Wordless : Failure → Prop
  | array {items : List Value} (h : (Value.array items).Textless) : Wordless (.value (.array items))
  /-- an object that brings a message needs no other text -/
  | object {fields : List (String × Value)} (h : (Value.object fields).Textless)
      (hmessage : ∀ s, fields.lookup "message" = some (.string s) → trim s = "") : Wordless (.value (.object fields))

theorem valueTells_object_eq_false_iff {fields : List (String × Value)} :
    valueTells (.object fields) = false ↔
      (Value.object fields).Textless ∧ ∀ s, fields.lookup "message" = some (.string s) → trim s = "" := by
  rw [valueTells, ← Value.hasText_eq_false_iff]
  split
  · next s hs =>
    rw [Bool.or_eq_false_iff, Option.isSome_eq_false_iff, Option.isNone_iff_eq_none, present?_eq_none_iff, and_comm, hs]
    refine and_congr_right' ⟨?_, fun h => h s rfl⟩
    rintro h t ht
    obtain rfl := Value.string.inj (Option.some.inj ht)
    exact h
  · next hother =>
    refine ⟨fun h => ⟨h, fun s hs => absurd hs (hother s)⟩, And.left⟩

theorem tells_eq_false_iff (f : Failure) : f.tells = false ↔ f.Wordless := by
  constructor
  · intro h
    cases f with
    | nothing => cases h
    | error => cases h
    | value v =>
      cases v with
      | array items => exact .array ((Value.hasText_eq_false_iff _).mp h)
      | object fields =>
        obtain ⟨htext, hmessage⟩ := valueTells_object_eq_false_iff.mp h
        exact .object htext hmessage
      | null | bool _ | number _ | string _ => cases h
  · rintro (h | ⟨h, hmessage⟩)
    · exact (Value.hasText_eq_false_iff _).mpr h
    · exact valueTells_object_eq_false_iff.mpr ⟨h, hmessage⟩

/-- the lines of a failure need a text that is not there: its own, or in detail that of its cause -/
def Untold (f : Failure) (detail : Detail) : Prop :=
  f.Wordless ∨ detail = .debug ∧ ∃ cause, f.report.cause = some cause ∧ cause.Wordless

theorem tellable_eq_false_iff (f : Failure) (detail : Detail) : f.tellable detail = false ↔ f.Untold detail := by
  rw [tellable, Bool.and_eq_false_iff, Bool.or_eq_false_iff, decide_eq_false_iff_not, tells_eq_false_iff, Untold]
  have hdetail : ¬ detail = .short ↔ detail = .debug := by
    cases detail <;> decide
  rw [hdetail]
  refine or_congr_right (and_congr_right' ?_)
  cases f.report.cause with
  | none => simp
  | some cause => simp [tells_eq_false_iff]

end Failure

/-! ## Texts that are not blank -/

/-- a report of which no text is blank that a line is made of for everyone -/
structure Report.Worded (r : Report) : Prop where
  title : trim r.title ≠ ""
  message : trim r.message ≠ ""
  hint : ∀ s, r.hint = some s → trim s ≠ ""
  next : ∀ s, r.next = some s → trim s ≠ ""

namespace Failure

theorem trim_getD_ne_empty {s : Option String} {other : String} (hs : ∀ t, s = some t → trim t ≠ "") (h : trim other ≠ "") :
    trim (s.getD other) ≠ "" := by
  cases s with
  | none => exact h
  | some t => exact hs t rfl

theorem trim_unknownMessage : trim unknownMessage ≠ "" := by decide

theorem trim_unknownTitle : trim unknownTitle ≠ "" := by decide

/-- a report that only says that something is wrong, and what, if that is known -/
theorem worded_plain {code title : String} {message : Option String} {cause : Option Failure} (htitle : trim title ≠ "")
    (hmessage : ∀ t, message = some t → trim t ≠ "") :
    Report.Worded ⟨code, title, message.getD unknownMessage, none, none, cause⟩ :=
  ⟨htitle, trim_getD_ne_empty hmessage trim_unknownMessage, nofun, nofun⟩

theorem report_worded (f : Failure) : f.report.Worded := by
  have hgiven : ∀ s t, present? s = some t → trim t ≠ "" := fun _ _ h => trim_ne_empty_of_present h
  cases f with
  | nothing => exact ⟨trim_unknownTitle, trim_unknownMessage, nofun, nofun⟩
  | value v =>
    cases v with
    | null => exact ⟨trim_unknownTitle, trim_unknownMessage, nofun, nofun⟩
    | bool _ | number _ | string _ | array _ | object _ => exact worded_plain trim_unknownTitle (hgiven _)
  | error kind name message stack cause =>
    cases kind with
    | reported code title hint next =>
      have htitle : trim ((present? title).getD unknownTitle) ≠ "" := trim_getD_ne_empty (hgiven title) trim_unknownTitle
      have hmessage : trim ((present? message).getD unknownMessage) ≠ "" :=
        trim_getD_ne_empty (hgiven message) trim_unknownMessage
      rw [report]
      refine ⟨htitle, hmessage, ?_, ?_⟩
      · intro s hs
        obtain ⟨given, -, hs⟩ := Option.bind_eq_some_iff.mp hs
        exact hgiven given s hs
      · intro s hs
        obtain ⟨given, -, hs⟩ := Option.bind_eq_some_iff.mp hs
        exact hgiven given s hs
    | tables details =>
      have htitle : trim "Selection config invalid." ≠ "" := by decide
      rw [report, intercalate_cons]
      exact ⟨htitle, trim_append_ne_empty (trim_getD_ne_empty (hgiven message) trim_unknownMessage) _, nofun, nofun⟩
    | git => exact worded_plain (by decide) (hgiven _)
    | other => exact worded_plain trim_unknownTitle (hgiven _)

theorem trim_name?_ne_empty {f : Failure} {name : String} (h : f.name? = some name) : trim name ≠ "" := by
  cases f with
  | error => exact trim_ne_empty_of_present h
  | nothing => cases h
  | value => cases h

theorem trim_causeText?_ne_empty {cause : Option Failure} {reported text : String} (h : causeText? cause reported = some text) :
    trim text ≠ "" := by
  unfold causeText? at h
  split at h
  · cases h
  · cases h
  · cases h
  · exact trim_ne_empty_of_present (Option.filter_eq_some_iff.mp h).1

end Failure

end ChangeImpact
