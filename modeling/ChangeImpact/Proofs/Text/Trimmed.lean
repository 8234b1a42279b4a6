/-
Texts that trimming leaves as they are.

`strip` takes the blank characters off the beginning and then those off the end, each in a recursion of its own. What
comes out is a part of the text, and it is the whole text iff the first character is not blank and neither is the last.
Nothing is left only of a text that is blank all over.

Results:
- `strip_sublist`: no character is added or moved.
- `strip_eq_self_iff`: the texts that stay as they are.
- `isBlank_of_strip_eq_nil`, `trim_append_ne_empty`: the texts of which nothing is left, and those of which something is.
-/
import Mathlib.Data.List.TakeWhile
import ChangeImpact.Text.Blank

namespace ChangeImpact.Text

variable {cs : List Char}

theorem stripEnd_sublist (cs : List Char) : (stripEnd cs).Sublist cs := by
  induction cs with
  | nil => exact .slnil
  | cons c cs ih =>
    by_cases hkept : stripEnd cs = []
    · cases hb : isBlank c <;> simp [stripEnd, hkept, hb]
    · rw [stripEnd_cons_of_kept c hkept]
      exact ih.cons_cons c

theorem strip_sublist (cs : List Char) : (strip cs).Sublist cs :=
  (stripEnd_sublist _).trans (List.dropWhile_sublist _)

/-! ## Texts that stay as they are -/

theorem dropWhile_eq_self_iff : cs.dropWhile isBlank = cs ↔ ∀ c ∈ cs.head?, isBlank c = false := by
  rw [List.dropWhile_eq_self_iff]
  cases cs <;> simp

theorem stripEnd_eq_self_iff : stripEnd cs = cs ↔ ∀ c ∈ cs.getLast?, isBlank c = false := by
  induction cs with
  | nil => simp [stripEnd]
  | cons c cs ih =>
    by_cases hkept : stripEnd cs = []
    · cases cs with
      | nil => cases hb : isBlank c <;> simp [stripEnd, hb]
      | cons d ds =>
        rw [List.getLast?_cons_cons, ← ih, stripEnd, hkept]
        cases hb : isBlank c <;> simp
    · have hsome : cs ≠ [] := by
        rintro rfl
        exact hkept rfl
      rw [stripEnd_cons_of_kept c hkept, List.cons_inj_right, ih, List.getLast?_cons_of_ne_nil hsome]

/-- a text stays as it is iff it neither begins nor ends with a blank character -/
theorem strip_eq_self_iff :
    strip cs = cs ↔ (∀ c ∈ cs.head?, isBlank c = false) ∧ ∀ c ∈ cs.getLast?, isBlank c = false := by
  rw [← dropWhile_eq_self_iff, ← stripEnd_eq_self_iff]
  constructor
  · intro h
    -- what is left at the end is no longer than what is left after the first step
    have hback : cs.length ≤ (cs.dropWhile isBlank).length := by
      calc cs.length = (strip cs).length := by rw [h]
        _ ≤ (cs.dropWhile isBlank).length := (stripEnd_sublist _).length_le
    have hfront : cs.dropWhile isBlank = cs := (List.dropWhile_sublist isBlank).eq_of_length_le hback
    rw [strip, hfront] at h
    exact ⟨hfront, h⟩
  · rintro ⟨hfront, hend⟩
    rw [strip, hfront, hend]

/-! ## Texts that are blank all over -/

theorem stripEnd_eq_nil_iff : stripEnd cs = [] ↔ ∀ c ∈ cs, isBlank c = true := by
  induction cs with
  | nil => simp [stripEnd]
  | cons c cs ih =>
    rw [List.forall_mem_cons, ← ih]
    by_cases hkept : stripEnd cs = []
    · cases hb : isBlank c <;> simp [stripEnd, hkept, hb]
    · simp [stripEnd_cons_of_kept c hkept, hkept]

theorem isBlank_of_strip_eq_nil (h : strip cs = []) : ∀ c ∈ cs, isBlank c = true := by
  intro c hc
  rw [← List.takeWhile_append_dropWhile (p := isBlank) (l := cs)] at hc
  rcases List.mem_append.mp hc with hfront | hrest
  · exact List.mem_takeWhile_imp hfront
  · exact stripEnd_eq_nil_iff.mp h c hrest

theorem strip_eq_nil_iff : strip cs = [] ↔ ∀ c ∈ cs, isBlank c = true := by
  refine ⟨isBlank_of_strip_eq_nil, fun h => ?_⟩
  rw [strip, stripEnd_eq_nil_iff]
  intro c hc
  exact h c ((List.dropWhile_sublist _).subset hc)

theorem trim_eq_empty_iff {s : String} : trim s = "" ↔ ∀ c ∈ s.toList, isBlank c = true := by
  rw [← strip_eq_nil_iff, trim, ← String.toList_inj, String.toList_ofList]
  rfl

/-- a text that is not blank stays so when something is put behind it -/
theorem trim_append_ne_empty {s : String} (h : trim s ≠ "") (t : String) : trim (s ++ t) ≠ "" := by
  intro hblank
  rw [trim_eq_empty_iff, String.toList_append] at hblank
  exact h (trim_eq_empty_iff.mpr fun c hc => hblank c (List.mem_append_left _ hc))

theorem present?_eq_none_iff {s : String} : present? s = none ↔ trim s = "" := by
  rw [present?, ite_eq_left_iff, ← String.isEmpty_iff]
  simp

/-- what is left of a text that is not blank is not blank -/
theorem trim_ne_empty_of_present {s t : String} (h : present? s = some t) : trim t ≠ "" := by
  obtain ⟨hsome, htrim⟩ := present?_eq_some_iff.mp h
  rw [← htrim, trim_trim, htrim]
  exact hsome

end ChangeImpact.Text
