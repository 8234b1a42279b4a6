/-
Pieces put together.

`joinPieces` puts one separator between each two neighbours. What can be said of the text from its pieces: which
characters it has, how it begins and ends, and that it is no longer when pieces are left out. Where the separator is a text of
its own, it stands in front of every piece but the first.

Results:
- `mem_joinPieces`: the characters of the pieces are in the text.
- `head?_joinPieces`, `getLast?_joinPieces`: the ends of the text are those of the first and the last piece.
- `length_joinPieces_le`: fewer pieces make no longer text.
- `intercalate_cons`: the first piece, and each other one behind a separator.
-/
import Mathlib.Data.List.Infix
import ChangeImpact.Text.Lines

namespace ChangeImpact.Text

variable {separator : Char} {ps qs : List (List Char)}

theorem joinPieces_cons (separator : Char) (p : List Char) (h : ps ≠ []) :
    joinPieces separator (p :: ps) = p ++ separator :: joinPieces separator ps := by
  cases ps with
  | nil => contradiction
  | cons q ps => rfl

theorem mem_joinPieces {p : List Char} {c : Char} (hp : p ∈ ps) (hc : c ∈ p) : c ∈ joinPieces separator ps := by
  induction ps with
  | nil => contradiction
  | cons q ps ih =>
    by_cases hnone : ps = []
    · subst hnone
      obtain rfl := List.mem_singleton.mp hp
      exact hc
    · rw [joinPieces_cons separator q hnone]
      rcases List.mem_cons.mp hp with rfl | hp
      · exact List.mem_append_left _ hc
      · exact List.mem_append_right _ (List.mem_cons_of_mem _ (ih hp))

/-! ## Ends -/

theorem head?_joinPieces (h : ∀ p ∈ ps.head?, p ≠ []) : (joinPieces separator ps).head? = ps.head?.bind List.head? := by
  cases ps with
  | nil => rfl
  | cons p ps =>
    have hp : p ≠ [] := h p rfl
    by_cases hnone : ps = []
    · rw [hnone]
      rfl
    · rw [joinPieces_cons separator p hnone, List.head?_append_of_ne_nil _ hp]
      rfl

theorem getLast?_joinPieces (h : ∀ p ∈ ps.getLast?, p ≠ []) :
    (joinPieces separator ps).getLast? = ps.getLast?.bind List.getLast? := by
  induction ps with
  | nil => rfl
  | cons p ps ih =>
    by_cases hnone : ps = []
    · rw [hnone]
      rfl
    · rw [List.getLast?_cons_of_ne_nil hnone] at h ⊢
      have hrest := ih h
      -- the rest ends as its last piece does, so it is not empty
      have hsome : joinPieces separator ps ≠ [] := by
        intro hempty
        have hlast : ps.getLast? = some (ps.getLast hnone) := List.getLast?_eq_some_getLast hnone
        rw [hempty, hlast, List.getLast?_nil, Option.bind_some, eq_comm, List.getLast?_eq_none_iff] at hrest
        exact h _ hlast hrest
      rw [joinPieces_cons separator p hnone, List.getLast?_append_of_ne_nil _ (List.cons_ne_nil _ _),
        List.getLast?_cons_of_ne_nil hsome, hrest]

/-! ## Length -/

theorem length_le_joinPieces_cons (separator : Char) (p : List Char) (ps : List (List Char)) :
    p.length ≤ (joinPieces separator (p :: ps)).length := by
  cases ps with
  | nil => exact le_rfl
  | cons q ps =>
    rw [joinPieces, List.length_append]
    exact Nat.le_add_right _ _

/-- fewer pieces make no longer text -/
theorem length_joinPieces_le (h : qs.Sublist ps) :
    (joinPieces separator qs).length ≤ (joinPieces separator ps).length := by
  induction h with
  | slnil => exact le_rfl
  | @cons qs ps p h ih =>
    by_cases hnone : ps = []
    · rw [hnone, List.sublist_nil] at h
      rw [h]
      exact Nat.zero_le _
    · rw [joinPieces_cons separator p hnone, List.length_append, List.length_cons]
      omega
  | @cons_cons qs ps p h ih =>
    by_cases hnone : qs = []
    · rw [hnone]
      exact length_le_joinPieces_cons separator p ps
    · have hsome : ps ≠ [] := by
        rintro rfl
        exact hnone (List.sublist_nil.mp h)
      rw [joinPieces_cons separator p hnone, joinPieces_cons separator p hsome]
      simp only [List.length_append, List.length_cons]
      omega

/-! ## Texts with a text between them -/

theorem intercalate_cons (separator first : String) (rest : List String) :
    separator.intercalate (first :: rest) = first ++ String.join (rest.map (separator ++ ·)) := by
  induction rest generalizing first with
  | nil => simp
  | cons s more ih =>
    rw [String.intercalate_cons_cons, ih, List.map_cons, String.join_cons]
    simp only [String.append_assoc]

end ChangeImpact.Text
