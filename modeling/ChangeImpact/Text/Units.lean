/-
The order of texts by UTF-16 code units.

`units` is the UTF-16 form of a text. Two texts are compared as their unit sequences are, which
differs from the order of code points in one place: a character above U+FFFF is written with units
from D800 to DFFF and so comes before the characters from U+E000 to U+FFFF. `rank` gives every
character its place in that order, and `Before` compares rank by rank. It is a strict order in which
any two different texts are comparable (`before_irrefl`, `before_trans`, `before_or_before`), and it
is the order of the unit sequences (`before_iff`).
-/

namespace ChangeImpact.Text

/-- the UTF-16 code units of a character -/
def charUnits (c : Char) : List Nat :=
  if c.toNat < 0x10000 then [c.toNat]
  else [0xD800 + (c.toNat - 0x10000) / 0x400, 0xDC00 + (c.toNat - 0x10000) % 0x400]

/-- the UTF-16 code units of a text -/
def units (s : String) : List Nat :=
  s.toList.flatMap charUnits

/-- the place of a character among all characters -/
def rank (c : Char) : Nat :=
  if c.toNat < 0xD800 then c.toNat
  else if c.toNat < 0x10000 then c.toNat + 0x100000
  else c.toNat - 0x10000 + 0xD800

def ranks (s : String) : List Nat :=
  s.toList.map rank

/-- the first text comes strictly before the second -/
def Before (a b : String) : Prop :=
  ranks a < ranks b

instance (a b : String) : Decidable (Before a b) :=
  inferInstanceAs (Decidable (ranks a < ranks b))

/-- the first text does not come after the second -/
def atMost (a b : String) : Bool :=
  !decide (Before b a)

/-- the code point of a character is no surrogate -/
theorem toNat_range (c : Char) : c.toNat < 0xD800 ∨ 0xDFFF < c.toNat ∧ c.toNat < 0x110000 := by
  have hc := c.valid
  simp only [UInt32.isValidChar, Nat.isValidChar] at hc
  exact hc

theorem rank_injective (c d : Char) (h : rank c = rank d) : c = d := by
  apply Char.toNat_inj.mp
  have hc := toNat_range c
  have hd := toNat_range d
  unfold rank at h
  repeat' split at h
  all_goals omega

theorem ranks_injective (a b : String) (h : ranks a = ranks b) : a = b := by
  apply String.toList_injective
  exact List.map_inj_right (fun c d => rank_injective c d) |>.mp h

theorem before_irrefl (a : String) : ¬ Before a a :=
  List.lt_irrefl _

theorem before_trans {a b c : String} (hab : Before a b) (hbc : Before b c) : Before a c :=
  List.lt_trans hab hbc

theorem before_or_before {a b : String} (h : a ≠ b) : Before a b ∨ Before b a := by
  by_cases hab : Before a b
  · exact .inl hab
  · by_cases hba : Before b a
    · exact .inr hba
    · exact absurd (ranks_injective _ _ (List.le_antisymm (List.not_lt.mp hba) (List.not_lt.mp hab))) h

theorem atMost_trans (a b c : String) (hab : atMost a b) (hbc : atMost b c) : atMost a c := by
  simp only [atMost, Bool.not_eq_true', decide_eq_false_iff_not] at *
  exact List.not_lt.mpr (List.le_trans (List.not_lt.mp hab) (List.not_lt.mp hbc))

theorem atMost_total (a b : String) : atMost a b || atMost b a := by
  simp only [atMost, Bool.or_eq_true, Bool.not_eq_true', decide_eq_false_iff_not]
  by_cases hab : Before a b
  · exact .inl (List.lt_asymm hab)
  · exact .inr hab

theorem before_of_atMost_of_ne {a b : String} (h : atMost a b) (hne : a ≠ b) : Before a b := by
  simp only [atMost, Bool.not_eq_true', decide_eq_false_iff_not] at h
  exact (before_or_before hne).resolve_right h

/-! ## The order of the units -/

/-- of two characters the one whose place is first has its units first, whatever follows them -/
theorem charUnits_append_lt {c d : Char} (h : rank c < rank d) (xs ys : List Nat) :
    charUnits c ++ xs < charUnits d ++ ys := by
  have hc := toNat_range c
  have hd := toNat_range d
  unfold rank at h
  unfold charUnits
  split
  · split
    all_goals
      refine List.cons_lt_cons_iff.mpr (.inl ?_)
      repeat' split at h
      all_goals omega
  · split
    · refine List.cons_lt_cons_iff.mpr (.inl ?_)
      repeat' split at h
      all_goals omega
    · have hcd : c.toNat < d.toNat := by
        repeat' split at h
        all_goals omega
      -- two pairs of surrogates: where the first ones are the same, the second ones decide
      have hfirst : (c.toNat - 0x10000) / 0x400 ≤ (d.toNat - 0x10000) / 0x400 :=
        Nat.div_le_div_right (by omega)
      rcases Nat.lt_or_eq_of_le hfirst with hlt | heq
      · exact List.cons_lt_cons_iff.mpr (.inl (by omega))
      · refine List.cons_lt_cons_iff.mpr (.inr ⟨by omega, ?_⟩)
        exact List.cons_lt_cons_iff.mpr (.inl (by omega))

theorem flatMap_charUnits_lt {cs ds : List Char} (h : cs.map rank < ds.map rank) :
    cs.flatMap charUnits < ds.flatMap charUnits := by
  induction cs generalizing ds with
  | nil =>
    cases ds with
    | nil => exact absurd h (List.not_lt_nil _)
    | cons d ds =>
      rw [List.flatMap_cons, charUnits]
      split <;> exact List.nil_lt_cons _ _
  | cons c cs ih =>
    cases ds with
    | nil => exact absurd h (List.not_lt_nil _)
    | cons d ds =>
      rw [List.flatMap_cons, List.flatMap_cons]
      rcases List.cons_lt_cons_iff.mp h with hcd | ⟨hcd, hrest⟩
      · exact charUnits_append_lt hcd _ _
      · obtain rfl := rank_injective c d hcd
        exact List.append_left_lt (ih hrest)

/-- one text comes before another iff its code units do -/
theorem before_iff {a b : String} : Before a b ↔ units a < units b := by
  constructor
  · exact flatMap_charUnits_lt
  · intro h
    by_cases hab : a = b
    · rw [hab] at h
      exact absurd h (List.lt_irrefl _)
    · refine (before_or_before hab).resolve_right fun hba => ?_
      exact List.lt_asymm h (flatMap_charUnits_lt hba)

/-- the order of the units is not that of the code points -/
example : Before (String.singleton (Char.ofNat 0x1F600)) "\uFFFD" := by decide

end ChangeImpact.Text
