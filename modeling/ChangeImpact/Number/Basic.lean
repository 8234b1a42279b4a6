/-
Numbers in double precision.

A finite number is ± mantissa · 2 ^ scale units, one unit being 2 ^ -1074, the smallest step there
is. The mantissa has at most 53 bits, and all 53 when the scale is positive, so every number has one
form; zero has no sign. `Number.ofRatio` rounds a quotient to the nearest number, a tie to the even
mantissa. A number is its own nearest (`ofRatio_size`).
-/

namespace ChangeImpact

/-- a finite number, ± mantissa · 2 ^ scale units of 2 ^ -1074 -/
structure Finite where
  negative : Bool
  mantissa : Nat
  scale : Nat
  mantissa_lt : mantissa < Nat.pow 2 53
  scale_le : scale ≤ 2045
  full : scale = 0 ∨ Nat.pow 2 52 ≤ mantissa
  unsigned : mantissa = 0 → negative = false
  deriving DecidableEq

/-- a number: finite, or one of the results that have no finite value -/
inductive Number where
  | finite (value : Finite)
  | infinite (negative : Bool)
  | undefined
  deriving DecidableEq

/-- the quotient rounded to the nearest integer, a tie to the even one -/
def roundDiv (n d : Nat) : Nat :=
  if 2 * (n % d) < d then n / d
  else if d < 2 * (n % d) then n / d + 1
  else if n / d % 2 = 0 then n / d
  else n / d + 1

theorem le_roundDiv (n d : Nat) : n / d ≤ roundDiv n d := by
  unfold roundDiv
  repeat' split
  all_goals omega

theorem roundDiv_mul (n d : Nat) (hd : 0 < d) : roundDiv (n * d) d = n := by
  have h : n * d % d = 0 := Nat.mul_mod_left n d
  simp [roundDiv, h, Nat.mul_div_cancel n hd, hd]

/-- how many units make up 1 -/
def unitsInOne : Nat :=
  Nat.pow 2 1074

namespace Finite

def zero : Finite := ⟨false, 0, 0, by decide, by decide, .inl rfl, fun _ => rfl⟩

/-- the absolute value in units -/
def size (x : Finite) : Nat :=
  x.mantissa * Nat.pow 2 x.scale

end Finite

/-- the scale at which a number of units has 53 bits, or 0 when it has fewer -/
def scaleOf (wholeUnits : Nat) : Nat :=
  if wholeUnits < Nat.pow 2 53 then 0 else wholeUnits.log2 - 52

theorem le_div_scale (q : Nat) (h : ¬ q < Nat.pow 2 53) : Nat.pow 2 52 ≤ q / Nat.pow 2 (scaleOf q) := by
  have hq : q ≠ 0 := by
    rintro rfl
    exact h (by decide)
  have hl : 53 ≤ q.log2 := (Nat.le_log2 hq).mpr (Nat.le_of_not_lt h)
  rw [scaleOf, if_neg h, Nat.pow_eq, Nat.pow_eq, Nat.le_div_iff_mul_le (Nat.two_pow_pos _), ← Nat.pow_add]
  have e : 52 + (q.log2 - 52) = q.log2 := by omega
  rw [e]
  exact Nat.log2_self_le hq

namespace Number

def zero : Number := .finite .zero

/-- the number ± mantissa · 2 ^ scale, infinite when the scale is out of reach -/
def ofParts (negative : Bool) (mantissa scale : Nat) (hm : mantissa < Nat.pow 2 53)
    (hf : scale = 0 ∨ Nat.pow 2 52 ≤ mantissa) : Number :=
  if hs : scale ≤ 2045 then
    .finite ⟨negative && decide (mantissa ≠ 0), mantissa, scale, hm, hs, hf, by simp +contextual⟩
  else .infinite negative

/-- the number nearest to n / d units -/
def ofUnits (negative : Bool) (n d : Nat) : Number :=
  let scale := scaleOf (n / d)
  let mantissa := roundDiv n (d * Nat.pow 2 scale)
  if hm : mantissa < Nat.pow 2 53 then
    ofParts negative mantissa scale hm (by
      by_cases h : n / d < Nat.pow 2 53
      · exact .inl (if_pos h)
      · refine .inr (Nat.le_trans (le_div_scale _ h) ?_)
        rw [Nat.div_div_eq_div_mul]
        exact le_roundDiv n _)
  else ofParts negative (Nat.pow 2 52) (scale + 1) (by decide) (.inr (Nat.le_refl _))

/-- the number nearest to n / d -/
def ofRatio (negative : Bool) (n d : Nat) : Number :=
  ofUnits negative (n * unitsInOne) d

theorem scaleOf_parts (m s : Nat) (hm : m < Nat.pow 2 53) (hf : s = 0 ∨ Nat.pow 2 52 ≤ m) :
    scaleOf (m * Nat.pow 2 s) = s := by
  rw [scaleOf]
  rcases hf with rfl | hf
  · rw [Nat.pow_eq, Nat.pow_zero, Nat.mul_one, if_pos hm]
  · have hm0 : m ≠ 0 := by
      rintro rfl
      exact absurd hf (by decide)
    have hne : m * Nat.pow 2 s ≠ 0 := Nat.mul_ne_zero hm0 (Nat.ne_of_gt (Nat.two_pow_pos s))
    have hlog : (m * Nat.pow 2 s).log2 = 52 + s := by
      rw [Nat.log2_eq_iff hne]
      constructor
      · rw [Nat.pow_add]
        exact Nat.mul_le_mul_right _ hf
      · have e : 52 + s + 1 = 53 + s := by omega
        rw [e, Nat.pow_add]
        exact Nat.mul_lt_mul_of_pos_right hm (Nat.two_pow_pos s)
    by_cases h : m * Nat.pow 2 s < Nat.pow 2 53
    · have := (Nat.log2_lt hne).mpr h
      rw [if_pos h]
      omega
    · rw [if_neg h, hlog]
      omega

/-- A number is nearest to itself. -/
theorem ofUnits_size (x : Finite) : ofUnits x.negative x.size 1 = .finite x := by
  obtain ⟨negative, m, s, hm, hs, hf, hu⟩ := x
  have hsc := scaleOf_parts m s hm hf
  have hr : roundDiv (m * Nat.pow 2 s) (1 * Nat.pow 2 s) = m := by
    rw [Nat.one_mul]
    exact roundDiv_mul m _ (Nat.two_pow_pos s)
  simp only [ofUnits, Finite.size, Nat.div_one, hsc, hr, dif_pos hm, ofParts, dif_pos hs]
  cases negative
  · simp
  · have : m ≠ 0 := fun h => by simpa using hu h
    simp [this]

end Number

end ChangeImpact
