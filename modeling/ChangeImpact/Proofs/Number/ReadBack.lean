/-
Numbers that are read back as they were written.

`Finite.shortest` takes the first of its candidates that reads back, and the decimal expansion stands
behind them. The expansion reads back because rounding does not see a common factor (`ofUnits_scaled`),
and a number is its own nearest. `Decimal.text` lays the digits out in one of four ways, and from each of
them the numeral with the same digits and the same exponent is taken apart again. Only a row of zeros
behind the digits moves from the exponent into the digits, which does not change the number
(`toNumber_scaled`).

Results:
- `ofDigits_toDigits`, `digitCount_scaled`: rows of digits.
- `toNumber_shortest`: the shortest decimal of a number rounds to it.
- `Number.ofRatio_exact`: a whole number of at most 53 bits is held as it is.
- `Numeral.ofText?_text`, `Numeral.readNumber?_text`: the text of a numeral is taken apart again.
- `Decimal.says_text`: a decimal is laid out as the text of a numeral for the same number.
- `Finite.exists_numeral`: so is every finite number.
-/
import ChangeImpact.Json.Writer
import ChangeImpact.Json.Reader

namespace ChangeImpact

/-! ## Rows of digits -/

theorem ofDigits_eq (cs : List Char) : ofDigits cs = Nat.ofDigitChars 10 cs 0 := by
  unfold ofDigits Nat.ofDigitChars
  congr 1
  funext n c
  rw [Nat.mul_comm]
  rfl

theorem ofDigits_toDigits (n : Nat) : ofDigits (Nat.toDigits 10 n) = n := by
  rw [ofDigits_eq]
  exact Nat.ofDigitChars_toDigits (by decide) (by decide)

theorem ofDigits_concat (cs : List Char) (c : Char) : ofDigits (cs ++ [c]) = ofDigits cs * 10 + digitValue c := by
  unfold ofDigits
  rw [List.foldl_append]
  rfl

/-- zeros behind the digits multiply by powers of ten -/
theorem ofDigits_append_zeros (cs : List Char) (k : Nat) :
    ofDigits (cs ++ List.replicate k '0') = ofDigits cs * Nat.pow 10 k := by
  induction k with
  | zero => rw [List.replicate_zero, List.append_nil, Nat.pow, Nat.mul_one]
  | succ k ih =>
    rw [List.replicate_succ', ← List.append_assoc, ofDigits_concat, ih, Nat.mul_assoc]
    rfl

/-- zeros before the digits do not count -/
theorem ofDigits_zeros_append (cs : List Char) (k : Nat) : ofDigits (List.replicate k '0' ++ cs) = ofDigits cs := by
  induction k with
  | zero => rfl
  | succ k ih => exact ih

theorem digitCount_scaled {n : Nat} (h : n ≠ 0) (k : Nat) : digitCount (n * Nat.pow 10 k) = digitCount n + k := by
  induction k with
  | zero => rw [Nat.pow, Nat.mul_one, Nat.add_zero]
  | succ k ih =>
    have hpos : 0 < n * Nat.pow 10 k := Nat.mul_pos (Nat.pos_of_ne_zero h) (Nat.pow_pos (by decide))
    have hdigits := Nat.toDigits_append_toDigits (b := 10) (d := 0) (by decide) hpos (by decide)
    have hmul : n * Nat.pow 10 (k + 1) = 10 * (n * Nat.pow 10 k) + 0 := by
      rw [Nat.add_zero, Nat.mul_left_comm, Nat.mul_comm 10]
      rfl
    rw [hmul, digitCount, ← hdigits, List.length_append, ← digitCount, ih]
    rfl

theorem digitCount_le_iff {n k : Nat} (h : 0 < k) : digitCount n ≤ k ↔ n < Nat.pow 10 k :=
  Nat.length_toDigits_le_iff (by decide) h

/-- the first digit of a number is not zero, unless the number is -/
theorem toDigits_eq_cons {n : Nat} (h : n ≠ 0) : ∃ c rest, Nat.toDigits 10 n = c :: rest ∧ c ≠ '0' := by
  have hdigit : ∀ n < 10, n ≠ 0 → n.digitChar ≠ '0' := by decide
  induction n using Nat.strongRecOn with
  | _ n ih =>
    by_cases hn : n < 10
    · exact ⟨n.digitChar, [], Nat.toDigits_of_lt_base hn, hdigit n hn h⟩
    · obtain ⟨c, rest, hdigits, hc⟩ := ih (n / 10) (by omega) (by omega)
      refine ⟨c, rest ++ [(n % 10).digitChar], ?_, hc⟩
      rw [Nat.toDigits_of_base_le (by decide) (Nat.le_of_not_lt hn), hdigits]
      rfl

theorem isDigit_of_mem_toDigits {n : Nat} {c : Char} (hc : c ∈ Nat.toDigits 10 n) : c.isDigit = true :=
  Nat.isDigit_of_mem_toDigits (by decide) (by decide) hc

/-! ## Rounding -/

theorem roundDiv_scaled {n d k : Nat} (hk : 0 < k) : roundDiv (n * k) (d * k) = roundDiv n d := by
  have hless : 2 * (n % d * k) < d * k ↔ 2 * (n % d) < d := by
    rw [← Nat.mul_assoc]
    exact Nat.mul_lt_mul_right hk
  have hmore : d * k < 2 * (n % d * k) ↔ d < 2 * (n % d) := by
    rw [← Nat.mul_assoc]
    exact Nat.mul_lt_mul_right hk
  unfold roundDiv
  simp only [Nat.mul_mod_mul_right, Nat.mul_div_mul_right n d hk, hless, hmore]

namespace Number

/-- rounding does not see a common factor -/
theorem ofUnits_scaled (negative : Bool) {n d k : Nat} (hk : 0 < k) : ofUnits negative (n * k) (d * k) = ofUnits negative n d := by
  have hround : ∀ scale, roundDiv (n * k) (d * k * Nat.pow 2 scale) = roundDiv n (d * Nat.pow 2 scale) := by
    intro scale
    rw [Nat.mul_right_comm, roundDiv_scaled hk]
  simp only [ofUnits, Nat.mul_div_mul_right n d hk, hround]

/-! ### Whole numbers -/

/-- a whole number of at most 53 bits is in double precision -/
theorem exists_finite_eq {n : Nat} (h : n < Nat.pow 2 53) :
    ∃ x : Finite, x.negative = false ∧ x.size = n * unitsInOne := by
  by_cases hn : n = 0
  · subst hn
    exact ⟨.zero, rfl, by simp [Finite.zero, Finite.size]⟩
  · have hlog : n.log2 ≤ 52 := Nat.le_of_lt_succ ((Nat.log2_lt hn).mpr h)
    have hlow : Nat.pow 2 n.log2 ≤ n := Nat.log2_self_le hn
    have hhigh : n < Nat.pow 2 (n.log2 + 1) := Nat.lt_log2_self
    have hshift : ∀ k, Nat.pow 2 k * Nat.pow 2 (52 - n.log2) = Nat.pow 2 (k + (52 - n.log2)) := fun k => (Nat.pow_add ..).symm
    have hfull : Nat.pow 2 52 ≤ n * Nat.pow 2 (52 - n.log2) := by
      have hle := Nat.mul_le_mul_right (Nat.pow 2 (52 - n.log2)) hlow
      rwa [hshift, Nat.add_sub_cancel' hlog] at hle
    have hbits : n * Nat.pow 2 (52 - n.log2) < Nat.pow 2 53 := by
      have hlt := Nat.mul_lt_mul_of_pos_right hhigh (Nat.two_pow_pos (52 - n.log2))
      have hsum : n.log2 + 1 + (52 - n.log2) = 53 := by omega
      rwa [← Nat.pow_eq, hshift, hsum] at hlt
    have hunits : Nat.pow 2 (52 - n.log2) * Nat.pow 2 (1022 + n.log2) = unitsInOne := by
      have hsum : 52 - n.log2 + (1022 + n.log2) = 1074 := by omega
      calc Nat.pow 2 (52 - n.log2) * Nat.pow 2 (1022 + n.log2)
          = Nat.pow 2 (52 - n.log2 + (1022 + n.log2)) := (Nat.pow_add ..).symm
        _ = unitsInOne := by
          rw [hsum]
          decide +kernel
    refine ⟨⟨false, n * Nat.pow 2 (52 - n.log2), 1022 + n.log2, hbits, by omega, .inr hfull, fun _ => rfl⟩, rfl, ?_⟩
    rw [Finite.size, Nat.mul_assoc, hunits]

/-- a whole number is rounded to itself, as long as it has at most 53 bits -/
theorem ofRatio_exact {n : Nat} (h : n < Nat.pow 2 53) :
    ∃ x : Finite, ofRatio false n 1 = .finite x ∧ x.negative = false ∧ x.size = n * unitsInOne := by
  obtain ⟨x, hsign, hsize⟩ := exists_finite_eq h
  refine ⟨x, ?_, hsign, hsize⟩
  rw [ofRatio, ← hsize, ← hsign]
  exact ofUnits_size x

/-- a quotient of whole numbers is rounded to a finite number or to an infinite one -/
theorem ofRatio_ne_undefined (negative : Bool) (n d : Nat) : ofRatio negative n d ≠ .undefined := by
  unfold ofRatio ofUnits ofParts
  dsimp only
  split
  · split <;> exact Number.noConfusion
  · split <;> exact Number.noConfusion

end Number

namespace Decimal

variable {negative : Bool}

theorem toNumber_ofNat (n e : Nat) : toNumber negative ⟨n, e⟩ =
    if n = 0 ∨ (digitCount n + e : Int) < -330 then .zero
    else if 310 < (digitCount n + e : Int) then .infinite negative
    else .ofRatio negative (n * Nat.pow 10 e) 1 :=
  rfl

theorem toNumber_negSucc (n e : Nat) : toNumber negative ⟨n, .negSucc e⟩ =
    if n = 0 ∨ digitCount n + Int.negSucc e < -330 then .zero
    else if 310 < digitCount n + Int.negSucc e then .infinite negative
    else .ofRatio negative n (Nat.pow 10 (e + 1)) :=
  rfl

/-- zeros behind the digits may stand in the exponent -/
theorem toNumber_scaled (n k : Nat) : toNumber negative ⟨n * Nat.pow 10 k, 0⟩ = toNumber negative ⟨n, k⟩ := by
  refine (toNumber_ofNat (n * Nat.pow 10 k) 0).trans ?_
  rw [toNumber_ofNat]
  by_cases hn : n = 0
  · subst hn
    rw [Nat.zero_mul, if_pos (.inl rfl), if_pos (.inl rfl)]
  · have hne : n * Nat.pow 10 k ≠ 0 := Nat.mul_ne_zero hn (Nat.ne_of_gt (Nat.pow_pos (by decide)))
    have hcount : (digitCount (n * Nat.pow 10 k) + (0 : Nat) : Int) = digitCount n + k := by
      rw [digitCount_scaled hn]
      omega
    have hvalue : n * Nat.pow 10 k * Nat.pow 10 0 = n * Nat.pow 10 k := Nat.mul_one _
    simp only [hcount, hvalue, hn, hne]

end Decimal

namespace Finite

variable {x : Finite}

theorem size_pos (h : x.mantissa ≠ 0) : 0 < x.size :=
  Nat.mul_pos (Nat.pos_of_ne_zero h) (Nat.two_pow_pos _)

theorem size_lt {top : Nat} (h : x.scale ≤ top) : x.size < Nat.pow 2 53 * Nat.pow 2 top := by
  calc x.size
      < Nat.pow 2 53 * Nat.pow 2 x.scale := Nat.mul_lt_mul_of_pos_right x.mantissa_lt (Nat.two_pow_pos _)
    _ ≤ Nat.pow 2 53 * Nat.pow 2 top := Nat.mul_le_mul_left _ (Nat.pow_le_pow_right (by decide) h)

theorem digits_expansion (x : Finite) : x.expansion.digits = x.size * Nat.pow 5 1074 :=
  rfl

/-- the expansion of a number that is not zero has between 751 and 1383 digits -/
theorem digitCount_expansion (h : x.mantissa ≠ 0) :
    750 < digitCount x.expansion.digits ∧ digitCount x.expansion.digits ≤ 1383 := by
  rw [digits_expansion]
  constructor
  · rw [← Nat.not_le, digitCount_le_iff (by decide), Nat.not_lt]
    refine Nat.le_trans ?_ (Nat.le_mul_of_pos_left _ (size_pos h))
    decide +kernel
  · rw [digitCount_le_iff (by decide)]
    refine Nat.lt_of_lt_of_le (Nat.mul_lt_mul_of_pos_right (size_lt x.scale_le) ?_) ?_ <;> decide +kernel

/-- the decimal expansion of a number rounds to it -/
theorem toNumber_expansion (h : x.mantissa ≠ 0) : x.expansion.toNumber x.negative = .finite x := by
  obtain ⟨hlow, hhigh⟩ := digitCount_expansion h
  have hten : Nat.pow 5 1074 * unitsInOne = Nat.pow 10 (1073 + 1) := by decide +kernel
  have hdigits : x.expansion.digits ≠ 0 := by
    intro hzero
    rw [hzero] at hlow
    exact absurd hlow (by decide)
  have hunits : ∀ k, 0 < k → Number.ofUnits x.negative (x.size * k) k = .finite x := by
    intro k hk
    calc Number.ofUnits x.negative (x.size * k) k
        = Number.ofUnits x.negative (x.size * k) (1 * k) := by rw [Nat.one_mul]
      _ = Number.ofUnits x.negative x.size 1 := Number.ofUnits_scaled _ hk
      _ = .finite x := Number.ofUnits_size x
  have hscaled : x.expansion.digits * unitsInOne = x.size * Nat.pow 10 (1073 + 1) := by
    rw [digits_expansion, Nat.mul_assoc, hten]
  refine (Decimal.toNumber_negSucc x.expansion.digits 1073).trans ?_
  rw [if_neg (by omega), if_neg (by omega), Number.ofRatio, hscaled]
  exact hunits _ (by decide +kernel)

/-- the shortest decimal of a number rounds to it -/
theorem toNumber_shortest (h : x.mantissa ≠ 0) : x.shortest.toNumber x.negative = .finite x := by
  let readsBack (d : Decimal) : Bool := decide (d.toNumber x.negative = .finite x)
  change (((List.range 17).findSome? fun i => (x.neighbours (i + 1)).find? readsBack).getD x.expansion).toNumber _ = _
  cases hfound : (List.range 17).findSome? fun i => (x.neighbours (i + 1)).find? readsBack with
  | none => exact toNumber_expansion h
  | some d =>
    obtain ⟨i, -, hd⟩ := List.exists_of_findSome?_eq_some hfound
    have hreads : readsBack d = true := List.find?_some hd
    exact decide_eq_true_iff.mp hreads

theorem digits_shortest_ne_zero (h : x.mantissa ≠ 0) : x.shortest.digits ≠ 0 := by
  intro hzero
  have hread := toNumber_shortest h
  rw [Decimal.toNumber, if_pos (.inl hzero)] at hread
  exact h (congrArg mantissa (Number.finite.inj hread)).symm

end Finite

/-! ## Numerals -/

theorem takeWhile_run {p : Char → Bool} {ds rest : List Char} (hds : ∀ c ∈ ds, p c = true)
    (hrest : ∀ c, rest.head? = some c → p c = false) :
    (ds ++ rest).takeWhile p = ds ∧ (ds ++ rest).dropWhile p = rest := by
  have hnone : rest.takeWhile p = [] ∧ rest.dropWhile p = rest := by
    cases rest with
    | nil => exact ⟨rfl, rfl⟩
    | cons c cs =>
      have hc := hrest c rfl
      exact ⟨List.takeWhile_cons_of_neg (by simp [hc]), List.dropWhile_cons_of_neg (by simp [hc])⟩
  rw [List.takeWhile_append_of_pos hds, List.dropWhile_append_of_pos hds, hnone.1, hnone.2, List.append_nil]
  exact ⟨rfl, rfl⟩

namespace Numeral

/-- an exponent as it stands in a numeral's text -/
def exponentText (exponent : Option Int) : List Char :=
  exponent.elim [] fun e => 'e' :: (if e < 0 then '-' else '+') :: Nat.toDigits 10 e.natAbs

/-- a fraction as it stands in a numeral's text -/
def fractionText (fraction : Option (List Char)) : List Char :=
  fraction.elim [] fun ds => '.' :: ds

def text (n : Numeral) : List Char :=
  n.sign.toList ++ (n.whole ++ (fractionText n.fraction ++ exponentText n.exponent))

/-- a numeral that JSON allows -/
structure Plain (n : Numeral) : Prop where
  sign : n.sign = none ∨ n.sign = some '-'
  lead : ∃ c rest, n.whole = c :: rest ∧ (c = '0' → rest = [])
  whole : ∀ c ∈ n.whole, c.isDigit = true
  fraction : ∀ ds, n.fraction = some ds → ds ≠ [] ∧ ∀ c ∈ ds, c.isDigit = true

theorem readExponent?_text (e : Int) :
    readExponent? ('e' :: (if e < 0 then '-' else '+') :: Nat.toDigits 10 e.natAbs) = some (some e) := by
  have hdigits : (Nat.toDigits 10 e.natAbs).all Char.isDigit = true :=
    List.all_eq_true.mpr fun _ => isDigit_of_mem_toDigits
  by_cases he : e < 0
  · have hvalue : -(e.natAbs : Int) = e := by omega
    rw [if_pos he]
    unfold readExponent? cutSign
    simp only [ofDigits_toDigits, hvalue, if_true]
    exact if_pos ⟨.inl trivial, Nat.toDigits_ne_nil, hdigits⟩
  · have hvalue : (e.natAbs : Int) = e := by omega
    rw [if_neg he]
    unfold readExponent? cutSign
    simp only [ofDigits_toDigits, hvalue]
    exact if_pos ⟨.inl trivial, Nat.toDigits_ne_nil, hdigits⟩

theorem cutSign_text {sign : Option Char} (h : sign = none ∨ sign = some '-') {c : Char} (hc : c.isDigit = true)
    (rest : List Char) : cutSign (sign.toList ++ c :: rest) = (sign, c :: rest) := by
  rcases h with rfl | rfl
  · unfold cutSign
    split
    · next heq => 
      obtain ⟨rfl, -⟩ := List.cons.inj heq
      contradiction
    · next heq =>
      obtain ⟨rfl, -⟩ := List.cons.inj heq
      contradiction
    · rfl
  · rfl

theorem head?_exponentText {exponent : Option Int} {c : Char} (h : (exponentText exponent).head? = some c) : c = 'e' := by
  cases exponent with
  | none => contradiction
  | some e => exact (Option.some.inj h).symm

theorem readExponent?_exponentText (exponent : Option Int) : readExponent? (exponentText exponent) = some exponent := by
  cases exponent with
  | none => rfl
  | some e => exact readExponent?_text e

theorem cutFraction_text {fraction : Option (List Char)}
    (h : ∀ ds, fraction = some ds → ds ≠ [] ∧ ∀ c ∈ ds, c.isDigit = true) (exponent : Option Int) :
    cutFraction (fractionText fraction ++ exponentText exponent) = (fraction, exponentText exponent) := by
  have hend : ∀ c, (exponentText exponent).head? = some c → c.isDigit = false := by
    intro c hc
    rw [head?_exponentText hc]
    rfl
  cases fraction with
  | none =>
    cases exponent <;> rfl
  | some ds =>
    obtain ⟨htake, hdrop⟩ := takeWhile_run (h ds rfl).2 hend
    change (some ((ds ++ exponentText exponent).takeWhile Char.isDigit),
      (ds ++ exponentText exponent).dropWhile Char.isDigit) = _
    rw [htake, hdrop]

/-- a numeral's text is taken apart again -/
theorem ofText?_text {n : Numeral} (h : n.Plain) : ofText? n.text = some n := by
  obtain ⟨sign, whole, fraction, exponent⟩ := n
  obtain ⟨c, rest, rfl, -⟩ := h.lead
  have hc : c.isDigit = true := h.whole c List.mem_cons_self
  have hend : ∀ c, (fractionText fraction ++ exponentText exponent).head? = some c → c.isDigit = false := by
    intro c hc
    cases fraction with
    | none =>
      rw [head?_exponentText hc]
      rfl
    | some ds =>
      rw [← Option.some.inj hc]
      rfl
  obtain ⟨htake, hdrop⟩ := takeWhile_run h.whole hend
  have hsign := cutSign_text h.sign hc (rest ++ (fractionText fraction ++ exponentText exponent))
  have hfraction := cutFraction_text h.fraction exponent
  rw [List.cons_append] at htake hdrop
  rw [text, List.cons_append]
  unfold ofText?
  simp [hsign, htake, hdrop, hfraction, readExponent?_exponentText]

/-- the text of a plain numeral begins with a digit or a minus sign -/
theorem text_eq_cons {n : Numeral} (h : n.Plain) : ∃ c rest, n.text = c :: rest ∧ (c = '-' ∨ c.isDigit = true) := by
  obtain ⟨c, rest, hwhole, -⟩ := h.lead
  have hc : c.isDigit = true := h.whole c (hwhole ▸ List.mem_cons_self)
  rw [text, hwhole]
  rcases h.sign with hs | hs
  · rw [hs]
    exact ⟨c, _, rfl, .inr hc⟩
  · rw [hs]
    exact ⟨'-', _, rfl, .inl rfl⟩

theorem isNumeral_of_isDigit {c : Char} (h : c.isDigit = true) : Json.isNumeral c = true := by
  simp [Json.isNumeral, h]

/-- and it has no other characters than JSON numbers have -/
theorem isNumeral_of_mem_text {n : Numeral} (h : n.Plain) : ∀ c ∈ n.text, Json.isNumeral c = true := by
  have hsign : ∀ c ∈ n.sign.toList, Json.isNumeral c = true := by
    intro c hc
    rcases h.sign with hs | hs
    · rw [hs] at hc
      contradiction
    · rw [hs] at hc
      obtain rfl : c = '-' := List.mem_singleton.mp hc
      rfl
  have hfraction : ∀ c ∈ fractionText n.fraction, Json.isNumeral c = true := by
    cases hf : n.fraction with
    | none => exact nofun
    | some ds => exact List.forall_mem_cons.mpr ⟨rfl, fun c hc => isNumeral_of_isDigit ((h.fraction ds hf).2 c hc)⟩
  have hexponent : ∀ c ∈ exponentText n.exponent, Json.isNumeral c = true := by
    cases n.exponent with
    | none => exact nofun
    | some e =>
      refine List.forall_mem_cons.mpr ⟨rfl, List.forall_mem_cons.mpr ⟨?_, fun c hc => ?_⟩⟩
      · split <;> rfl
      · exact isNumeral_of_isDigit (isDigit_of_mem_toDigits hc)
  have hwhole : ∀ c ∈ n.whole, Json.isNumeral c = true := fun c hc => isNumeral_of_isDigit (h.whole c hc)
  simp only [text, List.forall_mem_append]
  exact ⟨hsign, hwhole, hfraction, hexponent⟩

/-- JSON reads a plain numeral as the number that it says -/
theorem readNumber?_text {n : Numeral} (h : n.Plain) : Json.readNumber? n.text = some n.number := by
  obtain ⟨c, rest, hwhole, hlead⟩ := h.lead
  have hsign : ¬ (n.sign = some '+' ∨ n.fraction = some []) := by
    rintro (hplus | hnil)
    · rcases h.sign with hs | hs <;> rw [hs] at hplus <;> simp at hplus
    · exact (h.fraction [] hnil).1 rfl
  have hzero : ¬ (c = '0' ∧ rest ≠ []) := fun hz => hz.2 (hlead hz.1)
  unfold Json.readNumber?
  simp [ofText?_text h, hsign, hwhole, hzero]

end Numeral

/-! ## Written numbers -/

/-- a row of digits that does not begin with zero -/
structure Row (ds : List Char) : Prop where
  lead : ∃ c rest, ds = c :: rest ∧ c ≠ '0'
  digits : ∀ c ∈ ds, c.isDigit = true

theorem row_toDigits {n : Nat} (h : n ≠ 0) : Row (Nat.toDigits 10 n) :=
  ⟨toDigits_eq_cons h, fun _ => isDigit_of_mem_toDigits⟩

theorem isDigit_of_mem_zeros {k : Nat} {c : Char} (hc : c ∈ List.replicate k '0') : c.isDigit = true := by
  rw [(List.mem_replicate.mp hc).2]
  rfl

/-- the sign of a number as a numeral has it -/
def signOf (negative : Bool) : Option Char :=
  if negative then some '-' else none

theorem signOf_plain (negative : Bool) : signOf negative = none ∨ signOf negative = some '-' := by
  cases negative
  · exact .inl rfl
  · exact .inr rfl

namespace Decimal

/-- with a sign before it the text is that of a plain numeral, and the numeral says the number of the decimal -/
def Says (cs : List Char) (negative : Bool) (d : Decimal) : Prop :=
  ∃ n : Numeral, n.Plain ∧ n.text = (signOf negative).toList ++ cs ∧ n.number = d.toNumber negative

theorem number_of_sign {n : Numeral} {negative : Bool} (hsign : n.sign = signOf negative) : n.number =
    toNumber negative ⟨ofDigits (n.whole ++ n.fraction.getD []), n.exponent.getD 0 - (n.fraction.getD []).length⟩ := by
  have hneg : decide (n.sign = some '-') = negative := by
    rw [hsign]
    cases negative <;> rfl
  unfold Numeral.number
  simp only [hneg]

section

variable {ds : List Char} (h : Row ds) (negative : Bool)
include h

theorem says_whole (k : Nat) : Says (ds ++ List.replicate k '0') negative ⟨ofDigits ds, k⟩ := by
  obtain ⟨c, rest, hds, hc⟩ := h.lead
  refine ⟨⟨signOf negative, ds ++ List.replicate k '0', none, none⟩, ⟨signOf_plain negative, ?_, ?_, nofun⟩, ?_, ?_⟩
  · exact ⟨c, rest ++ List.replicate k '0', by rw [hds, List.cons_append], fun h0 => absurd h0 hc⟩
  · exact List.forall_mem_append.mpr ⟨h.digits, fun _ => isDigit_of_mem_zeros⟩
  · simp [Numeral.text, Numeral.fractionText, Numeral.exponentText]
  · rw [number_of_sign rfl]
    change toNumber negative ⟨ofDigits (ds ++ List.replicate k '0' ++ []), 0⟩ = _
    rw [List.append_nil, ofDigits_append_zeros, toNumber_scaled]

theorem says_point {k : Nat} (hk : k + 1 < ds.length) :
    Says (ds.take (k + 1) ++ '.' :: ds.drop (k + 1)) negative ⟨ofDigits ds, k + 1 - ds.length⟩ := by
  obtain ⟨c, rest, hds, hc⟩ := h.lead
  refine ⟨⟨signOf negative, ds.take (k + 1), some (ds.drop (k + 1)), none⟩, ⟨signOf_plain negative, ?_, ?_, ?_⟩, ?_, ?_⟩
  · exact ⟨c, rest.take k, by rw [hds, List.take_succ_cons], fun h0 => absurd h0 hc⟩
  · exact fun e he => h.digits e (List.mem_of_mem_take he)
  · rintro _ ⟨⟩
    refine ⟨fun hnil => ?_, fun e he => h.digits e (List.mem_of_mem_drop he)⟩
    have hlength := List.drop_eq_nil_iff.mp hnil
    omega
  · simp [Numeral.text, Numeral.fractionText, Numeral.exponentText]
  · rw [number_of_sign rfl]
    have hplaces : (0 : Int) - (ds.drop (k + 1)).length = k + 1 - ds.length := by
      rw [List.length_drop]
      omega
    simp only [Option.getD_some, Option.getD_none, List.take_append_drop, hplaces]

theorem says_zeros (k : Nat) : Says ('0' :: '.' :: List.replicate k '0' ++ ds) negative ⟨ofDigits ds, -k - ds.length⟩ := by
  obtain ⟨c, rest, hds, -⟩ := h.lead
  refine ⟨⟨signOf negative, ['0'], some (List.replicate k '0' ++ ds), none⟩, ⟨signOf_plain negative, ?_, ?_, ?_⟩, ?_, ?_⟩
  · exact ⟨'0', [], rfl, fun _ => rfl⟩
  · simp
  · rintro _ ⟨⟩
    refine ⟨by simp [hds], List.forall_mem_append.mpr ⟨fun _ => isDigit_of_mem_zeros, h.digits⟩⟩
  · simp [Numeral.text, Numeral.fractionText, Numeral.exponentText]
  · rw [number_of_sign rfl]
    have hvalue : ofDigits (['0'] ++ (List.replicate k '0' ++ ds)) = ofDigits ds := ofDigits_zeros_append ds (k + 1)
    have hplaces : (0 : Int) - (List.replicate k '0' ++ ds).length = -k - ds.length := by
      rw [List.length_append, List.length_replicate]
      omega
    simp only [Option.getD_some, Option.getD_none, hvalue, hplaces]

theorem says_exponent (power : Int) :
    Says ((if ds.length ≤ 1 then ds else ds.take 1 ++ '.' :: ds.drop 1) ++
      Numeral.exponentText (some power)) negative ⟨ofDigits ds, power + 1 - ds.length⟩ := by
  obtain ⟨c, rest, hds, hc⟩ := h.lead
  split
  · next hshort =>
    have hlength : (ds.length : Int) = 1 := by
      rw [hds, List.length_cons] at hshort ⊢
      omega
    refine ⟨⟨signOf negative, ds, none, some power⟩, ⟨signOf_plain negative, ?_, h.digits, nofun⟩, ?_, ?_⟩
    · exact ⟨c, rest, hds, fun h0 => absurd h0 hc⟩
    · simp [Numeral.text, Numeral.fractionText]
    · rw [number_of_sign rfl]
      have hplaces : power - ([] : List Char).length = power + 1 - ds.length := by
        rw [hlength, List.length_nil]
        omega
      simp only [Option.getD_some, Option.getD_none, List.append_nil, hplaces]
  · next hlong =>
    refine ⟨⟨signOf negative, ds.take 1, some (ds.drop 1), some power⟩, ⟨signOf_plain negative, ?_, ?_, ?_⟩, ?_, ?_⟩
    · exact ⟨c, [], by rw [hds]; rfl, fun h0 => absurd h0 hc⟩
    · exact fun e he => h.digits e (List.mem_of_mem_take he)
    · rintro _ ⟨⟩
      refine ⟨fun hnil => ?_, fun e he => h.digits e (List.mem_of_mem_drop he)⟩
      exact hlong (List.drop_eq_nil_iff.mp hnil)
    · simp [Numeral.text, Numeral.fractionText]
    · rw [number_of_sign rfl]
      have hplaces : power - (ds.drop 1).length = power + 1 - ds.length := by
        rw [List.length_drop]
        omega
      simp only [Option.getD_some, List.take_append_drop, hplaces]

end

/-- **A written decimal is read as its number**, wherever the layout puts the point. -/
theorem says_text (layout : Layout) {d : Decimal} (h : d.digits ≠ 0) (negative : Bool) :
    Says (d.text layout) negative d := by
  obtain ⟨digits, exponent⟩ := d
  have hrow : Row (Nat.toDigits 10 digits) := row_toDigits h
  have hvalue : ofDigits (Nat.toDigits 10 digits) = digits := ofDigits_toDigits digits
  unfold text
  simp only
  generalize Nat.toDigits 10 digits = ds at hrow hvalue
  subst hvalue
  split
  · next hpoint =>
    obtain ⟨k, rfl⟩ : ∃ k : Nat, exponent = k := ⟨exponent.toNat, by omega⟩
    have hzeros : ((ds.length : Int) + k - ds.length).toNat = k := by omega
    rw [hzeros]
    exact says_whole hrow negative k
  split
  · next hpoint =>
    obtain ⟨k, hk⟩ : ∃ k : Nat, (ds.length : Int) + exponent = k + 1 := ⟨(ds.length + exponent - 1).toNat, by omega⟩
    obtain rfl : exponent = k + 1 - ds.length := by omega
    have hbefore : ((ds.length : Int) + (k + 1 - ds.length)).toNat = k + 1 := by omega
    rw [hbefore]
    exact says_point hrow negative (by omega)
  split
  · next hpoint =>
    obtain ⟨k, hk⟩ : ∃ k : Nat, -((ds.length : Int) + exponent) = k := ⟨(-(ds.length + exponent)).toNat, by omega⟩
    obtain rfl : exponent = -k - ds.length := by omega
    rw [hk, Int.toNat_natCast]
    exact says_zeros hrow negative k
  · have hpower : ds.length + exponent - 1 + 1 - ds.length = exponent := by omega
    have hsays := says_exponent hrow negative (ds.length + exponent - 1)
    rw [hpower] at hsays
    exact hsays

end Decimal

namespace Finite

theorem eq_zero {x : Finite} (h : x.mantissa = 0) : x = zero := by
  obtain ⟨negative, mantissa, scale, hm, hs, hfull, hunsigned⟩ := x
  obtain rfl : mantissa = 0 := h
  obtain rfl : negative = false := hunsigned rfl
  obtain rfl : scale = 0 := hfull.resolve_right (by decide)
  rfl

/-- **A finite number is read back.** Its text is that of a plain numeral, and the numeral says the number. -/
theorem exists_numeral (x : Finite) : ∃ n : Numeral, n.Plain ∧ n.text = (Number.finite x).text ∧ n.number = .finite x := by
  by_cases h : x.mantissa = 0
  · refine ⟨⟨none, ['0'], none, none⟩, ⟨.inl rfl, ⟨'0', [], rfl, fun _ => rfl⟩, by simp, nofun⟩, ?_, ?_⟩
    · simp [Number.text, h, Numeral.text, Numeral.fractionText, Numeral.exponentText]
    · rw [eq_zero h]
      rfl
  · obtain ⟨n, hplain, htext, hnumber⟩ := Decimal.says_text Number.layout (digits_shortest_ne_zero h) x.negative
    refine ⟨n, hplain, ?_, hnumber.trans (toNumber_shortest h)⟩
    rw [htext, Number.text, if_neg h, signOf]
    cases x.negative <;> rfl

end Finite

end ChangeImpact
