/-
Decimal texts of numbers.

A `Decimal` is digits · 10 ^ exponent. `Decimal.toNumber` rounds it to the nearest number.
`Finite.shortest` goes the other way: of the decimals that read back as the number it takes one with
the fewest digits, and of those the nearest. It looks at the two neighbours of the number on the
grids of 1, 2, … 17 digits and keeps the first that reads back; the decimal expansion of the number,
which always reads back, stands behind them.

`Layout` says where plain positions end and an exponent begins. `Numeral` is a decimal text taken
apart.
-/
import ChangeImpact.Number.Basic

namespace ChangeImpact

/-- a decimal, digits · 10 ^ exponent -/
structure Decimal where
  digits : Nat
  exponent : Int
  deriving DecidableEq

/-- how many decimal digits a natural number has -/
def digitCount (n : Nat) : Nat :=
  (Nat.toDigits 10 n).length

/-- The number nearest to a decimal. Every number lies between 10 ^ -324 and 10 ^ 309, so beyond those
powers the answer is known without the division. -/
def Decimal.toNumber (negative : Bool) (d : Decimal) : Number :=
  let top := digitCount d.digits + d.exponent
  if d.digits = 0 ∨ top < -330 then .zero
  else if 310 < top then .infinite negative
  else match d.exponent with
    | .ofNat e => .ofRatio negative (d.digits * Nat.pow 10 e) 1
    | .negSucc e => .ofRatio negative d.digits (Nat.pow 10 (e + 1))

namespace Finite

/-- for 0 < n < d, the power of ten p with 10 ^ (p - 1) ≤ n / d < 10 ^ p; `fuel` bounds the leading zeros -/
def pointBelow : Nat → Nat → Nat → Int
  | 0, _, _ => 0
  | fuel + 1, n, d => if d ≤ n * 10 then 0 else pointBelow fuel (n * 10) d - 1

/-- the power of ten p with 10 ^ (p - 1) ≤ x < 10 ^ p -/
def point (x : Finite) : Int :=
  if unitsInOne ≤ x.size then digitCount (x.size / unitsInOne) else pointBelow 330 x.size unitsInOne

/-- the two neighbours of x among the decimals with `count` digits, the nearer one first -/
def neighbours (x : Finite) (count : Nat) : List Decimal :=
  let exponent := x.point - count
  let (n, d) := match exponent with
    | .ofNat e => (x.size, unitsInOne * Nat.pow 10 e)
    | .negSucc e => (x.size * Nat.pow 10 (e + 1), unitsInOne)
  let low := n / d
  let decimal (digits : Nat) : Decimal := if digits = Nat.pow 10 count then ⟨1, exponent + count⟩ else ⟨digits, exponent⟩
  if 2 * (n % d) < d ∨ 2 * (n % d) = d ∧ low % 2 = 0 then [decimal low, decimal (low + 1)]
  else [decimal (low + 1), decimal low]

/-- the decimal expansion, which has as many places as a unit -/
def expansion (x : Finite) : Decimal :=
  ⟨x.size * Nat.pow 5 1074, -1074⟩

/-- the shortest decimal that reads back as the number -/
def shortest (x : Finite) : Decimal :=
  let readsBack (d : Decimal) : Bool := d.toNumber x.negative = .finite x
  ((List.range 17).findSome? fun i => (x.neighbours (i + 1)).find? readsBack).getD x.expansion

end Finite

/-- where a written number turns from plain positions to an exponent -/
structure Layout where
  /-- the lowest power of ten before which a number below 1 is still written out -/
  zerosBelow : Int
  /-- the most positions written before the point -/
  positions : Int

/-- Numbers are written out from 10 ^ -6 on and below 10 ^ 21. -/
def Number.layout : Layout := ⟨-6, 21⟩

/-- the text of a decimal -/
def Decimal.text (layout : Layout) (d : Decimal) : List Char :=
  let ds := Nat.toDigits 10 d.digits
  let point : Int := ds.length + d.exponent
  if ds.length ≤ point ∧ point ≤ layout.positions then ds ++ List.replicate (point - ds.length).toNat '0'
  else if 0 < point ∧ point ≤ layout.positions then ds.take point.toNat ++ '.' :: ds.drop point.toNat
  else if layout.zerosBelow < point ∧ point ≤ 0 then '0' :: '.' :: List.replicate (-point).toNat '0' ++ ds
  else
    let power := point - 1
    let lead := if ds.length ≤ 1 then ds else ds.take 1 ++ '.' :: ds.drop 1
    lead ++ 'e' :: (if power < 0 then '-' else '+') :: Nat.toDigits 10 power.natAbs

/-- the text of a number -/
def Number.text : Number → List Char
  | .finite x =>
    if x.mantissa = 0 then ['0']
    else (if x.negative then ['-'] else []) ++ x.shortest.text Number.layout
  | .infinite negative => (if negative then ['-'] else []) ++ "Infinity".toList
  | .undefined => "NaN".toList

/-- the value of a digit -/
def digitValue (c : Char) : Nat :=
  c.toNat - '0'.toNat

/-- the number that a row of digits writes -/
def ofDigits (cs : List Char) : Nat :=
  cs.foldl (fun n c => n * 10 + digitValue c) 0

/-- a decimal text taken apart -/
structure Numeral where
  sign : Option Char
  whole : List Char
  /-- what follows the point, when there is a point -/
  fraction : Option (List Char)
  exponent : Option Int
  deriving DecidableEq

namespace Numeral

/-- a leading sign and what follows it -/
def cutSign : List Char → Option Char × List Char
  | '-' :: rest => (some '-', rest)
  | '+' :: rest => (some '+', rest)
  | rest => (none, rest)

/-- the point with its digits and what follows them -/
def cutFraction : List Char → Option (List Char) × List Char
  | '.' :: rest => (some (rest.takeWhile Char.isDigit), rest.dropWhile Char.isDigit)
  | rest => (none, rest)

/-- the exponent that a whole text is, none when the text is empty -/
def readExponent? : List Char → Option (Option Int)
  | [] => some none
  | e :: rest =>
    let (sign, ds) := cutSign rest
    if (e = 'e' ∨ e = 'E') ∧ ds ≠ [] ∧ ds.all Char.isDigit then
      some (some (if sign = some '-' then -(ofDigits ds : Int) else ofDigits ds))
    else none

/-- a text with a sign, digits, a point and an exponent, of which only the digits on one side of the
point are needed -/
def ofText? (cs : List Char) : Option Numeral := do
  let (sign, unsigned) := cutSign cs
  let whole := unsigned.takeWhile Char.isDigit
  let (fraction, rest) := cutFraction (unsigned.dropWhile Char.isDigit)
  let exponent ← readExponent? rest
  if whole = [] ∧ fraction.getD [] = [] then none
  else some { sign, whole, fraction, exponent }

/-- the number nearest to what the text says -/
def number (n : Numeral) : Number :=
  let places := n.fraction.getD []
  Decimal.toNumber (n.sign = some '-') ⟨ofDigits (n.whole ++ places), n.exponent.getD 0 - places.length⟩

end Numeral

end ChangeImpact
