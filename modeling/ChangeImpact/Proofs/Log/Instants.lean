/-
What the text of a point in time says.

The calendar is described here by what a day's successor is (`Date.next`): the next day of the month, or
the first of the next month, or that of the next year. `Date.number` counts the days from the start of
1970, and counts one more for the day after. `Instant.civil` finds the date with a given number, by way of
years that begin with March, and the text of an instant writes that date and the time of day. Reading it
back (`Instant.read?`) knows nothing of years that begin with March: it takes the fields off the text, asks
whether there is such a day and such a time, and counts.

Results:
- `Date.number_next`: the day after has the next number.
- `Instant.valid_civil`, `Instant.number_civil`: the date of a day is a date, and the one of that day.
- `Instant.read?_text`: the text of an instant is read as its milliseconds.
- `Instant.ofNumber?_eq_some_iff`: which numbers are instants, and of which milliseconds.
-/
import ChangeImpact.Instant
import ChangeImpact.Proofs.Number.ReadBack
import Mathlib.Tactic.IntervalCases

namespace ChangeImpact

/-! ## The calendar -/

/-- the years whose February has 29 days -/
def IsLeap (year : Int) : Prop :=
  4 ∣ year ∧ (¬ 100 ∣ year ∨ 400 ∣ year)

instance (year : Int) : Decidable (IsLeap year) :=
  inferInstanceAs (Decidable (_ ∧ _))

/-- how many days a month has -/
def daysIn (year : Int) (month : Nat) : Nat :=
  if month = 2 then if IsLeap year then 29 else 28
  else if month = 4 ∨ month = 6 ∨ month = 9 ∨ month = 11 then 30
  else 31

/-- how many days of a year come before a month -/
def daysBefore (year : Int) : Nat → Nat
  | 0 | 1 => 0
  | month + 2 => daysBefore year (month + 1) + daysIn year (month + 1)

/-- the number of the first day of a year, counted from the start of 1970 -/
def yearStart (year : Int) : Int :=
  365 * (year - 1970) + (year - 1969) / 4 - (year - 1901) / 100 + (year - 1601) / 400

namespace Date

/-- there is such a day in the calendar -/
structure Valid (d : Date) : Prop where
  month : 1 ≤ d.month ∧ d.month ≤ 12
  day : 1 ≤ d.day ∧ d.day ≤ daysIn d.year d.month

instance (d : Date) : Decidable d.Valid :=
  decidable_of_iff ((1 ≤ d.month ∧ d.month ≤ 12) ∧ 1 ≤ d.day ∧ d.day ≤ daysIn d.year d.month)
    ⟨fun h => ⟨h.1, h.2⟩, fun h => ⟨h.month, h.day⟩⟩

/-- the day after -/
def next (d : Date) : Date :=
  if d.day < daysIn d.year d.month then ⟨d.year, d.month, d.day + 1⟩
  else if d.month < 12 then ⟨d.year, d.month + 1, 1⟩
  else ⟨d.year + 1, 1, 1⟩

/-- how many days after the start of 1970 -/
def number (d : Date) : Int :=
  yearStart d.year + daysBefore d.year d.month + d.day - 1

theorem number_epoch : number ⟨1970, 1, 1⟩ = 0 := by decide

/-- the days of a whole year -/
theorem yearStart_next (year : Int) : yearStart (year + 1) = yearStart year + daysBefore year 12 + daysIn year 12 := by
  have hdays : daysBefore year 12 + daysIn year 12 = if IsLeap year then 366 else 365 := by
    simp [daysBefore, daysIn]
    split <;> rfl
  rw [Int.add_assoc, ← Int.natCast_add, hdays]
  by_cases h : IsLeap year
  · rw [if_pos h]
    unfold yearStart
    unfold IsLeap at h
    omega
  · rw [if_neg h]
    unfold yearStart
    unfold IsLeap at h
    omega

theorem valid_mk {year : Int} {month day : Nat} (hmonth : 1 ≤ month ∧ month ≤ 12)
    (hday : 1 ≤ day ∧ day ≤ daysIn year month) : Valid ⟨year, month, day⟩ :=
  ⟨hmonth, hday⟩

theorem valid_next {d : Date} (h : d.Valid) : d.next.Valid := by
  have hlong : ∀ year month, 28 ≤ daysIn year month := by
    intro year month
    unfold daysIn
    repeat' split
    all_goals omega
  unfold next
  split
  · next hday => exact valid_mk h.month ⟨Nat.le_add_left 1 d.day, hday⟩
  · have hfirst : ∀ year month, 1 ≤ 1 ∧ 1 ≤ daysIn year month := fun year month =>
      ⟨Nat.le_refl 1, Nat.le_trans (by decide) (hlong year month)⟩
    split
    · next hmonth => exact valid_mk ⟨Nat.le_add_left 1 d.month, hmonth⟩ (hfirst _ _)
    · exact valid_mk (by decide) (hfirst _ _)

/-- the day after has the next number -/
theorem number_next {d : Date} (h : d.Valid) : d.next.number = d.number + 1 := by
  obtain ⟨year, month, day⟩ := d
  obtain ⟨⟨hfirst, hlast⟩, -, hday⟩ := h
  simp only at hfirst hlast hday
  unfold next
  split
  · simp only [number]
    omega
  · next hend =>
    simp only at hend
    obtain rfl : day = daysIn year month := by omega
    split
    · -- a month later, as many days of the year have passed as the month has
      obtain ⟨m, rfl⟩ : ∃ m, month = m + 1 := ⟨month - 1, by omega⟩
      simp only [number, daysBefore]
      omega
    · next hmonth =>
      simp only at hmonth
      obtain rfl : month = 12 := by omega
      simp only [number, yearStart_next, daysBefore]
      omega

end Date

namespace Instant

/-! ## The date of a day -/

/-- the number of the first of March of a year -/
def marchStart (year : Int) : Int :=
  365 * year + year / 4 - year / 100 + year / 400 - 719468

/-- the first of March has a leap day before it, or not -/
theorem number_march (year : Int) : yearStart year + daysBefore year 3 = marchStart year := by
  have hdays : daysBefore year 3 = if IsLeap year then 60 else 59 := by
    simp [daysBefore, daysIn]
    split <;> rfl
  rw [hdays]
  by_cases h : IsLeap year
  · rw [if_pos h]
    unfold yearStart marchStart
    unfold IsLeap at h
    omega
  · rw [if_neg h]
    unfold yearStart marchStart
    unfold IsLeap at h
    omega

/-- so many days lie between the first of March and the first of a later month of the year -/
theorem daysBefore_fromMarch (year : Int) {months : Nat} (h : months < 10) :
    daysBefore year (months + 3) = daysBefore year 3 + (153 * months + 2) / 5 := by
  interval_cases months
  all_goals
    simp [daysBefore, daysIn]

/-- and between it and the first of January or February of the next year -/
theorem yearStart_fromMarch (year : Int) : yearStart (year + 1) = marchStart year + 306 := by
  unfold yearStart marchStart
  omega

/-- a day of a year that begins with March has a date, with the number of that day -/
theorem valid_dateFromMarch {year : Int} {n : Nat} (h : n < 365 ∨ n = 365 ∧ IsLeap (year + 1)) :
    (dateFromMarch year n).Valid ∧ (dateFromMarch year n).number = marchStart year + n := by
  have hmonths : (5 * n + 2) / 153 < 12 := by omega
  unfold dateFromMarch
  generalize hk : (5 * n + 2) / 153 = months at hmonths ⊢
  by_cases hten : months < 10
  · simp only [if_pos hten]
    refine ⟨Date.valid_mk ⟨by omega, by omega⟩ ⟨Nat.le_add_left 1 _, ?_⟩, ?_⟩
    · interval_cases months
      all_goals
        simp [daysIn]
        omega
    · have hmarch := number_march year
      simp only [Date.number, daysBefore_fromMarch year hten]
      omega
  · simp only [if_neg hten]
    have hstart := yearStart_fromMarch year
    obtain rfl | rfl : months = 10 ∨ months = 11 := by omega
    · refine ⟨Date.valid_mk (by decide) ⟨Nat.le_add_left 1 _, ?_⟩, ?_⟩
      · simp [daysIn]
        omega
      · simp only [Date.number, Nat.reduceSub, daysBefore, hstart]
        omega
    · have hdays : daysBefore (year + 1) 2 = 31 := rfl
      refine ⟨Date.valid_mk (by decide) ⟨Nat.le_add_left 1 _, ?_⟩, ?_⟩
      · by_cases hleap : IsLeap (year + 1)
        · have hn : n ≤ 365 := h.elim Nat.le_of_lt fun h => Nat.le_of_eq h.1
          simp [daysIn, hleap]
          omega
        · have hn : n < 365 := h.resolve_right fun h => hleap h.2
          simp [daysIn, hleap]
          omega
      · simp only [Date.number, Nat.reduceSub, hdays, hstart]
        omega

/-- a day of 400 years lies in one of them, and in the extra day of one before a leap year -/
theorem yearAndDay_spec {n : Nat} (h : n < 146097) :
    (yearAndDay n).1 < 400 ∧
    ((yearAndDay n).2 < 365 ∨ (yearAndDay n).2 = 365 ∧ IsLeap ((yearAndDay n).1 + 1)) ∧
    n = 365 * (yearAndDay n).1 + (yearAndDay n).1 / 4 - (yearAndDay n).1 / 100 + (yearAndDay n).2 := by
  obtain ⟨century, hc⟩ : ∃ century, century = min 3 (n / 36524) := ⟨_, rfl⟩
  obtain ⟨dayOfCentury, hd⟩ : ∃ d, d = n - 36524 * century := ⟨_, rfl⟩
  obtain ⟨four, hf⟩ : ∃ four, four = dayOfCentury / 1461 := ⟨_, rfl⟩
  obtain ⟨dayOfFour, hr⟩ : ∃ d, d = dayOfCentury % 1461 := ⟨_, rfl⟩
  obtain ⟨year, hy⟩ : ∃ year, year = min 3 (dayOfFour / 365) := ⟨_, rfl⟩
  have hyears : (yearAndDay n).1 = 100 * century + 4 * four + year := by
    simp only [yearAndDay, ← hc, ← hd, ← hf, ← hr, ← hy]
  have hdays : (yearAndDay n).2 = dayOfFour - 365 * year := by
    simp only [yearAndDay, ← hc, ← hd, ← hr, ← hy]
  rw [hyears, hdays]
  -- the last century has a day more than the others, and the last four years of the others have one less
  have hn : n = 36524 * century + dayOfCentury := by omega
  have hlast : century < 3 ∧ dayOfCentury < 36524 ∨ century = 3 ∧ dayOfCentury ≤ 36524 := by omega
  have hsplit : dayOfCentury = 1461 * four + dayOfFour := by omega
  have hfour : four < 24 ∧ dayOfFour < 1461 ∨ four = 24 ∧ dayOfFour ≤ 1460 := by omega
  have hyear : year < 3 ∧ dayOfFour - 365 * year < 365 ∨ year = 3 ∧ dayOfFour - 365 * year ≤ 365 := by omega
  have hwhole : dayOfFour = 365 * year + (dayOfFour - 365 * year) := by omega
  have hquarter : (100 * century + 4 * four + year) / 4 = 25 * century + four := by omega
  have hhundredth : (100 * century + 4 * four + year) / 100 = century := by omega
  clear hc hd hf hr hy
  refine ⟨by omega, ?_, by omega⟩
  unfold IsLeap
  omega

/-- the date of a day is a day of the calendar, and it is that day -/
theorem valid_civil (day : Int) : (civil day).Valid ∧ (civil day).number = day := by
  have hcycle := Int.fdiv_eq_ediv_of_nonneg (day + 719468) (b := 146097) (by decide)
  have hrest := Int.fmod_eq_emod_of_nonneg (day + 719468) (b := 146097) (by decide)
  unfold civil
  simp only [hcycle, hrest]
  obtain ⟨n, hn⟩ : ∃ n, n = ((day + 719468) % 146097).toNat := ⟨_, rfl⟩
  have hlt : n < 146097 := by omega
  obtain ⟨hyear, hextra, hsum⟩ := yearAndDay_spec hlt
  rw [← hn]
  generalize (yearAndDay n).1 = year at hyear hextra hsum ⊢
  generalize (yearAndDay n).2 = dayOfYear at hextra hsum ⊢
  have hleap : dayOfYear < 365 ∨ dayOfYear = 365 ∧ IsLeap ((day + 719468) / 146097 * 400 + year + 1) := by
    unfold IsLeap at hextra ⊢
    omega
  obtain ⟨hvalid, hnumber⟩ := valid_dateFromMarch hleap
  have hfour : ((day + 719468) / 146097 * 400 + year) / 4 = (day + 719468) / 146097 * 100 + year / 4 := by omega
  have hhundred : ((day + 719468) / 146097 * 400 + year) / 100 = (day + 719468) / 146097 * 4 + year / 100 := by omega
  have hall : ((day + 719468) / 146097 * 400 + year) / 400 = (day + 719468) / 146097 := by omega
  refine ⟨hvalid, hnumber.trans ?_⟩
  rw [marchStart, hfour, hhundred, hall]
  omega

/-! ## Reading a text -/

/-- takes a number of so many digits off a text -/
def takeNumber? (width : Nat) (cs : List Char) : Option (Nat × List Char) :=
  if (cs.take width).length = width ∧ (cs.take width).all Char.isDigit then
    some (ofDigits (cs.take width), cs.drop width)
  else none

/-- takes one character off a text -/
def takeMark? (mark : Char) : List Char → Option (List Char)
  | [] => none
  | c :: rest => if c = mark then some rest else none

/-- takes a year off: four digits, or a sign and six digits for a year that four digits cannot say -/
def takeYear? : List Char → Option (Int × List Char)
  | '-' :: cs => do
    let (n, cs) ← takeNumber? 6 cs
    if 0 < n then some (-(n : Int), cs) else none
  | '+' :: cs => do
    let (n, cs) ← takeNumber? 6 cs
    if 9999 < n then some ((n : Int), cs) else none
  | cs => do
    let (n, cs) ← takeNumber? 4 cs
    some ((n : Int), cs)

/-- takes a day of the calendar off -/
def takeDate? (cs : List Char) : Option (Date × List Char) := do
  let (year, cs) ← takeYear? cs
  let cs ← takeMark? '-' cs
  let (month, cs) ← takeNumber? 2 cs
  let cs ← takeMark? '-' cs
  let (day, cs) ← takeNumber? 2 cs
  if Date.Valid ⟨year, month, day⟩ then some (⟨year, month, day⟩, cs) else none

/-- takes a time of day off, in milliseconds -/
def takeTime? (cs : List Char) : Option (Nat × List Char) := do
  let (hour, cs) ← takeNumber? 2 cs
  let cs ← takeMark? ':' cs
  let (minute, cs) ← takeNumber? 2 cs
  let cs ← takeMark? ':' cs
  let (second, cs) ← takeNumber? 2 cs
  let cs ← takeMark? '.' cs
  let (millisecond, cs) ← takeNumber? 3 cs
  if hour < 24 ∧ minute < 60 ∧ second < 60 then
    some (((hour * 60 + minute) * 60 + second) * 1000 + millisecond, cs)
  else none

/-- the milliseconds since the start of 1970 that a text with a date, a time of day and the mark of universal time says -/
def read? (text : String) : Option Int := do
  let (date, cs) ← takeDate? text.toList
  let cs ← takeMark? 'T' cs
  let (time, cs) ← takeTime? cs
  if cs = ['Z'] then some (date.number * 86400000 + time) else none

theorem takeMark?_cons (mark : Char) (rest : List Char) : takeMark? mark (mark :: rest) = some rest :=
  if_pos rfl

theorem length_digits {width n : Nat} (hw : 0 < width) (h : n < Nat.pow 10 width) : (digits width n).length = width := by
  have hlength : (Nat.toDigits 10 n).length ≤ width := (digitCount_le_iff hw).mpr h
  rw [digits, List.length_append, List.length_replicate]
  omega

theorem isDigit_of_mem_digits {width n : Nat} {c : Char} (h : c ∈ digits width n) : c.isDigit = true := by
  rcases List.mem_append.mp h with h | h
  · rw [List.eq_of_mem_replicate h]
    rfl
  · exact isDigit_of_mem_toDigits h

theorem ofDigits_digits (width n : Nat) : ofDigits (digits width n) = n :=
  (ofDigits_zeros_append _ _).trans (ofDigits_toDigits n)

/-- digits are read as their number, whatever follows them -/
theorem takeNumber?_digits {width n : Nat} (hw : 0 < width) (h : n < Nat.pow 10 width) (rest : List Char) :
    takeNumber? width (digits width n ++ rest) = some (n, rest) := by
  have hlength := length_digits hw h
  have hall : (digits width n).all Char.isDigit = true := List.all_eq_true.mpr fun c hc => isDigit_of_mem_digits hc
  rw [takeNumber?, List.take_left' hlength, List.drop_left' hlength, if_pos ⟨hlength, hall⟩, ofDigits_digits]

/-- four digits do not begin with a sign -/
theorem takeYear?_digits {n : Nat} (h : n ≤ 9999) (rest : List Char) :
    takeYear? (digits 4 n ++ rest) = some ((n : Int), rest) := by
  have hread := @takeNumber?_digits 4 n (by decide) (Nat.lt_of_le_of_lt h (by decide)) rest
  have hlength := @length_digits 4 n (by decide) (Nat.lt_of_le_of_lt h (by decide))
  obtain ⟨c, cs, hcons⟩ : ∃ c cs, digits 4 n = c :: cs := List.exists_cons_of_length_pos (by omega)
  have hdigit : c.isDigit = true := isDigit_of_mem_digits (hcons ▸ List.mem_cons_self)
  rw [hcons] at hread ⊢
  unfold takeYear?
  split
  · next heq =>
    obtain ⟨rfl, -⟩ := List.cons.inj heq
    exact absurd hdigit (by decide)
  · next heq =>
    obtain ⟨rfl, -⟩ := List.cons.inj heq
    exact absurd hdigit (by decide)
  · rw [hread]
    rfl

/-- a year that six digits can say is read back -/
theorem takeYear?_yearText {year : Int} (h : year.natAbs < 1000000) (rest : List Char) :
    takeYear? (yearText year ++ rest) = some (year, rest) := by
  unfold yearText
  split
  · next hneg =>
    have hvalue : -(year.natAbs : Int) = year := by omega
    have hpos : 0 < year.natAbs := by omega
    rw [List.cons_append, takeYear?, takeNumber?_digits (by decide) h]
    simp only [Option.bind_eq_bind, Option.bind_some, if_pos hpos, hvalue]
  · split
    · next hneg hsmall =>
      have hvalue : (year.natAbs : Int) = year := by omega
      rw [takeYear?_digits (by omega), hvalue]
    · next hneg hlarge =>
      have hvalue : (year.natAbs : Int) = year := by omega
      have hlong : 9999 < year.natAbs := by omega
      rw [List.cons_append, takeYear?, takeNumber?_digits (by decide) h]
      simp only [Option.bind_eq_bind, Option.bind_some, if_pos hlong, hvalue]

/-- a day of the calendar is read back -/
theorem takeDate?_dateText {d : Date} (hd : d.Valid) (h : d.year.natAbs < 1000000) (rest : List Char) :
    takeDate? (dateText d ++ rest) = some (d, rest) := by
  have hmonth : d.month < Nat.pow 10 2 := Nat.lt_of_le_of_lt hd.month.2 (by decide)
  have hlong : daysIn d.year d.month ≤ 31 := by
    unfold daysIn
    repeat' split
    all_goals decide
  have hday : d.day < Nat.pow 10 2 := Nat.lt_of_le_of_lt (Nat.le_trans hd.day.2 hlong) (by decide)
  rw [dateText]
  simp only [List.append_assoc, List.cons_append, takeDate?, takeYear?_yearText h, Option.bind_eq_bind, Option.bind_some,
    takeMark?_cons, takeNumber?_digits (by decide) hmonth, takeNumber?_digits (by decide) hday]
  exact if_pos hd

/-- a time of day is read back -/
theorem takeTime?_timeText {n : Nat} (h : n < 86400000) (rest : List Char) :
    takeTime? (timeText n ++ rest) = some (n, rest) := by
  have hhour : n / 3600000 < Nat.pow 10 2 := by
    change _ < 100
    omega
  have hminute : n / 60000 % 60 < Nat.pow 10 2 := by
    change _ < 100
    omega
  have hsecond : n / 1000 % 60 < Nat.pow 10 2 := by
    change _ < 100
    omega
  have hmillisecond : n % 1000 < Nat.pow 10 3 := Nat.mod_lt n (by decide)
  have hsum : ((n / 3600000 * 60 + n / 60000 % 60) * 60 + n / 1000 % 60) * 1000 + n % 1000 = n := by omega
  rw [timeText]
  simp only [List.append_assoc, List.cons_append, takeTime?, Option.bind_eq_bind, Option.bind_some, takeMark?_cons,
    takeNumber?_digits (by decide) hhour, takeNumber?_digits (by decide) hminute, takeNumber?_digits (by decide) hsecond,
    takeNumber?_digits (by decide) hmillisecond, hsum]
  exact if_pos ⟨by omega, by omega, by omega⟩

/-- the years that instants lie in -/
theorem natAbs_year_lt (i : Instant) : (civil (i.milliseconds.fdiv 86400000)).year.natAbs < 1000000 := by
  obtain ⟨hvalid, hnumber⟩ := valid_civil (i.milliseconds.fdiv 86400000)
  have hday := Int.fdiv_eq_ediv_of_nonneg i.milliseconds (b := 86400000) (by decide)
  have hrange := i.inRange
  rw [hday] at hvalid hnumber ⊢
  generalize civil (i.milliseconds / 86400000) = d at hvalid hnumber ⊢
  obtain ⟨year, month, day⟩ := d
  obtain ⟨⟨-, hmonth⟩, -, hlast⟩ := hvalid
  have hbefore : daysBefore year month ≤ 335 := by
    simp only at hmonth
    interval_cases month
    all_goals
      simp [daysBefore, daysIn]
      try split
      all_goals omega
  have hlong : daysIn year month ≤ 31 := by
    unfold daysIn
    repeat' split
    all_goals decide
  simp only [Date.number, yearStart] at hnumber hlast ⊢
  unfold farthest at hrange
  omega

/-- **The text of an instant is the time that it says.** -/
theorem read?_text (i : Instant) : read? i.text = some i.milliseconds := by
  obtain ⟨hvalid, hnumber⟩ := valid_civil (i.milliseconds.fdiv 86400000)
  have htime : (i.milliseconds.fmod 86400000).toNat < 86400000 := by
    rw [Int.fmod_eq_emod_of_nonneg _ (by decide)]
    omega
  have hsum : i.milliseconds.fdiv 86400000 * 86400000 + (i.milliseconds.fmod 86400000).toNat = i.milliseconds := by
    rw [Int.fdiv_eq_ediv_of_nonneg _ (by decide), Int.fmod_eq_emod_of_nonneg _ (by decide)]
    omega
  rw [read?, text, String.toList_ofList]
  simp only [List.append_assoc, List.cons_append, takeDate?_dateText hvalid (natAbs_year_lt i), Option.bind_eq_bind,
    Option.bind_some, takeMark?_cons, takeTime?_timeText htime, hnumber, hsum, if_true]

/-! ## Numbers as instants -/

theorem natAbs_truncate (x : Finite) : x.truncate.natAbs = x.size / unitsInOne := by
  simp only [Finite.truncate]
  split
  · rw [Int.natAbs_neg, Int.natAbs_natCast]
  · rw [Int.natAbs_natCast]

/-- a clock's number of milliseconds is an instant: it is finite and at most 8.64e15 from 0, and its fraction does not count -/
def IsAt (i : Instant) (now : Number) : Prop :=
  ∃ x : Finite, now = .finite x ∧ x.size ≤ 8640000000000000 * unitsInOne ∧
    i.milliseconds = if x.negative then -((x.size / unitsInOne : Nat) : Int) else (x.size / unitsInOne : Nat)

theorem ofNumber?_eq_some_iff {now : Number} {i : Instant} : ofNumber? now = some i ↔ i.IsAt now := by
  unfold IsAt
  have hfarthest : farthest = 8640000000000000 := rfl
  rw [← hfarthest]
  clear hfarthest
  cases now with
  | finite x =>
    have hinside : x.size ≤ farthest * unitsInOne → x.truncate.natAbs ≤ farthest := by
      intro h
      rw [natAbs_truncate]
      exact Nat.div_le_of_le_mul (Nat.mul_comm farthest unitsInOne ▸ h)
    constructor
    · intro h
      simp only [ofNumber?] at h
      split at h
      · split at h
        · next hsize =>
          obtain rfl := Option.some.inj h
          exact ⟨x, rfl, hsize, rfl⟩
        · contradiction
      · contradiction
    · intro h
      obtain ⟨y, hy, hsize, hvalue⟩ := h
      obtain rfl : x = y := Number.finite.inj hy
      have hsame : (⟨x.truncate, hinside hsize⟩ : Instant) = i := by
        cases i
        simp only at hvalue
        simp only [Finite.truncate, hvalue]
      rw [← hsame]
      simp only [ofNumber?, dif_pos (hinside hsize)]
      exact if_pos hsize
  | infinite negative => exact iff_of_false nofun fun h => by obtain ⟨x, hx, -⟩ := h; cases hx
  | undefined => exact iff_of_false nofun fun h => by obtain ⟨x, hx, -⟩ := h; cases hx

/-- the first millisecond of 1970, and the last one before a leap day that a century divides -/
example : read? "1970-01-01T00:00:00.000Z" = some 0 ∧ read? "2000-02-28T23:59:59.999Z" = some 951782399999 := by decide

end Instant

end ChangeImpact
