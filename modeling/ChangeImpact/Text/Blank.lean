/-
Blank characters and trimming.

A character is blank when it is one of the 25 listed below: the ASCII spacing characters, the
Unicode space separators, the two line separators and the byte order mark. U+0085, U+180E and U+200B
are not blank. `strip` takes the blank characters off both ends of a text and touches nothing
between them; `present?` is a text that must not be blank.
-/

namespace ChangeImpact.Text

/-- the blank characters, as inclusive ranges of code points -/
def blankRanges : List (Nat × Nat) :=
  [(0x09, 0x0D), (0x20, 0x20), (0xA0, 0xA0), (0x1680, 0x1680), (0x2000, 0x200A), (0x2028, 0x2029), (0x202F, 0x202F),
   (0x205F, 0x205F), (0x3000, 0x3000), (0xFEFF, 0xFEFF)]

def isBlank (c : Char) : Bool :=
  blankRanges.any fun r => r.1 ≤ c.toNat && c.toNat ≤ r.2

/-- the text without the blank characters at its end -/
def stripEnd : List Char → List Char
  | [] => []
  | c :: rest =>
    match stripEnd rest with
    | [] => if isBlank c then [] else [c]
    | kept => c :: kept

/-- the text without the blank characters at either end -/
def strip (cs : List Char) : List Char :=
  stripEnd (cs.dropWhile isBlank)

/-- `strip` on strings -/
def trim (s : String) : String :=
  String.ofList (strip s.toList)

/-- the trimmed text, when anything is left of it -/
def present? (s : String) : Option String :=
  if (trim s).isEmpty then none else some (trim s)

theorem stripEnd_cons_of_not_blank (c : Char) (rest : List Char) (h : isBlank c = false) :
    stripEnd (c :: rest) = c :: stripEnd rest := by
  cases hr : stripEnd rest <;> simp [stripEnd, hr, h]

theorem stripEnd_cons_of_kept (c : Char) {rest : List Char} (h : stripEnd rest ≠ []) :
    stripEnd (c :: rest) = c :: stripEnd rest := by
  cases hr : stripEnd rest with
  | nil => contradiction
  | cons d ds => simp only [stripEnd, hr]

theorem stripEnd_stripEnd (cs : List Char) : stripEnd (stripEnd cs) = stripEnd cs := by
  induction cs with
  | nil => rfl
  | cons c cs ih =>
    by_cases hkept : stripEnd cs = []
    · cases hb : isBlank c <;> simp [stripEnd, hkept, hb]
    · have hagain : stripEnd (stripEnd cs) ≠ [] := ih.symm ▸ hkept
      rw [stripEnd_cons_of_kept c hkept, stripEnd_cons_of_kept c hagain, ih]

/-- the blank characters can be taken off the end first -/
theorem stripEnd_dropWhile (cs : List Char) : stripEnd (cs.dropWhile isBlank) = (stripEnd cs).dropWhile isBlank := by
  induction cs with
  | nil => rfl
  | cons c cs ih =>
    cases hb : isBlank c with
    | false =>
      rw [List.dropWhile_cons_of_neg (by simp [hb]), stripEnd_cons_of_not_blank c cs hb,
        List.dropWhile_cons_of_neg (by simp [hb])]
    | true =>
      rw [List.dropWhile_cons_of_pos hb, ih]
      by_cases hkept : stripEnd cs = []
      · simp [stripEnd, hkept, hb]
      · rw [stripEnd_cons_of_kept c hkept, List.dropWhile_cons_of_pos hb]

/-- what has been stripped stays as it is -/
theorem strip_strip (cs : List Char) : strip (strip cs) = strip cs := by
  have hagain : (cs.dropWhile isBlank).dropWhile isBlank = cs.dropWhile isBlank := by
    cases hd : cs.dropWhile isBlank with
    | nil => rfl
    | cons c ds =>
      have hc := List.head_dropWhile_not isBlank (l := cs) (by simp [hd])
      exact List.dropWhile_cons_of_neg (by simpa [hd] using hc)
  calc strip (strip cs)
      = stripEnd (stripEnd ((cs.dropWhile isBlank).dropWhile isBlank)) := by
        rw [strip, strip, ← stripEnd_dropWhile (cs.dropWhile isBlank)]
    _ = strip cs := by rw [stripEnd_stripEnd, hagain, strip]

theorem trim_trim (s : String) : trim (trim s) = trim s := by
  unfold trim
  rw [String.toList_ofList, strip_strip]

theorem present?_eq_some_iff {s t : String} : present? s = some t ↔ t ≠ "" ∧ trim s = t := by
  unfold present?
  split
  · next hblank =>
    have hempty : trim s = "" := String.isEmpty_iff.mp hblank
    rw [hempty]
    refine ⟨nofun, fun h => absurd h.2.symm h.1⟩
  · next hkept =>
    have hne : trim s ≠ "" := fun h => hkept (String.isEmpty_iff.mpr h)
    constructor
    · rintro h
      obtain rfl := Option.some.inj h
      exact ⟨hne, rfl⟩
    · rintro ⟨-, rfl⟩
      rfl

end ChangeImpact.Text
