/-
Cutting a text at a separator, and into lines.

`pieces` cuts at every occurrence of one character, so a text with n separators has n + 1 pieces and
joining them again gives the text back. `lines` cuts at line feeds and takes one carriage return
before each of them along; a carriage return that no line feed follows is an ordinary character.
-/

namespace ChangeImpact.Text

/-- puts a character in front of the first piece -/
def onFirst (c : Char) : List (List Char) → List (List Char)
  | [] => [[c]]
  | p :: ps => (c :: p) :: ps

/-- the pieces between the occurrences of a separator -/
def pieces (separator : Char) : List Char → List (List Char)
  | [] => [[]]
  | c :: rest => if c = separator then [] :: pieces separator rest else onFirst c (pieces separator rest)

/-- the lines of a text, each ended by a line feed or by a carriage return and a line feed -/
def lines : List Char → List (List Char)
  | [] => [[]]
  | '\r' :: '\n' :: rest => [] :: lines rest
  | c :: rest => if c = '\n' then [] :: lines rest else onFirst c (lines rest)

/-- the pieces with one separator between each two neighbours -/
def joinPieces (separator : Char) : List (List Char) → List Char
  | [] => []
  | [p] => p
  | p :: q :: ps => p ++ separator :: joinPieces separator (q :: ps)

/-- `pieces` on strings -/
def splitAt (separator : Char) (s : String) : List String :=
  (pieces separator s.toList).map String.ofList

/-- `lines` on strings -/
def splitLines (s : String) : List String :=
  (lines s.toList).map String.ofList

theorem pieces_ne_nil (separator : Char) (cs : List Char) : pieces separator cs ≠ [] := by
  cases cs with
  | nil => simp [pieces]
  | cons c rest =>
    rw [pieces]
    split
    · simp
    · cases pieces separator rest <;> simp [onFirst]

theorem joinPieces_onFirst (separator c : Char) (ps : List (List Char)) (h : ps ≠ []) :
    joinPieces separator (onFirst c ps) = c :: joinPieces separator ps := by
  cases ps with
  | nil => contradiction
  | cons p ps => cases ps <;> simp [onFirst, joinPieces]

theorem joinPieces_nil_cons (separator : Char) (ps : List (List Char)) (h : ps ≠ []) :
    joinPieces separator ([] :: ps) = separator :: joinPieces separator ps := by
  cases ps with
  | nil => contradiction
  | cons p ps => simp [joinPieces]

/-- cutting loses nothing -/
theorem joinPieces_pieces (separator : Char) (cs : List Char) : joinPieces separator (pieces separator cs) = cs := by
  induction cs with
  | nil => rfl
  | cons c rest ih =>
    rw [pieces]
    split
    · next h => rw [joinPieces_nil_cons _ _ (pieces_ne_nil _ _), ih, h]
    · rw [joinPieces_onFirst _ _ _ (pieces_ne_nil _ _), ih]

theorem pieces_of_not_mem {separator : Char} {cs : List Char} (h : separator ∉ cs) : pieces separator cs = [cs] := by
  induction cs with
  | nil => rfl
  | cons c rest ih =>
    have hc : c ≠ separator := fun e => h (e ▸ List.mem_cons_self)
    have hrest : separator ∉ rest := fun m => h (List.mem_cons_of_mem _ m)
    rw [pieces, if_neg hc, ih hrest]
    rfl

theorem pieces_append (separator : Char) (xs ys : List Char) :
    pieces separator (xs ++ separator :: ys) = pieces separator xs ++ pieces separator ys := by
  induction xs with
  | nil => simp [pieces]
  | cons x xs ih =>
    rw [List.cons_append, pieces, pieces, ih]
    split
    · rfl
    · obtain ⟨p, ps, hp⟩ := List.exists_cons_of_ne_nil (pieces_ne_nil separator xs)
      simp [hp, onFirst]

/-- pieces that do not have the separator are found again -/
theorem pieces_joinPieces {separator : Char} {ps : List (List Char)} (hne : ps ≠ []) (h : ∀ p ∈ ps, separator ∉ p) :
    pieces separator (joinPieces separator ps) = ps := by
  induction ps with
  | nil => contradiction
  | cons p ps ih =>
    have hp : separator ∉ p := h p List.mem_cons_self
    cases ps with
    | nil => exact pieces_of_not_mem hp
    | cons q ps =>
      have hq : ∀ r ∈ q :: ps, separator ∉ r := fun r hr => h r (List.mem_cons_of_mem _ hr)
      rw [joinPieces, pieces_append, pieces_of_not_mem hp, ih (List.cons_ne_nil q ps) hq]
      rfl

end ChangeImpact.Text
