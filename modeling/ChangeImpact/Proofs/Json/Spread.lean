/-
An object spread over several lines.

`Json.writeLines` puts each field of an object of strings on a line of its own, two spaces deep. The reader
skips blanks in front of a key, of a value and of the mark after a value, so the object that it finds is the
one that is written without them, whatever characters the strings have.

Results:
- `readFields_fieldLines`: the fields are read up to the brace.
- `read?_writeLines`: a spread object with a line feed at its end is read as the object of its fields.
-/
import ChangeImpact.Proofs.Json.ReadBack
import ChangeImpact.Proofs.Tables.Entries

namespace ChangeImpact

namespace Fields

/-- fields without an index key, each key once, are in their order -/
theorem ofEntries_of_nodup {α : Type} {fields : Fields α} (h : fields.keys.Nodup)
    (hindex : ∀ f ∈ fields, index? f.1 = none) : ofEntries fields = fields := by
  have hput : putAll [] fields = fields := putAll_of_nodup h
  have hindexed : indexed fields = [] := @indexed_of_ascending α [] fields .nil nofun hindex
  have hothers : (fields.filter fun f => (index? f.1).isNone) = fields := by
    apply List.filter_eq_self.mpr
    intro f hf
    rw [hindex f hf]
    rfl
  calc ofEntries fields
      = arrange (putAll [] fields) := rfl
    _ = arrange fields := by rw [hput]
    _ = fields := by rw [arrange_eq, hindexed, hothers, List.map_nil, List.nil_append]

end Fields

namespace Json

/-! ## Blanks -/

section

variable {c : Char} (h : isSpace c = true) (fuel : Nat) (cs : List Char)
include h

theorem skipSpaces_space : skipSpaces (c :: cs) = skipSpaces cs :=
  List.dropWhile_cons_of_pos h

theorem readFields_space : readFields fuel (c :: cs) = readFields fuel cs := by
  cases fuel with
  | zero => simp only [readFields]
  | succ fuel => rw [readFields, readFields, skipSpaces_space h]

theorem readValue_space : readValue fuel (c :: cs) = readValue fuel cs := by
  cases fuel with
  | zero => simp only [readValue]
  | succ fuel => rw [readValue, readValue, skipSpaces_space h]

end

/-! ## Fields -/

theorem fieldLines_last (f : String × String) (rest : List Char) :
    fieldLines [f] ++ rest = ' ' :: ' ' :: (quote f.1 ++ ':' :: ' ' :: (quote f.2 ++ '\n' :: rest)) := by
  simp [fieldLines]

theorem fieldLines_cons {f : String × String} {more : List (String × String)} (h : more ≠ []) (rest : List Char) :
    fieldLines (f :: more) ++ rest =
      ' ' :: ' ' :: (quote f.1 ++ ':' :: ' ' :: (quote f.2 ++ ',' :: '\n' :: (fieldLines more ++ rest))) := by
  rw [fieldLines]
  · simp
  · exact h

/-- a string after a blank, in front of what does not go on like a number -/
theorem readValue_spread {s : String} {fuel : Nat} {rest : List Char} (hfuel : (quote s).length < fuel)
    (hends : Ends rest) : readValue fuel (' ' :: (quote s ++ rest)) = some (.string s, rest) := by
  have hstring := reads_string s fuel rest
  rw [write] at hstring
  rw [readValue_space rfl]
  exact hstring hfuel hends

theorem ends_feed (rest : List Char) : Ends ('\n' :: rest) := by
  rintro c ⟨⟩
  rfl

/-- the fields of a spread object are read up to the brace -/
theorem readFields_fieldLines {fields : List (String × String)} (hsome : fields ≠ []) {fuel : Nat}
    (hfuel : (fieldLines fields).length + 1 < fuel) (rest : List Char) :
    readFields fuel (fieldLines fields ++ '\x7d' :: rest) =
      some (fields.map fun f => (f.1, .string f.2), rest) := by
  induction fields generalizing fuel with
  | nil => contradiction
  | cons f more ih =>
    obtain ⟨fuel, rfl⟩ := Nat.exists_eq_succ_of_ne_zero (Nat.ne_of_gt (Nat.zero_lt_of_lt hfuel))
    by_cases hmore : more = []
    · subst hmore
      have hlength := congrArg List.length (fieldLines_last f [])
      simp at hlength
      rw [fieldLines_last, readFields_space rfl, readFields_space rfl]
      have hvalue : readValue fuel (' ' :: (quote f.2 ++ '\n' :: '\x7d' :: rest)) = _ :=
        readValue_spread (by omega) (ends_feed _)
      exact readFields_last hvalue rfl
    · have hlength := congrArg List.length (@fieldLines_cons f more hmore [])
      simp at hlength
      rw [fieldLines_cons hmore, readFields_space rfl, readFields_space rfl]
      have hvalue : readValue fuel (' ' :: (quote f.2 ++ ',' :: '\n' :: (fieldLines more ++ '\x7d' :: rest))) = _ :=
        readValue_spread (by omega) (ends_comma _)
      refine readFields_more hvalue ?_
      rw [readFields_space rfl]
      exact ih hmore (by omega)

/-- what is written for fields begins with two spaces and the quote of the first key -/
theorem fieldLines_eq_cons (f : String × String) (more : List (String × String)) :
    ∃ rest, fieldLines (f :: more) = ' ' :: ' ' :: '"' :: rest := by
  rw [← List.append_nil (fieldLines (f :: more))]
  by_cases hmore : more = []
  · subst hmore
    rw [fieldLines_last, quote_append]
    exact ⟨_, rfl⟩
  · rw [fieldLines_cons hmore, quote_append]
    exact ⟨_, rfl⟩

/-! ## Whole texts -/

/-- **A spread object is read as the object of its fields**, when these stand in the order in which an object has them. -/
theorem read?_writeLines {fields : List (String × String)}
    (h : Fields.ofEntries (fields.map fun f => (f.1, Value.string f.2)) = fields.map fun f => (f.1, .string f.2)) :
    read? (String.ofList (writeLines fields ++ ['\n'])) = some (.object (fields.map fun f => (f.1, .string f.2))) := by
  have hread : readValue ((writeLines fields ++ ['\n']).length + 1) (writeLines fields ++ ['\n']) =
      some (.object (fields.map fun f => (f.1, .string f.2)), ['\n']) := by
    have hwritten : writeLines fields ++ ['\n'] = '{' :: '\n' :: (fieldLines fields ++ '\x7d' :: ['\n']) := by
      simp [writeLines]
    rw [hwritten, readValue, skipSpaces_cons rfl]
    cases fields with
    | nil => rfl
    | cons f more =>
      have hfields : readFields ('{' :: '\n' :: (fieldLines (f :: more) ++ ['\x7d', '\n'])).length
          (fieldLines (f :: more) ++ ['\x7d', '\n']) = _ :=
        readFields_fieldLines (List.cons_ne_nil f more) (by simp) ['\n']
      obtain ⟨tail, hquote⟩ := fieldLines_eq_cons f more
      have hstart : skipSpaces ('\n' :: (fieldLines (f :: more) ++ ['\x7d', '\n'])) = '"' :: (tail ++ ['\x7d', '\n']) := by
        rw [hquote]
        rfl
      have hspace : isSpace '\n' = true := rfl
      simp only [hstart]
      rw [readFields_space hspace, hfields, Option.map_some, Value.ofEntries, h]
      rfl
  unfold read?
  rw [String.toList_ofList]
  simp only [hread, Option.bind_eq_bind, Option.bind_some]
  rfl

end Json

end ChangeImpact
