/-
JSON that is read back as it was written.

`Value.IsJson` are the values that JSON can say: their numbers are finite, and the fields of their objects
stand in the order in which an object has them, each key once. What is written for such a value is read
as the same value, whatever follows it, as long as no number goes on there (`Ends`). The induction is on
the value; arrays and objects are walked with the values inside already known to be read back (`Reads`).
The reader counts its steps down, and the length of the text is enough of them.

Results:
- `readChars_escape`: one character of a string, escaped or not.
- `reads_of_isJson`: every JSON value is read back.
- `read?_write`: so is a whole text, with a line feed at its end.
- `newline_not_mem_write`: the text of a value has no line feed.
-/
import ChangeImpact.Proofs.Number.ReadBack

namespace ChangeImpact

/-- the values that JSON can say -/
inductive Value.IsJson : Value → Prop
  | null : IsJson .null
  | bool (b : Bool) : IsJson (.bool b)
  | number (x : Finite) : IsJson (.number (.finite x))
  | string (s : String) : IsJson (.string s)
  | array {items : List Value} (each : ∀ v ∈ items, IsJson v) : IsJson (.array items)
  | object {fields : List (String × Value)} (arranged : Fields.ofEntries fields = fields)
      (each : ∀ e ∈ fields, IsJson e.2) : IsJson (.object fields)

namespace Json

/-! ## Strings -/

theorem hexValue?_hexDigit (n : Nat) : hexValue? (hexDigit n) = some (n % 16) := by
  have hall : ∀ k < 16, hexValue? (Nat.digitChar k) = some k := by decide
  exact hall _ (Nat.mod_lt _ (by decide))

theorem unit?_control {n : Nat} (h : n < 0x20) : unit? '0' '0' (hexDigit (n / 16)) (hexDigit n) = some n := by
  have hzero : hexValue? '0' = some 0 := rfl
  simp only [unit?, hzero, hexValue?_hexDigit, Option.bind_eq_bind, Option.bind_some, Option.pure_def, Option.some.injEq]
  omega

section

variable {c letter : Char} {fuel : Nat} {more : List Char}

theorem readChars_letter (hu : letter ≠ 'u') (h : escaped? letter = some c) :
    readChars (fuel + 1) ('\\' :: letter :: more) = (readChars fuel more).map fun r => (c :: r.1, r.2) := by
  rw [readChars]
  · simp only [h]
    cases readChars fuel more <;> rfl
  · exact fun _ _ _ _ _ heq _ => hu heq

theorem readChars_control (h : c.toNat < 0x20) :
    readChars (fuel + 1) (['\\', 'u', '0', '0', hexDigit (c.toNat / 16), hexDigit c.toNat] ++ more) =
      (readChars fuel more).map fun r => (c :: r.1, r.2) := by
  have hhigh : isHigh c.toNat = false := by
    simp [isHigh]
    omega
  have hunit : ofUnit c.toNat = c := by
    have hlow : isLow c.toNat = false := by
      simp [isLow]
      omega
    simp [ofUnit, hhigh, hlow]
  simp only [List.cons_append, List.nil_append]
  rw [readChars]
  simp only [unit?_control h, Option.bind_eq_bind, Option.bind_some, hhigh, Bool.false_eq_true, if_false, hunit]
  cases readChars fuel more <;> rfl

theorem readChars_plain (hquote : c ≠ '"') (hslash : c ≠ '\\') (h : ¬ c.toNat < 0x20) :
    readChars (fuel + 1) (c :: more) = (readChars fuel more).map fun r => (c :: r.1, r.2) := by
  rw [readChars]
  · rw [if_neg h]
    cases readChars fuel more <;> rfl
  · exact hquote
  · exact fun _ _ _ _ _ heq _ => hslash heq
  · exact fun _ _ heq _ => hslash heq

end

/-- one character of a string takes one step, however it is written -/
theorem readChars_escape (c : Char) (fuel : Nat) (more : List Char) :
    readChars (fuel + 1) (escape c ++ more) = (readChars fuel more).map fun r => (c :: r.1, r.2) := by
  unfold escape
  split
  · next h =>
    subst h
    exact readChars_letter (by decide) rfl
  split
  · next h =>
    subst h
    exact readChars_letter (by decide) rfl
  split
  · next h =>
    subst h
    exact readChars_letter (by decide) rfl
  split
  · next h =>
    subst h
    exact readChars_letter (by decide) rfl
  split
  · next h =>
    subst h
    exact readChars_letter (by decide) rfl
  split
  · next h =>
    obtain rfl : c = Char.ofNat 8 := by rw [← h, Char.ofNat_toNat]
    exact readChars_letter (by decide) rfl
  split
  · next h =>
    obtain rfl : c = Char.ofNat 12 := by rw [← h, Char.ofNat_toNat]
    exact readChars_letter (by decide) rfl
  split
  · next h => exact readChars_control h
  · next hquote hslash _ _ _ _ _ h => exact readChars_plain hquote hslash h

/-- a string is read up to its closing quote -/
theorem readChars_quoted (cs : List Char) {fuel : Nat} (h : cs.length < fuel) (rest : List Char) :
    readChars fuel (cs.flatMap escape ++ '"' :: rest) = some (cs, rest) := by
  induction cs generalizing fuel with
  | nil =>
    obtain ⟨fuel, rfl⟩ := Nat.exists_eq_succ_of_ne_zero (Nat.ne_of_gt h)
    rfl
  | cons c cs ih =>
    obtain ⟨fuel, rfl⟩ := Nat.exists_eq_succ_of_ne_zero (Nat.ne_of_gt (Nat.zero_lt_of_lt h))
    rw [List.flatMap_cons, List.append_assoc, readChars_escape, ih (Nat.lt_of_succ_lt_succ h)]
    rfl

theorem length_le_escaped (cs : List Char) : cs.length ≤ (cs.flatMap escape).length := by
  have hpos : ∀ c, 0 < (escape c).length := by
    intro c
    unfold escape
    repeat' split
    all_goals simp
  induction cs with
  | nil => exact Nat.le_refl _
  | cons c cs ih =>
    have hc := hpos c
    rw [List.flatMap_cons, List.length_append, List.length_cons]
    omega

theorem quote_append (s : String) (rest : List Char) :
    quote s ++ rest = '"' :: (s.toList.flatMap escape ++ '"' :: rest) := by
  simp [quote]

/-- after its opening quote a string is read as the reader does it, with the length of all that follows -/
theorem readChars_quote (s : String) (rest : List Char) :
    readChars ((s.toList.flatMap escape ++ '"' :: rest).length + 1) (s.toList.flatMap escape ++ '"' :: rest) =
      some (s.toList, rest) := by
  refine readChars_quoted s.toList ?_ rest
  have hlength := length_le_escaped s.toList
  rw [List.length_append]
  omega

/-! ## Values -/

/-- what follows a value does not go on like a number -/
def Ends (rest : List Char) : Prop :=
  ∀ c, rest.head? = some c → isNumeral c = false

/-- a value is read back, whatever follows -/
def Reads (v : Value) : Prop :=
  ∀ (fuel : Nat) (rest : List Char), (write v).length < fuel → Ends rest → readValue fuel (write v ++ rest) = some (v, rest)

/-- the reader's first step is enough to look at -/
theorem reads_of_step {v : Value} (h : ∀ (fuel : Nat) (rest : List Char), (write v).length ≤ fuel → Ends rest →
    readValue (fuel + 1) (write v ++ rest) = some (v, rest)) : Reads v := by
  intro fuel rest hfuel hends
  cases fuel with
  | zero => contradiction
  | succ fuel => exact h fuel rest (Nat.le_of_lt_succ hfuel) hends

theorem skipSpaces_cons {c : Char} (h : isSpace c = false) (rest : List Char) : skipSpaces (c :: rest) = c :: rest :=
  List.dropWhile_cons_of_neg (by simp [h])

/-- a number begins with none of the characters that the reader looks for -/
theorem not_mark_of_start {c : Char} (h : c = '-' ∨ c.isDigit = true) :
    c ∉ [' ', '\n', '\r', '\t', '"', '[', ']', '{', 'n', 't', 'f'] := by
  have hmarks : ([' ', '\n', '\r', '\t', '"', '[', ']', '{', 'n', 't', 'f'].all fun d => d ≠ '-' && !d.isDigit) = true := rfl
  intro hc
  obtain ⟨hminus, hdigit⟩ := Bool.and_eq_true_iff.mp (List.all_eq_true.mp hmarks c hc)
  rcases h with rfl | h
  · contradiction
  · rw [h] at hdigit
    contradiction

theorem isSpace_of_start {c : Char} (h : c = '-' ∨ c.isDigit = true) : isSpace c = false := by
  have hmark := not_mark_of_start h
  simp only [List.mem_cons, not_or] at hmark
  obtain ⟨hblank, hfeed, hreturn, htab, -⟩ := hmark
  simp [isSpace, hblank, hfeed, hreturn, htab]

/-- what is written for a value is not taken for a blank or for the end of an array -/
theorem write_eq_cons {v : Value} (h : v.IsJson) : ∃ c rest, write v = c :: rest ∧ isSpace c = false ∧ c ≠ ']' := by
  cases h with
  | null => exact ⟨'n', _, by rw [write]; rfl, rfl, by decide⟩
  | bool b =>
    cases b
    · exact ⟨'f', _, by rw [write]; rfl, rfl, by decide⟩
    · exact ⟨'t', _, by rw [write]; rfl, rfl, by decide⟩
  | number x =>
    obtain ⟨n, hplain, htext, -⟩ := x.exists_numeral
    obtain ⟨c, rest, hc, hstart⟩ := Numeral.text_eq_cons hplain
    refine ⟨c, rest, by rw [write, writeNumber, ← htext, hc], isSpace_of_start hstart, fun heq => ?_⟩
    exact not_mark_of_start hstart (by simp [heq])
  | string s => exact ⟨'"', _, by rw [write]; rfl, rfl, by decide⟩
  | array => exact ⟨'[', _, by rw [write]; rfl, rfl, by decide⟩
  | object => exact ⟨'{', _, by rw [write]; rfl, rfl, by decide⟩

theorem reads_null : Reads .null := by
  apply reads_of_step
  intro fuel rest _ _
  rw [write]
  rfl

theorem reads_bool (b : Bool) : Reads (.bool b) := by
  apply reads_of_step
  intro fuel rest _ _
  rw [write]
  cases b <;> rfl

theorem reads_string (s : String) : Reads (.string s) := by
  apply reads_of_step
  intro fuel rest _ _
  rw [write, quote_append, readValue, skipSpaces_cons rfl]
  simp only [readChars_quote, Option.map_some, String.ofList_toList]

theorem reads_number (x : Finite) : Reads (.number (.finite x)) := by
  apply reads_of_step
  intro fuel rest _ hends
  obtain ⟨n, hplain, htext, hnumber⟩ := x.exists_numeral
  obtain ⟨c, tail, hc, hstart⟩ := Numeral.text_eq_cons hplain
  obtain ⟨htake, hdrop⟩ := takeWhile_run (Numeral.isNumeral_of_mem_text hplain) hends
  have hread := Numeral.readNumber?_text hplain
  rw [write, writeNumber, ← htext]
  rw [hc] at htake hdrop hread ⊢
  rw [List.cons_append] at htake hdrop ⊢
  have hmark := not_mark_of_start hstart
  rw [readValue, skipSpaces_cons (isSpace_of_start hstart)]
  split
  case h_1 => contradiction
  case h_8 =>
    rw [htake, hdrop, hread, hnumber]
    rfl
  all_goals
    next heq =>
      rw [(List.cons.inj heq).1] at hmark
      simp at hmark

/-! ## Arrays -/

section

variable {v : Value} {vs : List Value} {fuel : Nat} {cs more after : List Char}

theorem readItems_last (h : readValue fuel cs = some (v, ']' :: after)) : readItems (fuel + 1) cs = some ([v], after) := by
  rw [readItems, h]
  rfl

theorem readItems_more (h : readValue fuel cs = some (v, ',' :: more)) (hmore : readItems fuel more = some (vs, after)) :
    readItems (fuel + 1) cs = some (v :: vs, after) := by
  rw [readItems, h]
  change (readItems fuel more).bind _ = _
  rw [hmore]
  rfl

theorem ends_comma (rest : List Char) : Ends (',' :: rest) := by
  rintro c ⟨⟩
  rfl

theorem ends_bracket (rest : List Char) : Ends (']' :: rest) := by
  rintro c ⟨⟩
  rfl

theorem ends_brace (rest : List Char) : Ends ('\x7d' :: rest) := by
  rintro c ⟨⟩
  rfl

end

theorem writeItems_cons {v : Value} {more : List Value} (h : more ≠ []) :
    writeItems (v :: more) = write v ++ ',' :: writeItems more := by
  cases more with
  | nil => contradiction
  | cons w others => rw [writeItems]; simp

/-- the items of an array are read up to the bracket -/
theorem readItems_written {items : List Value} (hsome : items ≠ []) (hreads : ∀ v ∈ items, Reads v) {fuel : Nat}
    (hfuel : (writeItems items).length + 1 < fuel) (rest : List Char) :
    readItems fuel (writeItems items ++ ']' :: rest) = some (items, rest) := by
  induction items generalizing fuel with
  | nil => contradiction
  | cons v more ih =>
    obtain ⟨fuel, rfl⟩ := Nat.exists_eq_succ_of_ne_zero (Nat.ne_of_gt (Nat.zero_lt_of_lt hfuel))
    have hv := hreads v List.mem_cons_self
    by_cases hmore : more = []
    · subst hmore
      rw [writeItems] at hfuel ⊢
      exact readItems_last (hv fuel _ (by omega) (ends_bracket rest))
    · rw [writeItems_cons hmore, List.length_append, List.length_cons] at hfuel
      rw [writeItems_cons hmore, List.append_assoc, List.cons_append]
      refine readItems_more (hv fuel _ (by omega) (ends_comma _)) ?_
      exact ih hmore (fun x hx => hreads x (List.mem_cons_of_mem _ hx)) (by omega)

theorem writeItems_eq_cons {v : Value} (h : v.IsJson) (more : List Value) :
    ∃ c rest, writeItems (v :: more) = c :: rest ∧ isSpace c = false ∧ c ≠ ']' := by
  obtain ⟨c, rest, hc, hspace, hne⟩ := write_eq_cons h
  by_cases hmore : more = []
  · subst hmore
    exact ⟨c, rest, by rw [writeItems, hc], hspace, hne⟩
  · exact ⟨c, rest ++ ',' :: writeItems more, by rw [writeItems_cons hmore, hc, List.cons_append], hspace, hne⟩

theorem reads_array {items : List Value} (hjson : ∀ v ∈ items, v.IsJson) (hreads : ∀ v ∈ items, Reads v) :
    Reads (.array items) := by
  apply reads_of_step
  intro fuel rest hfuel _
  have hwritten : write (.array items) ++ rest = '[' :: (writeItems items ++ ']' :: rest) := by
    rw [write]
    simp
  have hlength : (write (.array items)).length = (writeItems items).length + 2 := by
    rw [write]
    simp
  rw [hwritten, readValue, skipSpaces_cons rfl]
  cases items with
  | nil =>
    rw [writeItems]
    rfl
  | cons v more =>
    have hfuel : (writeItems (v :: more)).length + 1 < fuel := by omega
    have hitems := readItems_written (List.cons_ne_nil v more) hreads hfuel rest
    obtain ⟨c, tail, hc, hspace, hne⟩ := writeItems_eq_cons (hjson v List.mem_cons_self) more
    simp only [hitems]
    rw [hc, List.cons_append, skipSpaces_cons hspace]
    split
    · next heq => exact absurd (List.cons.inj heq).1 hne
    · rfl

/-! ## Objects -/

section

variable {key : String} {v : Value} {fs : List (String × Value)} {fuel : Nat} {cs more after : List Char}

theorem readFields_last (h : readValue fuel cs = some (v, more)) (hmore : skipSpaces more = '\x7d' :: after) :
    readFields (fuel + 1) (quote key ++ ':' :: cs) = some ([(key, v)], after) := by
  rw [quote_append, readFields, skipSpaces_cons rfl]
  simp only [readChars_quote, Option.bind_eq_bind, Option.bind_some]
  rw [skipSpaces_cons rfl]
  simp only [h, Option.bind_some, hmore, String.ofList_toList]
  rfl

theorem readFields_more (h : readValue fuel cs = some (v, ',' :: more)) (hmore : readFields fuel more = some (fs, after)) :
    readFields (fuel + 1) (quote key ++ ':' :: cs) = some ((key, v) :: fs, after) := by
  rw [quote_append, readFields, skipSpaces_cons rfl]
  simp only [readChars_quote, Option.bind_eq_bind, Option.bind_some]
  rw [skipSpaces_cons rfl]
  simp only [h, Option.bind_some, String.ofList_toList]
  change (readFields fuel more).bind _ = _
  rw [hmore]
  rfl

end

theorem writeFields_last (e : String × Value) (rest : List Char) :
    writeFields [e] ++ rest = quote e.1 ++ ':' :: (write e.2 ++ rest) := by
  obtain ⟨key, v⟩ := e
  rw [writeFields]
  simp

theorem writeFields_cons {e : String × Value} {more : List (String × Value)} (h : more ≠ []) (rest : List Char) :
    writeFields (e :: more) ++ rest = quote e.1 ++ ':' :: (write e.2 ++ ',' :: (writeFields more ++ rest)) := by
  obtain ⟨key, v⟩ := e
  rw [writeFields]
  · simp
  · exact h

/-- what is written for fields begins with the quote of the first key -/
theorem writeFields_eq_cons (e : String × Value) (more : List (String × Value)) :
    ∃ rest, writeFields (e :: more) = '"' :: rest := by
  rw [← List.append_nil (writeFields (e :: more))]
  by_cases hmore : more = []
  · subst hmore
    rw [writeFields_last, quote_append]
    exact ⟨_, rfl⟩
  · rw [writeFields_cons hmore, quote_append]
    exact ⟨_, rfl⟩

/-- the fields of an object are read up to the brace -/
theorem readFields_written {fields : List (String × Value)} (hsome : fields ≠ []) (hreads : ∀ e ∈ fields, Reads e.2)
    {fuel : Nat} (hfuel : (writeFields fields).length + 1 < fuel) (rest : List Char) :
    readFields fuel (writeFields fields ++ '\x7d' :: rest) = some (fields, rest) := by
  induction fields generalizing fuel with
  | nil => contradiction
  | cons e more ih =>
    obtain ⟨fuel, rfl⟩ := Nat.exists_eq_succ_of_ne_zero (Nat.ne_of_gt (Nat.zero_lt_of_lt hfuel))
    have hv := hreads e List.mem_cons_self
    by_cases hmore : more = []
    · subst hmore
      have hlength : (writeFields [e]).length = (quote e.1).length + ((write e.2).length + 1) := by
        simpa using congrArg List.length (writeFields_last e [])
      rw [writeFields_last]
      exact readFields_last (hv fuel _ (by omega) (ends_brace rest)) rfl
    · have hlength : (writeFields (e :: more)).length =
          (quote e.1).length + ((write e.2).length + ((writeFields more).length + 1) + 1) := by
        simpa using congrArg List.length (@writeFields_cons e more hmore [])
      rw [writeFields_cons hmore]
      refine readFields_more (hv fuel _ (by omega) (ends_comma _)) ?_
      exact ih hmore (fun f hf => hreads f (List.mem_cons_of_mem _ hf)) (by omega)

theorem reads_object {fields : List (String × Value)} (harranged : Fields.ofEntries fields = fields)
    (hreads : ∀ e ∈ fields, Reads e.2) : Reads (.object fields) := by
  apply reads_of_step
  intro fuel rest hfuel _
  have hwritten : write (.object fields) ++ rest = '{' :: (writeFields fields ++ '\x7d' :: rest) := by
    rw [write]
    simp
  have hlength : (write (.object fields)).length = (writeFields fields).length + 2 := by
    rw [write]
    simp
  rw [hwritten, readValue, skipSpaces_cons rfl]
  cases fields with
  | nil =>
    rw [writeFields]
    rfl
  | cons e more =>
    have hfuel : (writeFields (e :: more)).length + 1 < fuel := by omega
    have hfields := readFields_written (List.cons_ne_nil e more) hreads hfuel rest
    obtain ⟨tail, hquote⟩ := writeFields_eq_cons e more
    simp only [hfields]
    rw [hquote, List.cons_append, skipSpaces_cons rfl]
    change some (Value.ofEntries (e :: more), rest) = _
    rw [Value.ofEntries, harranged]

/-! ## Whole texts -/

/-- **A JSON value is read back** as it was written, whatever follows it. -/
theorem reads_of_isJson {v : Value} (h : v.IsJson) : Reads v := by
  induction h with
  | null => exact reads_null
  | bool b => exact reads_bool b
  | number x => exact reads_number x
  | string s => exact reads_string s
  | array each ih => exact reads_array each ih
  | object arranged _ ih => exact reads_object arranged ih

/-- a value on a line of its own is read back -/
theorem read?_line {v : Value} (h : v.IsJson) : read? (String.ofList (write v ++ ['\n'])) = some v := by
  have hends : Ends ['\n'] := by
    rintro c ⟨⟩
    rfl
  have hread := reads_of_isJson h ((write v ++ ['\n']).length + 1) ['\n'] (by rw [List.length_append]; omega) hends
  unfold read?
  rw [String.toList_ofList]
  simp only [hread, Option.bind_eq_bind, Option.bind_some]
  rfl

/-! ## Lines -/

theorem newline_not_mem_escape (c : Char) : '\n' ∉ escape c := by
  have hdigit : ∀ n, '\n' ≠ hexDigit n := by
    have hall : ∀ k < 16, '\n' ≠ Nat.digitChar k := by decide
    exact fun n => hall _ (Nat.mod_lt _ (by decide))
  unfold escape
  split
  · decide
  split
  · decide
  split
  · decide
  · next hfeed =>
    repeat' split
    any_goals decide
    · simp [hdigit]
    · simpa using Ne.symm hfeed

theorem newline_not_mem_quote (s : String) : '\n' ∉ quote s := by
  simp [quote, newline_not_mem_escape]

theorem newline_not_mem_writeItems {items : List Value} (h : ∀ v ∈ items, '\n' ∉ write v) : '\n' ∉ writeItems items := by
  induction items with
  | nil => simp [writeItems]
  | cons v more ih =>
    have hv := h v List.mem_cons_self
    by_cases hmore : more = []
    · subst hmore
      rw [writeItems]
      exact hv
    · have hrest := ih fun w hw => h w (List.mem_cons_of_mem _ hw)
      rw [writeItems_cons hmore]
      simp [hv, hrest]

theorem newline_not_mem_writeFields {fields : List (String × Value)} (h : ∀ e ∈ fields, '\n' ∉ write e.2) :
    '\n' ∉ writeFields fields := by
  induction fields with
  | nil => simp [writeFields]
  | cons e more ih =>
    have he := h e List.mem_cons_self
    have hquote := newline_not_mem_quote e.1
    rw [← List.append_nil (writeFields (e :: more))]
    by_cases hmore : more = []
    · subst hmore
      rw [writeFields_last]
      simp [he, hquote]
    · have hrest := ih fun f hf => h f (List.mem_cons_of_mem _ hf)
      rw [writeFields_cons hmore]
      simp [he, hquote, hrest]

/-- the text of a JSON value has no line feed -/
theorem newline_not_mem_write {v : Value} (h : v.IsJson) : '\n' ∉ write v := by
  induction h with
  | null =>
    rw [write]
    decide
  | bool b =>
    rw [write]
    cases b <;> decide
  | number x =>
    obtain ⟨n, hplain, htext, -⟩ := x.exists_numeral
    rw [write, writeNumber, ← htext]
    intro hmem
    exact absurd (Numeral.isNumeral_of_mem_text hplain _ hmem) (by decide)
  | string s =>
    rw [write]
    exact newline_not_mem_quote s
  | array _ ih =>
    rw [write]
    simp [newline_not_mem_writeItems ih]
  | object _ _ ih =>
    rw [write]
    simp [newline_not_mem_writeFields ih]

end Json

end ChangeImpact
