/-
Texts as bytes, and bytes in chunks.

`encoded` writes a text as UTF-8. The decoder reads it back whole (`decodeUtf8_encoded`), but chunks
are decoded one by one, so a character whose bytes lie in two chunks is lost: each of its parts
becomes a U+FFFD of its own. That this always shows follows from counting. Every byte that is no
continuation byte begins a character of the decoded text, a text has exactly one such byte for each
of its characters, and a chunk that begins with a continuation byte has one character more.

Results:
- `decodeUtf8_encoded`: decoding undoes encoding.
- `beginnings_le_length_decodeUtf8`, `beginnings_lt_length_decodeUtf8`: how many characters come out of bytes at least.
- `unbroken_of_whole`: chunks that begin inside no character are texts of their own.
- `receive_eq_iff_unbroken`: the text is received iff no chunk boundary lies inside a character.
-/
import ChangeImpact.Text.Utf8

namespace ChangeImpact.Text

/-- the bytes of a text -/
def encoded (cs : List Char) : List UInt8 :=
  cs.flatMap String.utf8EncodeChar

/-- no boundary between two chunks lies inside a character: every chunk holds the bytes of a text -/
def Unbroken (chunks : List (List UInt8)) : Prop :=
  ∀ b ∈ chunks, ∃ part, b = encoded part

theorem encoded_cons (c : Char) (cs : List Char) : encoded (c :: cs) = String.utf8EncodeChar c ++ encoded cs :=
  List.flatMap_cons

theorem encoded_append (cs ds : List Char) : encoded (cs ++ ds) = encoded cs ++ encoded ds :=
  List.flatMap_append

/-! ## Decoding a text -/

namespace Pending

theorem start_two {b : Nat} (h : 0xC2 ≤ b) (h' : b < 0xE0) : start b = ([], .bytes 1 0x80 0xBF (b - 0xC0)) := by
  unfold start
  rw [if_neg (by omega), if_neg (by omega), if_pos h']

/-- the least second byte after a first byte: smaller ones would write a character too long -/
def least (first : Nat) : Nat :=
  if first = 0xE0 then 0xA0 else if first = 0xF0 then 0x90 else 0x80

/-- the greatest second byte after a first byte: greater ones would write a surrogate or no character at all -/
def greatest (first : Nat) : Nat :=
  if first = 0xED then 0x9F else if first = 0xF4 then 0x8F else 0xBF

theorem start_three {b : Nat} (h : 0xE0 ≤ b) (h' : b < 0xF0) :
    start b = ([], .bytes 2 (least b) (greatest b) (b - 0xE0)) := by
  unfold start least greatest
  rw [if_neg (by omega), if_neg (by omega), if_neg (by omega)]
  by_cases he : b = 0xE0
  · simp [he]
  · by_cases hd : b = 0xED
    · simp [hd]
    · rw [if_neg he, if_neg hd, if_pos h', if_neg he, if_neg (by omega), if_neg hd, if_neg (by omega)]

theorem start_four {b : Nat} (h : 0xF0 ≤ b) (h' : b < 0xF5) :
    start b = ([], .bytes 3 (least b) (greatest b) (b - 0xF0)) := by
  unfold start least greatest
  rw [if_neg (by omega), if_neg (by omega), if_neg (by omega), if_neg (by omega), if_neg (by omega), if_neg (by omega)]
  by_cases he : b = 0xF0
  · simp [he]
  · by_cases hd : b = 0xF4
    · simp [hd]
    · rw [if_neg he, if_pos (by omega), if_neg (by omega), if_neg he, if_neg (by omega), if_neg hd]

theorem step_last {b low high : Nat} (h : low ≤ b ∧ b ≤ high) (bits : Nat) :
    step b (.bytes 1 low high bits) = ([Char.ofNat (bits * 64 + (b - 0x80))], .nothing) := by
  simp [step, h]

theorem step_more {b low high : Nat} (h : low ≤ b ∧ b ≤ high) (missing bits : Nat) :
    step b (.bytes (missing + 2) low high bits) = ([], .bytes (missing + 1) 0x80 0xBF (bits * 64 + (b - 0x80))) := by
  simp [step, h]

theorem run_cons {p q : Pending} {b : UInt8} {n : Nat} {cs : List Char} (hb : b.toNat = n) (h : p.step n = (cs, q))
    (bs : List UInt8) : p.run (b :: bs) = (cs ++ (q.run bs).1, (q.run bs).2) := by
  rw [run, hb, h]

section Widths

variable {n : Nat} {a b c d : UInt8}

/-! One lemma for each number of bytes: the bits of the bytes, put together again, are the code point. -/

theorem run_one (ha : a.toNat = n) (hn : n < 0x80) : run .nothing [a] = ([Char.ofNat n], .nothing) := by
  have hs : step n .nothing = ([Char.ofNat n], .nothing) := by
    change start n = _
    unfold start
    rw [if_pos hn]
  rw [run_cons ha hs]
  rfl

theorem run_two (ha : a.toNat = n / 64 + 192) (hb : b.toNat = n % 64 + 128) (hn : 0x80 ≤ n) (hn' : n < 0x800) :
    run .nothing [a, b] = ([Char.ofNat n], .nothing) := by
  have hs : step (n / 64 + 192) .nothing = _ := start_two (by omega) (by omega)
  have hbits : (n / 64 + 192 - 0xC0) * 64 + (n % 64 + 128 - 0x80) = n := by omega
  rw [run_cons ha hs, run_cons hb (step_last (by omega) _), hbits]
  rfl

theorem run_three (ha : a.toNat = n / 4096 + 224) (hb : b.toNat = n / 64 % 64 + 128) (hc : c.toNat = n % 64 + 128)
    (hn : 0x800 ≤ n) (hn' : n < 0xD800 ∨ 0xDFFF < n ∧ n < 0x10000) :
    run .nothing [a, b, c] = ([Char.ofNat n], .nothing) := by
  have hs : step (n / 4096 + 224) .nothing = _ := start_three (by omega) (by omega)
  have hrange : least (n / 4096 + 224) ≤ n / 64 % 64 + 128 ∧ n / 64 % 64 + 128 ≤ greatest (n / 4096 + 224) := by
    unfold least greatest
    repeat' split
    all_goals omega
  have hbits : ((n / 4096 + 224 - 0xE0) * 64 + (n / 64 % 64 + 128 - 0x80)) * 64 + (n % 64 + 128 - 0x80) = n := by omega
  rw [run_cons ha hs, run_cons hb (step_more hrange 0 _), run_cons hc (step_last (by omega) _), hbits]
  rfl

theorem run_four (ha : a.toNat = n / 262144 + 240) (hb : b.toNat = n / 4096 % 64 + 128)
    (hc : c.toNat = n / 64 % 64 + 128) (hd : d.toNat = n % 64 + 128) (hn : 0x10000 ≤ n) (hn' : n < 0x110000) :
    run .nothing [a, b, c, d] = ([Char.ofNat n], .nothing) := by
  have hs : step (n / 262144 + 240) .nothing = _ := start_four (by omega) (by omega)
  have hrange : least (n / 262144 + 240) ≤ n / 4096 % 64 + 128 ∧
      n / 4096 % 64 + 128 ≤ greatest (n / 262144 + 240) := by
    unfold least greatest
    repeat' split
    all_goals omega
  have hbits : (((n / 262144 + 240 - 0xF0) * 64 + (n / 4096 % 64 + 128 - 0x80)) * 64 + (n / 64 % 64 + 128 - 0x80)) * 64 +
      (n % 64 + 128 - 0x80) = n := by omega
  rw [run_cons ha hs, run_cons hb (step_more hrange 1 _), run_cons hc (step_more (by omega) 0 _),
    run_cons hd (step_last (by omega) _), hbits]
  rfl

end Widths

/-- the bytes of a character complete it and leave nothing unfinished -/
theorem run_utf8EncodeChar (c : Char) : run .nothing (String.utf8EncodeChar c) = ([c], .nothing) := by
  have hc := c.valid
  have hv : c.val.toNat = c.toNat := rfl
  simp only [UInt32.isValidChar, Nat.isValidChar, hv] at hc
  have hchar : Char.ofNat c.toNat = c := Char.ofNat_toNat c
  have htail : ∀ n, (UInt8.ofNat (n % 64 + 128)).toNat = n % 64 + 128 := by
    intro n
    rw [UInt8.toNat_ofNat']
    omega
  unfold String.utf8EncodeChar
  simp only [hv]
  generalize c.toNat = n at hc hchar
  subst hchar
  split
  · have hfirst : (UInt8.ofNat n).toNat = n := by
      rw [UInt8.toNat_ofNat']
      omega
    exact run_one hfirst (by omega)
  split
  · have hfirst : (UInt8.ofNat (n / 64 % 32 + 192)).toNat = n / 64 + 192 := by
      rw [UInt8.toNat_ofNat']
      omega
    exact run_two hfirst (htail n) (by omega) (by omega)
  split
  · have hfirst : (UInt8.ofNat (n / 4096 % 16 + 224)).toNat = n / 4096 + 224 := by
      rw [UInt8.toNat_ofNat']
      omega
    exact run_three hfirst (htail _) (htail n) (by omega) (by omega)
  · have hfirst : (UInt8.ofNat (n / 262144 % 8 + 240)).toNat = n / 262144 + 240 := by
      rw [UInt8.toNat_ofNat']
      omega
    exact run_four hfirst (htail _) (htail _) (htail n) (by omega) (by omega)

/-- the bytes of a text give it back and leave nothing unfinished -/
theorem run_encoded (cs : List Char) : run .nothing (encoded cs) = (cs, .nothing) := by
  induction cs with
  | nil => rfl
  | cons c cs ih => rw [encoded_cons, run_append, run_utf8EncodeChar, ih, List.singleton_append]

end Pending

/-- **Decoding undoes encoding.** -/
theorem decodeUtf8_encoded (cs : List Char) : decodeUtf8 (encoded cs) = cs := by
  unfold decodeUtf8
  rw [Pending.run_encoded]
  exact List.append_nil cs

theorem encoded_injective {cs ds : List Char} (h : encoded cs = encoded ds) : cs = ds := by
  rw [← decodeUtf8_encoded cs, h, decodeUtf8_encoded]

/-! ## Counting characters -/

/-- a byte that continues a character -/
def continues (b : UInt8) : Bool :=
  0x80 ≤ b.toNat && b.toNat ≤ 0xBF

/-- how many bytes do not continue a character -/
def beginnings (bytes : List UInt8) : Nat :=
  bytes.countP fun b => !continues b

namespace Pending

/-- only a byte that continues a character is taken for one of the missing bytes -/
def Ranged : Pending → Prop
  | .nothing => True
  | .bytes _ low high _ => 0x80 ≤ low ∧ high ≤ 0xBF

/-- a first byte makes one character or begins an unfinished one -/
theorem length_start (b : Nat) : (start b).1.length + (start b).2.finish.length = 1 ∧ (start b).2.Ranged := by
  unfold start
  repeat' split
  all_goals simp [finish, Ranged]

theorem step_outside {b low high : Nat} (h : ¬(low ≤ b ∧ b ≤ high)) (missing bits : Nat) :
    step b (.bytes missing low high bits) = (replacement :: (start b).1, (start b).2) := by
  simp [step, h]

theorem length_step_within {b low high : Nat} (h : low ≤ b ∧ b ≤ high) (missing bits : Nat) :
    (step b (.bytes missing low high bits)).1.length + (step b (.bytes missing low high bits)).2.finish.length = 1 ∧
      (step b (.bytes missing low high bits)).2.Ranged := by
  simp only [step, if_pos h]
  split <;> simp [finish, Ranged]

/-- a byte leaves at least as many characters, finished or not, as there were, and one more if it continues none -/
theorem step_length (b : UInt8) {p : Pending} (h : p.Ranged) :
    (if continues b then 0 else 1) + p.finish.length ≤ (p.step b.toNat).1.length + (p.step b.toNat).2.finish.length ∧
      (p.step b.toNat).2.Ranged := by
  obtain ⟨hlength, hranged⟩ := length_start b.toNat
  cases p with
  | nothing =>
    refine ⟨?_, hranged⟩
    change _ ≤ (start b.toNat).1.length + (start b.toNat).2.finish.length
    rw [hlength]
    split <;> simp [finish]
  | bytes missing low high bits =>
    by_cases hb : low ≤ b.toNat ∧ b.toNat ≤ high
    · obtain ⟨hlast, hnext⟩ := length_step_within hb missing bits
      have hcontinues : continues b = true := by
        simp only [Ranged] at h
        simp only [continues, Bool.and_eq_true, decide_eq_true_eq]
        omega
      refine ⟨?_, hnext⟩
      rw [hlast, if_pos hcontinues]
      simp [finish]
    · rw [step_outside hb]
      refine ⟨?_, hranged⟩
      have hp : (finish (.bytes missing low high bits)).length = 1 := rfl
      simp only [List.length_cons]
      split <;> omega

/-- the characters that come out of bytes are at least those unfinished before and those that the bytes begin -/
theorem beginnings_le_length_run (bytes : List UInt8) {p : Pending} (h : p.Ranged) :
    beginnings bytes + p.finish.length ≤ (p.run bytes).1.length + (p.run bytes).2.finish.length := by
  induction bytes generalizing p with
  | nil => simp [beginnings, run]
  | cons b bytes ih =>
    obtain ⟨hstep, hranged⟩ := step_length b h
    have hrest := ih hranged
    have hcount : beginnings (b :: bytes) = beginnings bytes + if continues b then 0 else 1 := by
      rw [beginnings, beginnings, List.countP_cons]
      cases continues b <;> rfl
    rw [run, hcount]
    simp only [List.length_append]
    omega

end Pending

theorem beginnings_le_length_decodeUtf8 (bytes : List UInt8) : beginnings bytes ≤ (decodeUtf8 bytes).length := by
  have h := Pending.beginnings_le_length_run bytes (p := .nothing) trivial
  simpa [decodeUtf8, Pending.finish] using h

/-- a chunk that begins inside a character has one character more than it begins -/
theorem beginnings_lt_length_decodeUtf8 {b : UInt8} (hb : continues b = true) (bytes : List UInt8) :
    beginnings (b :: bytes) < (decodeUtf8 (b :: bytes)).length := by
  have hrange : 0x80 ≤ b.toNat ∧ b.toNat ≤ 0xBF := by simpa [continues] using hb
  have hs : Pending.step b.toNat .nothing = ([replacement], .nothing) := by
    change Pending.start b.toNat = _
    unfold Pending.start
    rw [if_neg (by omega), if_pos (by omega)]
  have hcount : beginnings (b :: bytes) = beginnings bytes := by
    rw [beginnings, List.countP_cons_of_neg (by simp [hb]), beginnings]
  have hrest := beginnings_le_length_decodeUtf8 bytes
  unfold decodeUtf8 at hrest ⊢
  rw [Pending.run_cons rfl hs, hcount]
  simp only [List.length_append, List.length_singleton] at hrest ⊢
  omega

theorem beginnings_append (xs ys : List UInt8) : beginnings (xs ++ ys) = beginnings xs + beginnings ys :=
  List.countP_append

/-- a character is one byte that continues none, and bytes that continue it -/
theorem utf8EncodeChar_shape (c : Char) :
    ∃ b rest, String.utf8EncodeChar c = b :: rest ∧ continues b = false ∧ ∀ x ∈ rest, continues x = true := by
  have hc := c.valid
  simp only [UInt32.isValidChar, Nat.isValidChar] at hc
  have htail : ∀ n, continues (UInt8.ofNat (n % 64 + 128)) = true := by
    intro n
    simp only [continues, UInt8.toNat_ofNat', Bool.and_eq_true, decide_eq_true_eq]
    omega
  unfold String.utf8EncodeChar
  simp only
  generalize c.val.toNat = n at hc
  repeat' split
  all_goals
    refine ⟨_, _, rfl, ?_, ?_⟩
    · simp only [continues, UInt8.toNat_ofNat', Bool.and_eq_false_iff, decide_eq_false_iff_not]
      omega
    · simp only [List.forall_mem_cons, htail, List.not_mem_nil, false_implies, implies_true, true_and]

theorem beginnings_utf8EncodeChar (c : Char) : beginnings (String.utf8EncodeChar c) = 1 := by
  obtain ⟨b, rest, hshape, hb, hrest⟩ := utf8EncodeChar_shape c
  have hnone : rest.countP (fun x => !continues x) = 0 := by
    rw [List.countP_eq_zero]
    intro x hx
    simp [hrest x hx]
  rw [hshape, beginnings, List.countP_cons_of_pos (by simp [hb]), hnone]

/-- a text has as many characters as its bytes begin -/
theorem beginnings_encoded (cs : List Char) : beginnings (encoded cs) = cs.length := by
  induction cs with
  | nil => rfl
  | cons c cs ih => rw [encoded_cons, beginnings_append, beginnings_utf8EncodeChar, ih, List.length_cons, Nat.add_comm]

/-! ## Chunks -/

/-- the bytes begin with none that continues a character -/
def Whole (bytes : List UInt8) : Prop :=
  ∀ b rest, bytes = b :: rest → continues b = false

theorem whole_flatten {chunks : List (List UInt8)} (h : ∀ chunk ∈ chunks, Whole chunk) : Whole chunks.flatten := by
  intro b rest hflatten
  obtain ⟨before, tail, after, rfl, -, -⟩ := List.flatten_eq_cons_iff.mp hflatten
  exact h (b :: tail) (by simp) b tail rfl

/-- before a byte that continues none, the bytes of a text can be cut -/
theorem exists_split_of_encoded {cs : List Char} {bytes rest : List UInt8} (h : encoded cs = bytes ++ rest)
    (hrest : Whole rest) : ∃ ds es, bytes = encoded ds ∧ rest = encoded es := by
  induction cs generalizing bytes with
  | nil =>
    obtain ⟨rfl, rfl⟩ := List.append_eq_nil_iff.mp h.symm
    exact ⟨[], [], rfl, rfl⟩
  | cons c cs ih =>
    rw [encoded_cons] at h
    obtain ⟨more, rfl, hcs⟩ | ⟨more, hc, rfl⟩ := List.append_eq_append_iff.mp h
    · obtain ⟨ds, es, rfl, rfl⟩ := ih hcs
      exact ⟨c :: ds, es, (encoded_cons c ds).symm, rfl⟩
    · -- the cut lies in the bytes of `c`, hence before or behind them
      obtain ⟨first, tail, hshape, -, htail⟩ := utf8EncodeChar_shape c
      cases more with
      | nil => exact ⟨[c], cs, by simpa [encoded] using hc.symm, rfl⟩
      | cons x more =>
        have hx : continues x = false := hrest x _ rfl
        cases bytes with
        | nil =>
          refine ⟨[], c :: cs, rfl, ?_⟩
          rw [encoded_cons, hc, List.nil_append]
        | cons y bytes =>
          rw [hshape, List.cons_append, List.cons.injEq] at hc
          have hmem : x ∈ tail := by simp [hc.2]
          rw [htail x hmem] at hx
          exact absurd hx (by decide)

/-- **Chunks that begin inside no character are texts of their own.** -/
theorem unbroken_of_whole {chunks : List (List UInt8)} {cs : List Char} (h : chunks.flatten = encoded cs)
    (hwhole : ∀ chunk ∈ chunks, Whole chunk) : Unbroken chunks := by
  induction chunks generalizing cs with
  | nil => simp [Unbroken]
  | cons chunk chunks ih =>
    rw [List.forall_mem_cons] at hwhole
    rw [List.flatten_cons] at h
    obtain ⟨ds, es, hchunk, hrest⟩ := exists_split_of_encoded h.symm (whole_flatten hwhole.2)
    exact List.forall_mem_cons.mpr ⟨⟨ds, hchunk⟩, ih hrest hwhole.2⟩

theorem receive_bytes (chunks : List (List UInt8)) :
    receive (chunks.map .bytes) = String.ofList (chunks.flatMap decodeUtf8) := by
  rw [receive, List.flatMap_map]
  rfl

theorem beginnings_flatten_le (chunks : List (List UInt8)) :
    beginnings chunks.flatten ≤ (chunks.flatMap decodeUtf8).length := by
  induction chunks with
  | nil => exact Nat.le_refl 0
  | cons chunk chunks ih =>
    rw [List.flatten_cons, List.flatMap_cons, beginnings_append, List.length_append]
    exact Nat.add_le_add (beginnings_le_length_decodeUtf8 chunk) ih

/-- a chunk that begins inside a character makes the text received longer than the text sent -/
theorem beginnings_flatten_lt {chunks : List (List UInt8)} {b : UInt8} {rest : List UInt8} (h : b :: rest ∈ chunks)
    (hb : continues b = true) : beginnings chunks.flatten < (chunks.flatMap decodeUtf8).length := by
  obtain ⟨before, after, rfl⟩ := List.append_of_mem h
  have hbefore := beginnings_flatten_le before
  have hbroken := beginnings_lt_length_decodeUtf8 hb rest
  have hafter := beginnings_flatten_le after
  simp only [List.flatten_append, List.flatten_cons, beginnings_append, List.flatMap_append, List.flatMap_cons,
    List.length_append]
  omega

/-- chunks that are texts of their own are decoded to what they encode together -/
theorem encoded_flatMap_decodeUtf8 {chunks : List (List UInt8)} (h : Unbroken chunks) :
    encoded (chunks.flatMap decodeUtf8) = chunks.flatten := by
  induction chunks with
  | nil => rfl
  | cons chunk chunks ih =>
    obtain ⟨⟨part, rfl⟩, hrest⟩ := List.forall_mem_cons.mp h
    rw [List.flatMap_cons, decodeUtf8_encoded, encoded_append, ih hrest, List.flatten_cons]

/-- **The text is received iff no chunk boundary lies inside a character.** -/
theorem receive_eq_iff_unbroken {chunks : List (List UInt8)} {cs : List Char} (h : chunks.flatten = encoded cs) :
    receive (chunks.map .bytes) = String.ofList cs ↔ Unbroken chunks := by
  rw [receive_bytes, String.ofList_inj]
  constructor
  · intro hreceived
    refine unbroken_of_whole h ?_
    rintro _ hchunk b rest rfl
    cases hb : continues b with
    | false => rfl
    | true =>
      have hlonger := beginnings_flatten_lt hchunk hb
      rw [h, beginnings_encoded, hreceived] at hlonger
      exact absurd hlonger (Nat.lt_irrefl _)
  · intro hunbroken
    exact encoded_injective ((encoded_flatMap_decodeUtf8 hunbroken).trans h)

end ChangeImpact.Text
