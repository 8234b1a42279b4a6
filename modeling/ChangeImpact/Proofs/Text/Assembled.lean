/-
Lines and the text that was put together from them.

`lines` cuts a text at its line feeds, and a carriage return right before a line feed goes along with it. So the lines that
a text was put together from are found again, whichever line end stands between which two of them. Two things can spoil
it: a line feed inside a line is cut at, and a carriage return at the end of a line is lost when a bare line feed follows.
The last line has no end behind it and keeps its carriage return.

The other way round, the lines of any text put together with line feeds are the text with a line feed for every
carriage return and line feed (`Replaced`). No other character goes, stays behind or changes its place; a carriage return
that no line feed follows is kept.

Results:
- `lines_append_returnFeed`, `lines_append_feed`: a line end is cut at wherever it stands.
- `lines_assembled`: lines put together with any ends are found again.
- `intercalate_lines`: lines put together with line feeds.
- `splitLines_inverts_assembly`: both ways, for all lines, all line ends and all texts.
-/
import Mathlib.Data.List.Infix
import ChangeImpact.Proofs.Text.Joined
import ChangeImpact.Proofs.Text.LineEnds

namespace ChangeImpact.Text

/-- the second text stands in the result wherever the first one stands in a text: what is left between the places where it
stands are parts that do not have it -/
def Replaced (old new text result : String) : Prop :=
  ∃ parts : List String, parts ≠ [] ∧ (∀ p ∈ parts, ¬ old.toList <:+: p.toList) ∧
    old.intercalate parts = text ∧ new.intercalate parts = result

/-- the carriage return and line feed as characters -/
def returnFeed : List Char :=
  ['\r', '\n']

variable {cs ds : List Char}

/-! ## Where a text is cut -/

theorem lines_ne_nil (cs : List Char) : lines cs ≠ [] := by
  induction cs using lines.induct with
  | case1 => simp [lines]
  | case2 rest => simp [lines]
  | case3 rest hrest => simp [lines]
  | case4 c rest hrest hc =>
    rw [lines, if_neg hc]
    · cases lines rest <;> simp [onFirst]
    · exact hrest

theorem onFirst_append (c : Char) {ps : List (List Char)} (h : ps ≠ []) (qs : List (List Char)) :
    onFirst c (ps ++ qs) = onFirst c ps ++ qs := by
  cases ps with
  | nil => contradiction
  | cons p ps => rfl

/-- a character that neither is a line feed nor a carriage return with a line feed behind it -/
theorem lines_cons {c : Char} (hc : c ≠ '\n') (h : c = '\r' → cs.head? ≠ some '\n') :
    lines (c :: cs) = onFirst c (lines cs) := by
  rw [lines, if_neg hc]
  intro rest hreturn hfeed
  apply h hreturn
  rw [hfeed]
  rfl

theorem lines_feed (cs : List Char) : lines ('\n' :: cs) = [] :: lines cs := by
  simp [lines]

/-- the cases of `lines`, told by the first characters -/
theorem lines_cases {p : List Char → Prop} (nil : p []) (returnFeed : ∀ rest, p rest → p ('\r' :: '\n' :: rest))
    (feed : ∀ rest, p rest → p ('\n' :: rest))
    (other : ∀ c rest, c ≠ '\n' → (c = '\r' → rest.head? ≠ some '\n') → p rest → p (c :: rest)) (cs : List Char) :
    p cs := by
  induction cs using lines.induct with
  | case1 => exact nil
  | case2 rest ih => exact returnFeed rest ih
  | case3 rest _ ih => exact feed rest ih
  | case4 c rest hrest hc ih =>
    refine other c rest hc ?_ ih
    intro hreturn hhead
    obtain ⟨tail, htail⟩ := List.head?_eq_some_iff.mp hhead
    exact hrest tail hreturn htail

theorem lines_append_returnFeed (cs ds : List Char) : lines (cs ++ returnFeed ++ ds) = lines cs ++ lines ds := by
  induction cs using lines_cases with
  | nil => rfl
  | returnFeed rest ih =>
    change [] :: lines (rest ++ returnFeed ++ ds) = [] :: (lines rest ++ lines ds)
    rw [ih]
  | feed rest ih =>
    rw [List.cons_append, List.cons_append, lines_feed, lines_feed, ih]
    rfl
  | other c rest hc hreturn ih =>
    have hbehind : c = '\r' → (rest ++ returnFeed ++ ds).head? ≠ some '\n' := by
      intro h
      cases rest with
      | nil => simp [returnFeed]
      | cons d rest => exact hreturn h
    rw [List.cons_append, List.cons_append, lines_cons hc hbehind, ih, lines_cons hc hreturn,
      onFirst_append c (lines_ne_nil rest)]

/-- a carriage return at the end of what stands before a bare line feed would go along with it -/
theorem lines_append_feed (h : cs.getLast? ≠ some '\r') (ds : List Char) :
    lines (cs ++ '\n' :: ds) = lines cs ++ lines ds := by
  have hrest : ∀ (c : Char) (rest : List Char), (c :: rest).getLast? ≠ some '\r' → rest.getLast? ≠ some '\r' := by
    intro c rest hlast
    cases rest with
    | nil => simp
    | cons d rest => rwa [List.getLast?_cons_cons] at hlast
  induction cs using lines_cases with
  | nil => exact lines_feed ds
  | returnFeed rest ih =>
    change [] :: lines (rest ++ '\n' :: ds) = [] :: (lines rest ++ lines ds)
    rw [ih (hrest _ _ (hrest _ _ h))]
  | feed rest ih =>
    rw [List.cons_append, lines_feed, lines_feed, ih (hrest _ _ h)]
    rfl
  | other c rest hc hreturn ih =>
    have hbehind : c = '\r' → (rest ++ '\n' :: ds).head? ≠ some '\n' := by
      rintro rfl
      cases rest with
      | nil => exact absurd rfl h
      | cons d rest => exact hreturn rfl
    rw [List.cons_append, lines_cons hc hbehind, ih (hrest _ _ h), lines_cons hc hreturn,
      onFirst_append c (lines_ne_nil rest)]

/-! ## Lines that are put together -/

theorem lines_of_not_mem (h : '\n' ∉ cs) : lines cs = [cs] := by
  induction cs with
  | nil => rfl
  | cons c rest ih =>
    obtain ⟨hc, hrest⟩ := not_or.mp (mt List.mem_cons.mpr h)
    have hbehind : c = '\r' → rest.head? ≠ some '\n' := fun _ hhead => hrest (List.mem_of_mem_head? hhead)
    rw [lines_cons (Ne.symm hc) hbehind, ih hrest]
    rfl

theorem lines_assembled {first : String} {rest : List (LineEnd × String)}
    (hfeed : ∀ l ∈ first :: rest.map Prod.snd, '\n' ∉ l.toList)
    (hreturn : ∀ l ∈ (first :: rest.map Prod.snd).dropLast, l.toList.getLast? ≠ some '\r') :
    lines (assembled first rest).toList = (first :: rest.map Prod.snd).map String.toList := by
  induction rest generalizing first with
  | nil => exact lines_of_not_mem (hfeed first List.mem_cons_self)
  | cons l rest ih =>
    obtain ⟨e, next⟩ := l
    obtain ⟨hfirst, hnext⟩ := List.forall_mem_cons.mp hfeed
    obtain ⟨hkept, hlater⟩ := List.forall_mem_cons.mp hreturn
    have hone : lines first.toList = [first.toList] := lines_of_not_mem hfirst
    rw [toList_assembled_cons, List.map_cons, ← List.singleton_append, ← hone]
    cases e with
    | feed =>
      have htext : first.toList ++ LineEnd.feed.text.toList ++ (assembled next rest).toList =
          first.toList ++ '\n' :: (assembled next rest).toList := by simp [LineEnd.text]
      rw [htext, lines_append_feed hkept, ih hnext hlater]
      rfl
    | returnFeed =>
      have htext : LineEnd.returnFeed.text.toList = returnFeed := rfl
      rw [htext, lines_append_returnFeed, ih hnext hlater]
      rfl

/-! ## Lines of any text -/

theorem newline_not_mem_lines (cs : List Char) : ∀ l ∈ lines cs, '\n' ∉ l := by
  induction cs using lines_cases with
  | nil => simp [lines]
  | returnFeed rest ih => exact List.forall_mem_cons.mpr ⟨List.not_mem_nil, ih⟩
  | feed rest ih =>
    rw [lines_feed]
    exact List.forall_mem_cons.mpr ⟨List.not_mem_nil, ih⟩
  | other c rest hc hreturn ih =>
    obtain ⟨p, ps, hlines⟩ := List.exists_cons_of_ne_nil (lines_ne_nil rest)
    rw [hlines] at ih
    obtain ⟨hp, hps⟩ := List.forall_mem_cons.mp ih
    rw [lines_cons hc hreturn, hlines]
    refine List.forall_mem_cons.mpr ⟨?_, hps⟩
    rw [List.mem_cons, not_or]
    exact ⟨Ne.symm hc, hp⟩

theorem intercalate_append (separator : List Char) {ps qs : List (List Char)} (hp : ps ≠ []) (hq : qs ≠ []) :
    separator.intercalate (ps ++ qs) = separator.intercalate ps ++ separator ++ separator.intercalate qs := by
  induction ps with
  | nil => contradiction
  | cons p ps ih =>
    by_cases hone : ps = []
    · subst hone
      rw [List.singleton_append, List.intercalate_cons_of_ne_nil hq, List.intercalate_singleton]
    · rw [List.cons_append, List.intercalate_cons_of_ne_nil (List.append_ne_nil_of_left_ne_nil hone qs), ih hone,
        List.intercalate_cons_of_ne_nil hone]
      simp only [List.append_assoc]

theorem intercalate_onFirst (separator : List Char) (c : Char) {ps : List (List Char)} (h : ps ≠ []) :
    separator.intercalate (onFirst c ps) = c :: separator.intercalate ps := by
  cases ps with
  | nil => contradiction
  | cons p ps =>
    by_cases hone : ps = []
    · subst hone
      simp [onFirst]
    · rw [onFirst, List.intercalate_cons_of_ne_nil hone, List.intercalate_cons_of_ne_nil hone]
      rfl

theorem returnFeed_infix_cons_iff {c : Char} :
    returnFeed <:+: c :: cs ↔ (c = '\r' ∧ cs.head? = some '\n') ∨ returnFeed <:+: cs := by
  rw [List.infix_cons_iff, returnFeed, List.cons_prefix_cons, List.singleton_prefix_iff_head?_eq_some]
  simp [eq_comm]

/-- a text without a carriage return and line feed is cut at nothing else than line feeds -/
theorem intercalate_lines_of_not_infix (h : ¬ returnFeed <:+: cs) : ['\n'].intercalate (lines cs) = cs := by
  induction cs using lines_cases with
  | nil => rfl
  | returnFeed rest => exact absurd ⟨[], rest, rfl⟩ h
  | feed rest ih =>
    have hrest := ih fun hi => h (returnFeed_infix_cons_iff.mpr (.inr hi))
    rw [lines_feed, List.intercalate_cons_of_ne_nil (lines_ne_nil rest), hrest]
    rfl
  | other c rest hc hreturn ih =>
    have hrest := ih fun hi => h (returnFeed_infix_cons_iff.mpr (.inr hi))
    rw [lines_cons hc hreturn, intercalate_onFirst _ _ (lines_ne_nil rest), hrest]

/-- lines put together with line feeds: the text with a line feed for every carriage return and line feed -/
theorem intercalate_lines {parts : List (List Char)} (hne : parts ≠ []) (h : ∀ p ∈ parts, ¬ returnFeed <:+: p) :
    ['\n'].intercalate (lines (returnFeed.intercalate parts)) = ['\n'].intercalate parts := by
  induction parts with
  | nil => contradiction
  | cons p ps ih =>
    obtain ⟨hp, hps⟩ := List.forall_mem_cons.mp h
    by_cases hone : ps = []
    · subst hone
      simpa using intercalate_lines_of_not_infix hp
    · rw [List.intercalate_cons_of_ne_nil hone, lines_append_returnFeed,
        intercalate_append _ (lines_ne_nil p) (lines_ne_nil _), intercalate_lines_of_not_infix hp, ih hone hps,
        List.intercalate_cons_of_ne_nil hone]

/-- a text has parts between its carriage returns and line feeds -/
def HasParts (cs : List Char) : Prop :=
  ∃ parts : List (List Char), parts ≠ [] ∧ (∀ p ∈ parts, ¬ returnFeed <:+: p) ∧ returnFeed.intercalate parts = cs

/-- a character goes to the first part, which begins like the whole text -/
theorem HasParts.cons {c : Char} (hreturn : c = '\r' → cs.head? ≠ some '\n') (h : HasParts cs) : HasParts (c :: cs) := by
  obtain ⟨parts, hne, hparts, rfl⟩ := h
  obtain ⟨p, ps, rfl⟩ := List.exists_cons_of_ne_nil hne
  obtain ⟨hp, hps⟩ := List.forall_mem_cons.mp hparts
  refine ⟨onFirst c (p :: ps), List.cons_ne_nil _ _, List.forall_mem_cons.mpr ⟨?_, hps⟩, intercalate_onFirst _ c hne⟩
  intro hinfix
  rcases returnFeed_infix_cons_iff.mp hinfix with ⟨hc, hhead⟩ | hinfix
  · apply hreturn hc
    obtain ⟨tail, rfl⟩ := List.head?_eq_some_iff.mp hhead
    cases ps <;> rfl
  · exact hp hinfix

theorem hasParts (cs : List Char) : HasParts cs := by
  induction cs using lines_cases with
  | nil => exact ⟨[[]], List.cons_ne_nil _ _, by decide, rfl⟩
  | returnFeed rest ih =>
    obtain ⟨parts, hne, hparts, rfl⟩ := ih
    refine ⟨[] :: parts, List.cons_ne_nil _ _, List.forall_mem_cons.mpr ⟨by decide, hparts⟩, ?_⟩
    rw [List.intercalate_cons_of_ne_nil hne]
    rfl
  | feed rest ih => exact ih.cons fun h => absurd h (by decide)
  | other c rest _ hreturn ih => exact ih.cons hreturn

theorem intercalate_map_ofList (separator : String) (parts : List (List Char)) :
    separator.intercalate (parts.map String.ofList) = String.ofList (separator.toList.intercalate parts) := by
  apply String.toList_inj.mp
  rw [String.toList_intercalate, String.toList_ofList, List.map_map]
  simp [Function.comp_def]

theorem toList_intercalate_splitLines (text : String) :
    ("\n".intercalate (splitLines text)).toList = ['\n'].intercalate (lines text.toList) := by
  rw [String.toList_intercalate, toList_splitLines]
  rfl

theorem replaced_iff {text result : String} :
    Replaced "\r\n" "\n" text result ↔ "\n".intercalate (splitLines text) = result := by
  constructor
  · rintro ⟨parts, hne, hparts, rfl, rfl⟩
    have htext : ("\r\n".intercalate parts).toList = returnFeed.intercalate (parts.map String.toList) :=
      String.toList_intercalate
    apply String.toList_inj.mp
    rw [toList_intercalate_splitLines, htext, String.toList_intercalate]
    exact intercalate_lines (mt List.map_eq_nil_iff.mp hne) (List.forall_mem_map.mpr hparts)
  · rintro rfl
    obtain ⟨parts, hne, hparts, htext⟩ := hasParts text.toList
    refine ⟨parts.map String.ofList, mt List.map_eq_nil_iff.mp hne, ?_, ?_, ?_⟩
    · rw [List.forall_mem_map]
      intro p hp
      change ¬ returnFeed <:+: (String.ofList p).toList
      rw [String.toList_ofList]
      exact hparts p hp
    · calc "\r\n".intercalate (parts.map String.ofList)
          = String.ofList (returnFeed.intercalate parts) := intercalate_map_ofList "\r\n" parts
        _ = text := by rw [htext, String.ofList_toList]
    · calc "\n".intercalate (parts.map String.ofList)
          = String.ofList (['\n'].intercalate parts) := intercalate_map_ofList "\n" parts
        _ = String.ofList (['\n'].intercalate (lines text.toList)) := by rw [← htext, intercalate_lines hne hparts]
        _ = "\n".intercalate (splitLines text) := by rw [← toList_intercalate_splitLines, String.ofList_toList]

/-- **Cutting into lines takes back what put them together.** For every first line and all further ones with the line end
before each of them, a line feed alone or with a carriage return: when no line has a line feed in it, and none but the last
ends with a carriage return, the lines of the assembled text are these lines. For every text: its lines have no line feed
in them, and with line feeds between them they are the text with a line feed for every carriage return and line feed, and
no other text. -/
theorem splitLines_inverts_assembly :
    (∀ (first : String) (rest : List (LineEnd × String)),
      (∀ l ∈ first :: rest.map Prod.snd, '\n' ∉ l.toList) →
      (∀ l ∈ (first :: rest.map Prod.snd).dropLast, l.toList.getLast? ≠ some '\r') →
      splitLines (assembled first rest) = first :: rest.map Prod.snd) ∧
    (∀ text result, Replaced "\r\n" "\n" text result ↔ "\n".intercalate (splitLines text) = result) ∧
    (∀ text, ∀ l ∈ splitLines text, '\n' ∉ l.toList) := by
  refine ⟨?_, fun _ _ => replaced_iff, ?_⟩
  · intro first rest hfeed hreturn
    rw [splitLines, lines_assembled hfeed hreturn, List.map_map]
    simp [Function.comp_def]
  · intro text l hl
    obtain ⟨p, hp, rfl⟩ := List.mem_map.mp hl
    rw [String.toList_ofList]
    exact newline_not_mem_lines text.toList p hp

/-- four lines, an empty one and a last one with a carriage return at its end among them, with both line ends -/
theorem splitLines_inverts_assembly_mixed :
    splitLines "a\rb\r\n\nc\r\n\r" = ["a\rb", "", "c", "\r"] ∧ Replaced "\r\n" "\n" "a\r\r\n\nb\r" "a\r\n\nb\r" := by
  obtain ⟨hfound, hreplaced, -⟩ := splitLines_inverts_assembly
  refine ⟨?_, ?_⟩
  · exact hfound "a\rb" [(.returnFeed, ""), (.feed, "c"), (.returnFeed, "\r")] (by decide) (by decide)
  · exact (hreplaced _ _).mpr (by decide)

end ChangeImpact.Text
