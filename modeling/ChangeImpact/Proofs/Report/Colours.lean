/-
Colours, and what is left when they are taken off.

A terminal takes an escape character, an opening bracket, some digits and the letter m for the order to change its style;
`withoutStyling` is a text without these orders. Nothing else of a text is lost: an escape character that begins no order
stays. A line in colours is the line between such orders, and none begins in it as long as it has no escape character of its
own, so taking the orders off gives back the line, and a whole report of lines.

Results:
- `dropStyling_of_plain`, `dropStyling_sequence`: what stays, and what goes.
- `dropStyling_renderLine`: one line of a report.
- `withoutStyling_rendered`: all lines, with line feeds between them.
-/
import ChangeImpact.Failure
import ChangeImpact.Proofs.Number.ReadBack
import ChangeImpact.Proofs.Text.Joined

namespace ChangeImpact

/-! ## Taking colours off -/

namespace Text

/-- how many characters of the beginning are an order to change the style -/
def stylingLength : List Char → Nat
  | '\x1b' :: '[' :: rest =>
    if (rest.dropWhile Char.isDigit).head? = some 'm' then (rest.takeWhile Char.isDigit).length + 3 else 0
  | _ => 0

/-- characters without the orders, when the first so many belong to one that has begun -/
def dropStyling : Nat → List Char → List Char
  | _, [] => []
  | skipped + 1, _ :: cs => dropStyling skipped cs
  | 0, c :: cs =>
    match stylingLength (c :: cs) with
    | 0 => c :: dropStyling 0 cs
    | skipped + 1 => dropStyling skipped cs

/-- a text without the orders to change the style -/
def withoutStyling (s : String) : String :=
  String.ofList (dropStyling 0 s.toList)

variable {cs ds : List Char}

theorem stylingLength_of_ne {c : Char} (h : c ≠ '\x1b') (cs : List Char) : stylingLength (c :: cs) = 0 := by
  rw [stylingLength]
  intro rest heq
  exact h (List.cons.inj heq).1

theorem dropStyling_of_plain (h : '\x1b' ∉ cs) (ds : List Char) :
    dropStyling 0 (cs ++ ds) = cs ++ dropStyling 0 ds := by
  induction cs with
  | nil => rfl
  | cons c cs ih =>
    rw [List.mem_cons, not_or] at h
    rw [List.cons_append, dropStyling, stylingLength_of_ne (Ne.symm h.1), ih h.2]
    rfl

theorem dropStyling_length (cs ds : List Char) : dropStyling cs.length (cs ++ ds) = dropStyling 0 ds := by
  induction cs with
  | nil => rfl
  | cons c cs ih =>
    rw [List.length_cons, List.cons_append, dropStyling, ih]

end Text

open Text

theorem toList_escapeSequence (n : Nat) :
    (escapeSequence n).toList = '\x1b' :: '[' :: (Nat.toDigits 10 n ++ ['m']) := by
  have hnumber : (toString n).toList = Nat.toDigits 10 n := Nat.toList_repr
  rw [escapeSequence, String.toList_append, String.toList_append, hnumber, List.append_assoc]
  rfl

theorem dropStyling_sequence (n : Nat) (ds : List Char) :
    dropStyling 0 ((escapeSequence n).toList ++ ds) = dropStyling 0 ds := by
  have hdigits : ∀ c ∈ Nat.toDigits 10 n, c.isDigit = true := fun c hc => isDigit_of_mem_toDigits hc
  have hend : ∀ c, ('m' :: ds).head? = some c → c.isDigit = false := by simp
  obtain ⟨htake, hdrop⟩ := takeWhile_run hdigits hend
  have hlength : stylingLength ((escapeSequence n).toList ++ ds) = (Nat.toDigits 10 n).length + 3 := by
    rw [toList_escapeSequence, List.cons_append, List.cons_append, List.append_assoc, stylingLength, List.singleton_append,
      hdrop, htake]
    rfl
  rw [toList_escapeSequence, List.cons_append] at hlength ⊢
  rw [dropStyling, hlength]
  have hrest := dropStyling_length ('[' :: (Nat.toDigits 10 n ++ ['m'])) ds
  rw [List.length_cons, List.length_append] at hrest
  exact hrest

theorem dropStyling_sequences (styles : List Style) (ds : List Char) :
    dropStyling 0 ((String.join (styles.map fun s => escapeSequence s.number)).toList ++ ds) = dropStyling 0 ds := by
  induction styles with
  | nil => rfl
  | cons s rest ih =>
    rw [List.map_cons, String.join_cons, String.toList_append, List.append_assoc, dropStyling_sequence, ih]

theorem dropStyling_styled (styles : List Style) {text : String} (h : '\x1b' ∉ text.toList) (ds : List Char) :
    dropStyling 0 ((styled true styles text).toList ++ ds) = text.toList ++ dropStyling 0 ds := by
  unfold styled
  split
  · exact dropStyling_of_plain h ds
  · rw [String.toList_append, String.toList_append, List.append_assoc, List.append_assoc, dropStyling_sequences,
      dropStyling_of_plain h, dropStyling_sequence]

/-! ## Lines -/

namespace Failure

/-- the text of a line with its label, before the colours -/
def labelled (l : ReportLine) : String :=
  (l.kind.label?.map (· ++ ": ")).getD "" ++ l.text

theorem escape_not_mem_labelled {l : ReportLine} (h : '\x1b' ∉ l.text.toList) : '\x1b' ∉ (labelled l).toList := by
  have hlabel : '\x1b' ∉ ((l.kind.label?.map (· ++ ": ")).getD "").toList := by
    cases l.kind <;> decide
  rw [labelled, String.toList_append, List.mem_append, not_or]
  exact ⟨hlabel, h⟩

theorem dropStyling_renderLine {l : ReportLine} (h : '\x1b' ∉ l.text.toList) (ds : List Char) :
    dropStyling 0 ((renderLine true l).toList ++ ds) = (renderLine false l).toList ++ dropStyling 0 ds :=
  dropStyling_styled l.kind.styles (escape_not_mem_labelled h) ds

/-- the text of a line is in what is printed of it -/
theorem infix_renderLine (coloured : Bool) (l : ReportLine) : l.text.toList <:+: (renderLine coloured l).toList := by
  have hlabelled : l.text.toList <:+: (labelled l).toList := by
    rw [labelled, String.toList_append]
    exact (List.suffix_append _ _).isInfix
  have hstyled : (labelled l).toList <:+: (styled coloured l.kind.styles (labelled l)).toList := by
    unfold styled
    split
    · exact List.infix_rfl
    · rw [String.toList_append, String.toList_append]
      exact List.infix_append _ _ _
  exact hlabelled.trans hstyled

/-- the lines that come after a first one, each behind a line feed -/
def following (coloured : Bool) (ls : List ReportLine) : String :=
  String.join (ls.map fun l => "\n" ++ renderLine coloured l)

theorem dropStyling_following {ls : List ReportLine} (h : ∀ l ∈ ls, '\x1b' ∉ l.text.toList) :
    dropStyling 0 (following true ls).toList = (following false ls).toList := by
  induction ls with
  | nil => rfl
  | cons l rest ih =>
    rw [List.forall_mem_cons] at h
    have hfeed : '\x1b' ∉ "\n".toList := by decide
    unfold following at ih ⊢
    rw [List.map_cons, List.map_cons, String.join_cons, String.join_cons]
    simp only [String.toList_append, List.append_assoc]
    rw [dropStyling_of_plain hfeed, dropStyling_renderLine h.1, ih h.2]

theorem rendered_cons (coloured : Bool) (l : ReportLine) (rest : List ReportLine) :
    "\n".intercalate ((l :: rest).map (renderLine coloured)) = renderLine coloured l ++ following coloured rest := by
  rw [List.map_cons, intercalate_cons, List.map_map]
  rfl

theorem infix_following {l : ReportLine} {ls : List ReportLine} (hl : l ∈ ls) (coloured : Bool) :
    (renderLine coloured l).toList <:+: (following coloured ls).toList := by
  obtain ⟨before, after, rfl⟩ := List.append_of_mem hl
  simp only [following, List.map_append, List.map_cons, String.join_append, String.join_cons, String.toList_append]
  refine ⟨(String.join (before.map fun l => "\n" ++ renderLine coloured l)).toList ++ "\n".toList,
    (String.join (after.map fun l => "\n" ++ renderLine coloured l)).toList, ?_⟩
  simp only [List.append_assoc]

/-- every line is in the text that the lines make -/
theorem infix_rendered {l : ReportLine} {ls : List ReportLine} (hl : l ∈ ls) (coloured : Bool) :
    (renderLine coloured l).toList <:+: ("\n".intercalate (ls.map (renderLine coloured))).toList := by
  cases ls with
  | nil => cases hl
  | cons first rest =>
    rw [rendered_cons, String.toList_append]
    rcases List.mem_cons.mp hl with rfl | hl
    · exact (List.prefix_append _ _).isInfix
    · exact (infix_following hl coloured).trans (List.suffix_append _ _).isInfix

/-- **Colours only add to lines.** Without an escape character in a line, a report in colours is the plain one as soon as the
orders to change the style are taken off. -/
theorem withoutStyling_rendered {ls : List ReportLine} (h : ∀ l ∈ ls, '\x1b' ∉ l.text.toList) :
    withoutStyling ("\n".intercalate (ls.map (renderLine true))) = "\n".intercalate (ls.map (renderLine false)) := by
  cases ls with
  | nil => rfl
  | cons l rest =>
    rw [List.forall_mem_cons] at h
    rw [rendered_cons, rendered_cons, withoutStyling, String.toList_append, dropStyling_renderLine h.1,
      dropStyling_following h.2, ← String.toList_append, String.ofList_toList]

end Failure

end ChangeImpact
