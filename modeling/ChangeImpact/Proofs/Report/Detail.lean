/-
What detail and colours add to a report.

The lines of a report come in one order of kinds, each kind at most once. The lines for everyone are the first ones; for
someone who looks into a failure a line with the code is added, and after it the name, the cause and the stack as far as they
are known. So the short text is the beginning of the long one, and colours only put orders to the terminal around lines.

All this is said of reports that are made. A report is not made of a failure that has no text, and in detail not of one whose
cause has none (`Untold`): then neither lines nor a text come out but a failure of another kind.

Results:
- `kinds_lines`, `lines_eq_cons`, `debugLines_eq_cons`: the order of the lines.
- `trim_text_ne_empty`: the lines that are not blank.
- `render_debug`: the long text begins with the short one.
- `debug_and_colour_only_add`: which failures are reported, and all of the above for those.
-/
import ChangeImpact.Proofs.Report.Colours
import ChangeImpact.Proofs.Report.Words

namespace ChangeImpact

open Text

/-- all kinds of lines, in the order in which they come -/
def LineKind.order : List LineKind :=
  [title, message, hint, next, code, name, cause, stack]

namespace Failure

variable {f : Failure} {detail : Detail} {r : Report} {l : ReportLine}

/-! ## The order of lines -/

theorem kinds_optional (kind : LineKind) (text : Option String) :
    ((text.toList.map (⟨kind, ·⟩)).map ReportLine.kind).Sublist [kind] := by
  cases text with
  | none => exact List.nil_sublist _
  | some t => exact List.Sublist.refl _

theorem kinds_message (r : Report) :
    (List.map ReportLine.kind (if trim r.message = trim r.title then [] else [⟨.message, r.message⟩])).Sublist [.message] := by
  split
  · exact List.nil_sublist _
  · exact List.Sublist.refl _

theorem kinds_shortLines (r : Report) :
    ((shortLines r).map ReportLine.kind).Sublist [.title, .message, .hint, .next] := by
  simp only [shortLines, List.map_append]
  exact (((List.Sublist.refl [.title]).append (kinds_message r)).append (kinds_optional .hint r.hint)).append
    (kinds_optional .next r.next)

/-- what follows the code in detail -/
def sourceLines (f : Failure) (r : Report) : List ReportLine :=
  f.name?.toList.map (⟨.name, ·⟩) ++ (causeText? r.cause r.message).toList.map (⟨.cause, ·⟩) ++ f.stack?.toList.map (⟨.stack, ·⟩)

theorem debugLines_eq_cons (f : Failure) (r : Report) : f.debugLines r = ⟨.code, r.code⟩ :: f.sourceLines r := by
  rw [debugLines, sourceLines, List.append_assoc, List.append_assoc, List.singleton_append, List.append_assoc]

theorem kinds_sourceLines (f : Failure) (r : Report) :
    ((f.sourceLines r).map ReportLine.kind).Sublist [.name, .cause, .stack] := by
  simp only [sourceLines, List.map_append]
  exact ((kinds_optional .name f.name?).append (kinds_optional .cause _)).append (kinds_optional .stack f.stack?)

theorem code_not_mem_sourceLines (hl : l ∈ f.sourceLines r) : l.kind ≠ .code := by
  intro hcode
  have hkind : l.kind ∈ [LineKind.name, .cause, .stack] := (kinds_sourceLines f r).subset (List.mem_map_of_mem hl)
  rw [hcode] at hkind
  exact absurd hkind (by decide)

theorem lines_short (f : Failure) : f.lines .short = shortLines f.report := by
  rw [lines, if_neg (by decide), List.append_nil]

theorem lines_debug (f : Failure) :
    f.lines .debug = f.lines .short ++ ⟨.code, f.report.code⟩ :: f.sourceLines f.report := by
  rw [lines_short, lines, if_pos rfl, debugLines_eq_cons]

theorem kinds_lines (f : Failure) (detail : Detail) : ((f.lines detail).map ReportLine.kind).Sublist LineKind.order := by
  cases detail with
  | short =>
    rw [lines_short]
    have hfirst : [LineKind.title, .message, .hint, .next].Sublist LineKind.order := by decide
    exact (kinds_shortLines f.report).trans hfirst
  | debug =>
    rw [lines_debug, lines_short, List.map_append, List.map_cons]
    exact (kinds_shortLines f.report).append ((kinds_sourceLines f f.report).cons_cons .code)

theorem lines_eq_cons (f : Failure) (detail : Detail) : ∃ rest, f.lines detail = ⟨.title, f.report.title⟩ :: rest := by
  simp only [lines, shortLines, List.append_assoc, List.singleton_append]
  exact ⟨_, rfl⟩

/-! ## Lines that are not blank -/

theorem mem_optional {kind : LineKind} {text : Option String} (hl : l ∈ text.toList.map (⟨kind, ·⟩)) : text = some l.text := by
  obtain ⟨t, ht, rfl⟩ := List.mem_map.mp hl
  exact Option.mem_toList.mp ht

theorem trim_ne_empty_of_mem_shortLines (h : r.Worded) (hl : l ∈ shortLines r) : trim l.text ≠ "" := by
  simp only [shortLines, List.mem_append] at hl
  rcases hl with ((htitle | hmessage) | hhint) | hnext
  · rw [List.mem_singleton.mp htitle]
    exact h.title
  · split at hmessage
    · cases hmessage
    · rw [List.mem_singleton.mp hmessage]
      exact h.message
  · exact h.hint _ (mem_optional hhint)
  · exact h.next _ (mem_optional hnext)

theorem trim_ne_empty_of_mem_sourceLines (hl : l ∈ f.sourceLines r) (hstack : l.kind ≠ .stack) : trim l.text ≠ "" := by
  simp only [sourceLines, List.mem_append] at hl
  rcases hl with (hname | hcause) | htrace
  · exact trim_name?_ne_empty (mem_optional hname)
  · exact trim_causeText?_ne_empty (mem_optional hcause)
  · obtain ⟨t, -, rfl⟩ := List.mem_map.mp htrace
    exact absurd rfl hstack

theorem trim_text_ne_empty (hl : l ∈ f.lines detail) (hcode : l.kind ≠ .code) (hstack : l.kind ≠ .stack) : trim l.text ≠ "" := by
  cases detail with
  | short =>
    rw [lines_short] at hl
    exact trim_ne_empty_of_mem_shortLines f.report_worded hl
  | debug =>
    rw [lines_debug, lines_short, List.mem_append, List.mem_cons] at hl
    rcases hl with hshort | rfl | hsource
    · exact trim_ne_empty_of_mem_shortLines f.report_worded hshort
    · exact absurd rfl hcode
    · exact trim_ne_empty_of_mem_sourceLines hsource hstack

/-! ## Texts -/

theorem render_debug (f : Failure) (coloured : Bool) :
    f.render .debug coloured =
      f.render .short coloured ++ following coloured (⟨.code, f.report.code⟩ :: f.sourceLines f.report) := by
  obtain ⟨rest, hrest⟩ := lines_eq_cons f .short
  rw [render, render, lines_debug, hrest, List.cons_append, rendered_cons, rendered_cons]
  simp only [following, List.map_append, String.join_append, String.append_assoc]

/-! ## Reports that are made -/

theorem told_of_untold (h : f.Untold detail) : f.told detail = .error wordless := by
  rw [told, (tellable_eq_false_iff f detail).mpr h]
  rfl

theorem told_of_not_untold (h : ¬ f.Untold detail) : f.told detail = .ok (f.lines detail) := by
  rw [← tellable_eq_false_iff, Bool.not_eq_false] at h
  rw [told, if_pos h]

theorem shown_of_untold (h : f.Untold detail) (coloured : Bool) : f.shown detail coloured = .error wordless := by
  rw [shown, told_of_untold h]
  rfl

theorem shown_of_not_untold (h : ¬ f.Untold detail) (coloured : Bool) :
    f.shown detail coloured = .ok (f.render detail coloured) := by
  rw [shown, told_of_not_untold h]
  rfl

/-- without the text of a failure there is no report in detail either -/
theorem untold_debug (h : f.Untold .short) : f.Untold .debug := by
  rcases h with h | ⟨hdetail, -⟩
  · exact Or.inl h
  · cases hdetail

/-- lines of which the first is the title, in the order of their kinds and none blank that is put into words -/
structure Arranged (ls : List ReportLine) : Prop where
  order : (ls.map ReportLine.kind).Sublist LineKind.order
  title : ∃ text rest, ls = ⟨.title, text⟩ :: rest
  worded : ∀ l ∈ ls, l.kind ≠ .code → l.kind ≠ .stack → trim l.text ≠ ""

theorem arranged_lines (f : Failure) (detail : Detail) : Arranged (f.lines detail) := by
  obtain ⟨rest, hrest⟩ := lines_eq_cons f detail
  exact ⟨kinds_lines f detail, ⟨f.report.title, rest, hrest⟩, fun _ => trim_text_ne_empty⟩

/-- **Detail and colours only add to a report.** Whatever failed, with whatever causes: when a text that is needed is not there,
the failure to have it comes out instead of a report. Otherwise there are lines, in the order of their kinds; in detail they are
the lines for everyone, then one line with the code and then others, and their text begins with the text for everyone, in
colours and without. As long as no line has an escape character, the text in colours is the plain one when the orders to the
terminal are taken off. -/
theorem debug_and_colour_only_add (f : Failure) :
    (∀ detail, f.Untold detail → f.told detail = .error wordless ∧ ∀ coloured, f.shown detail coloured = .error wordless) ∧
    (∀ detail, ¬ f.Untold detail → ∃ ls, f.told detail = .ok ls ∧ Arranged ls ∧
      ((∀ l ∈ ls, '\x1b' ∉ l.text.toList) →
        ∃ text, f.shown detail true = .ok text ∧ f.shown detail false = .ok (withoutStyling text))) ∧
    (¬ f.Untold .debug → ∃ short code rest, f.told .short = .ok short ∧ f.told .debug = .ok (short ++ ⟨.code, code⟩ :: rest) ∧
      (∀ l ∈ rest, l.kind ≠ .code) ∧
      ∀ coloured, ∃ text more, f.shown .short coloured = .ok text ∧ f.shown .debug coloured = .ok (text ++ more)) := by
  refine ⟨fun detail h => ⟨told_of_untold h, shown_of_untold h⟩, ?_, ?_⟩
  · intro detail h
    refine ⟨f.lines detail, told_of_not_untold h, arranged_lines f detail, fun hplain => ?_⟩
    refine ⟨f.render detail true, shown_of_not_untold h true, ?_⟩
    rw [shown_of_not_untold h, render, render, withoutStyling_rendered hplain]
  · intro h
    have hshort : ¬ f.Untold .short := fun huntold => h (untold_debug huntold)
    refine ⟨f.lines .short, f.report.code, f.sourceLines f.report, told_of_not_untold hshort, ?_, ?_, ?_⟩
    · rw [told_of_not_untold h, lines_debug]
    · exact fun l hl => code_not_mem_sourceLines hl
    · intro coloured
      refine ⟨f.render .short coloured, following coloured (⟨.code, f.report.code⟩ :: f.sourceLines f.report),
        shown_of_not_untold hshort coloured, ?_⟩
      rw [shown_of_not_untold h, render_debug]

/-- an error with everything that a report can show -/
def detailed : Failure :=
  .error (.reported "CONFIG_ERROR" "Title." (some "Hint.") (some " Next. ")) "UserFacingError" "Message." (some "trace")
    (some (.error .git "GitError" " why\n" none none))

/-- a value without a text -/
def textless : Failure :=
  .value (.object [("toString", .ofNat 1)])

theorem debug_and_colour_only_add_detailed :
    detailed.told .debug = .ok [⟨.title, "Title."⟩, ⟨.message, "Message."⟩, ⟨.hint, "Hint."⟩, ⟨.next, "Next."⟩,
      ⟨.code, "CONFIG_ERROR"⟩, ⟨.name, "UserFacingError"⟩, ⟨.cause, "why"⟩, ⟨.stack, "trace"⟩] ∧
    Arranged (detailed.lines .debug) ∧
    (∃ text, detailed.shown .debug true = .ok text ∧ detailed.shown .debug false = .ok (withoutStyling text)) ∧
    (∀ coloured, ∃ text more,
      detailed.shown .short coloured = .ok text ∧ detailed.shown .debug coloured = .ok (text ++ more)) ∧
    textless.shown .short false = .error wordless := by
  have hreported : ¬ detailed.Untold .debug := by
    rw [← tellable_eq_false_iff]
    decide
  have huntold : textless.Untold .short := by
    rw [← tellable_eq_false_iff]
    decide
  have hlong : detailed.lines .debug = [⟨.title, "Title."⟩, ⟨.message, "Message."⟩, ⟨.hint, "Hint."⟩, ⟨.next, "Next."⟩,
      ⟨.code, "CONFIG_ERROR"⟩, ⟨.name, "UserFacingError"⟩, ⟨.cause, "why"⟩, ⟨.stack, "trace"⟩] := by decide +kernel
  have htold := told_of_not_untold hreported
  obtain ⟨-, hlines, hadds⟩ := debug_and_colour_only_add detailed
  obtain ⟨ls, hls, harranged, hcolours⟩ := hlines .debug hreported
  obtain rfl : detailed.lines .debug = ls := Except.ok.inj (htold.symm.trans hls)
  obtain ⟨-, -, -, -, -, -, htexts⟩ := hadds hreported
  obtain ⟨hnone, -, -⟩ := debug_and_colour_only_add textless
  refine ⟨htold.trans (congrArg Except.ok hlong), harranged, hcolours ?_, htexts, (hnone .short huntold).2 false⟩
  rw [hlong]
  decide

/-- there is no report of a value without a text, and of an error with such a cause there is none in detail -/
theorem told_textless :
    let caused : Failure := .error .other "Error" "m" none (some textless)
    (∀ detail, textless.told detail = .error wordless) ∧
    caused.told .short = .ok [⟨.title, "Unexpected error"⟩, ⟨.message, "m"⟩] ∧ caused.told .debug = .error wordless := by
  intro caused
  have hvalue : textless.Wordless := .object (.object nofun) nofun
  have hshort : ¬ caused.Untold .short := by
    rw [← tellable_eq_false_iff]
    decide
  have hlines : caused.lines .short = [⟨.title, "Unexpected error"⟩, ⟨.message, "m"⟩] := by decide +kernel
  refine ⟨fun detail => told_of_untold (Or.inl hvalue), ?_, told_of_untold (Or.inr ⟨rfl, textless, rfl, hvalue⟩)⟩
  rw [told_of_not_untold hshort, hlines]

end Failure

end ChangeImpact
