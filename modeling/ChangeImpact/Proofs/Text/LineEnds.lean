/-
Lines and what stands at their ends.

A text is cut into lines at line feeds, and some cuts take a carriage return along. Once the blank
characters around every line are gone it makes no difference which cut was used, whether the last
line was ended, or which of the two line ends stands where. The proofs compare lines without the
blank characters at their ends: unlike `strip`, `stripEnd` is determined by the first character and
what is left of the rest, so it goes along with cutting one character at a time.

Results:
- `trim_splitLines`: taking carriage returns along makes no difference.
- `trim_splitAt_ended`: ending the last line adds one line, and that line is empty.
- `trim_splitLines_assembled`: lines put together with any line ends are found again.
-/
import ChangeImpact.Text.Blank
import ChangeImpact.Text.Lines

namespace ChangeImpact.Text

/-- how a line ends -/
inductive LineEnd where
  | feed
  | returnFeed
  deriving DecidableEq

def LineEnd.text : LineEnd → String
  | feed => "\n"
  | returnFeed => "\r\n"

/-- lines in one text: the first one, and before each further one the end of the line above it -/
def assembled (first : String) : List (LineEnd × String) → String
  | [] => first
  | (e, next) :: rest => first ++ e.text ++ assembled next rest

/-! ## Lines without the blank characters at their ends -/

theorem map_stripEnd_onFirst {ps qs : List (List Char)} (c : Char) (h : ps.map stripEnd = qs.map stripEnd) :
    (onFirst c ps).map stripEnd = (onFirst c qs).map stripEnd := by
  cases ps with
  | nil =>
    obtain rfl : qs = [] := by simpa using h.symm
    rfl
  | cons p ps =>
    cases qs with
    | nil => contradiction
    | cons q qs =>
      obtain ⟨hp, hps⟩ := List.cons.inj h
      simp only [onFirst, List.map_cons, stripEnd, hp, hps]

theorem map_stripEnd_lines (cs : List Char) : (lines cs).map stripEnd = (pieces '\n' cs).map stripEnd := by
  induction cs using lines.induct with
  | case1 => rfl
  | case2 rest ih =>
    -- the carriage return is a line of its own to `pieces`, and a blank one
    have hreturn : stripEnd ['\r'] = [] := by decide
    have hpieces : pieces '\n' ('\r' :: '\n' :: rest) = ['\r'] :: pieces '\n' rest := rfl
    rw [hpieces, lines, List.map_cons, List.map_cons, ih, hreturn]
    rfl
  | case3 rest hrest ih =>
    rw [lines, pieces, if_pos rfl, if_pos rfl, List.map_cons, List.map_cons, ih]
    exact hrest
  | case4 c rest hrest hc ih =>
    rw [lines, pieces, if_neg hc, if_neg hc]
    · exact map_stripEnd_onFirst c ih
    · exact hrest

theorem map_stripEnd_pieces_return (cs : List Char) :
    (pieces '\n' (cs ++ ['\r'])).map stripEnd = (pieces '\n' cs).map stripEnd := by
  induction cs with
  | nil => decide
  | cons c cs ih =>
    rw [List.cons_append, pieces, pieces]
    split
    · rw [List.map_cons, List.map_cons, ih]
    · exact map_stripEnd_onFirst c ih

/-- either line end separates what stands before it from what stands behind it -/
theorem map_stripEnd_pieces_append (cs ds : List Char) (e : LineEnd) :
    (pieces '\n' (cs ++ e.text.toList ++ ds)).map stripEnd =
      (pieces '\n' cs).map stripEnd ++ (pieces '\n' ds).map stripEnd := by
  cases e with
  | feed =>
    have htext : cs ++ LineEnd.feed.text.toList ++ ds = cs ++ '\n' :: ds := by simp [LineEnd.text]
    rw [htext, pieces_append, List.map_append]
  | returnFeed =>
    have htext : cs ++ LineEnd.returnFeed.text.toList ++ ds = (cs ++ ['\r']) ++ '\n' :: ds := by simp [LineEnd.text]
    rw [htext, pieces_append, List.map_append, map_stripEnd_pieces_return]

theorem toList_assembled_cons (first next : String) (e : LineEnd) (rest : List (LineEnd × String)) :
    (assembled first ((e, next) :: rest)).toList = first.toList ++ e.text.toList ++ (assembled next rest).toList := by
  simp [assembled]

theorem map_stripEnd_pieces_assembled {first : String} {rest : List (LineEnd × String)} (hfirst : '\n' ∉ first.toList)
    (hrest : ∀ l ∈ rest, '\n' ∉ l.2.toList) :
    (pieces '\n' (assembled first rest).toList).map stripEnd =
      (first :: rest.map Prod.snd).map fun l => stripEnd l.toList := by
  induction rest generalizing first with
  | nil =>
    rw [assembled, pieces_of_not_mem hfirst]
    rfl
  | cons l rest ih =>
    obtain ⟨e, next⟩ := l
    rw [List.forall_mem_cons] at hrest
    rw [toList_assembled_cons, map_stripEnd_pieces_append, pieces_of_not_mem hfirst, ih hrest.1 hrest.2]
    rfl

/-! ## Trimmed lines -/

/-- texts are trimmed alike when they are alike without the blank characters at their ends -/
theorem map_trim_eq_of_stripEnd {texts others : List String}
    (h : (texts.map String.toList).map stripEnd = (others.map String.toList).map stripEnd) :
    texts.map trim = others.map trim := by
  have htrim : ∀ l : List String,
      l.map trim = ((l.map String.toList).map stripEnd).map fun cs => String.ofList (cs.dropWhile isBlank) := by
    intro l
    rw [List.map_map, List.map_map]
    refine List.map_congr_left fun s _ => ?_
    simp only [trim, strip, stripEnd_dropWhile, Function.comp_apply]
  rw [htrim, htrim, h]

theorem toList_splitLines (t : String) : (splitLines t).map String.toList = lines t.toList := by
  simp [splitLines, Function.comp_def]

theorem toList_splitAt (separator : Char) (t : String) :
    (splitAt separator t).map String.toList = pieces separator t.toList := by
  simp [splitAt, Function.comp_def]

/-- **Taking carriage returns along makes no difference to trimmed lines.** -/
theorem trim_splitLines (t : String) : (splitLines t).map trim = (splitAt '\n' t).map trim := by
  refine map_trim_eq_of_stripEnd ?_
  rw [toList_splitLines, toList_splitAt, map_stripEnd_lines]

/-- **Ending the last line adds nothing but an empty one.** -/
theorem trim_splitAt_ended (t : String) (e : LineEnd) :
    (splitAt '\n' (t ++ e.text)).map trim = (splitAt '\n' t ++ [""]).map trim := by
  refine map_trim_eq_of_stripEnd ?_
  have hended := map_stripEnd_pieces_append t.toList [] e
  rw [List.append_nil] at hended
  rw [toList_splitAt, String.toList_append, hended, List.map_append, toList_splitAt, List.map_append]
  rfl

/-- **Lines put together with any line ends are found again.** -/
theorem trim_splitLines_assembled {first : String} {rest : List (LineEnd × String)} (hfirst : '\n' ∉ first.toList)
    (hrest : ∀ l ∈ rest, '\n' ∉ l.2.toList) :
    (splitLines (assembled first rest)).map trim = (first :: rest.map Prod.snd).map trim := by
  rw [trim_splitLines]
  refine map_trim_eq_of_stripEnd ?_
  rw [toList_splitAt, map_stripEnd_pieces_assembled hfirst hrest, List.map_map]
  rfl

end ChangeImpact.Text
