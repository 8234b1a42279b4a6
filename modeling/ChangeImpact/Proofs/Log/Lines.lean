/-
The lines of a log.

A notice adds one line to a log, nothing when nobody listens, and when its time does not exist it fails and
adds nothing. What a line says is decided key by key: the payload first, then the context, then the time
and the type (`Event.entry?`). The record of an event is a JSON value if its context and its payload are,
so its line is read back as that record and has no line feed before its end, and the time that it has in
it is read back as the time of the event (`Instant.read?`). One notice at a time, the text grows by the
lines of those that were written down, and a notice that fails leaves no trace in it.

Results:
- `isLine_line`: what the line of an event is, and what it is read as.
- `writeNotices_cons`, `text_writeNotices`: one notice, and any number of them.
- `writeNotices_faithful`: the text and the answers of any sequence of notices.
-/
import Mathlib.Data.List.Forall2
import ChangeImpact.Event
import ChangeImpact.Proofs.Json.ReadBack
import ChangeImpact.Proofs.Log.Instants
import ChangeImpact.Proofs.Tables.Contents

namespace ChangeImpact

theorem Value.IsJson.nodup_keys {fields : List (String × Value)} (h : (Value.object fields).IsJson) :
    (Fields.keys fields).Nodup := by
  cases h with
  | object arranged _ => exact arranged ▸ Fields.nodup_ofEntries fields

theorem Value.IsJson.of_mem {fields : List (String × Value)} (h : (Value.object fields).IsJson) {e : String × Value}
    (he : e ∈ fields) : e.2.IsJson := by
  cases h with
  | object _ each => exact each e he

namespace Event

/-- the value that the line of an event has under a key, where its time is written as a text -/
def entry? (context : List (String × Value)) (ts : String) (e : Event) (key : String) : Option Value :=
  if key = "payload" ∧ e.payload.isSome then e.payload.map .object
  else (context.lookup key).or ([("ts", .string ts), ("type", .string e.type)].lookup key)

/-- a text is the line of an event: one line, and JSON for an object with the event's entries, of which one is a text that
says the time -/
structure IsLine (context : List (String × Value)) (time : Instant) (e : Event) (line : String) : Prop where
  ended : ∃ body, line = body ++ "\n" ∧ '\n' ∉ body.toList
  parsed : ∃ ts, Instant.read? ts = some time.milliseconds ∧
    ∃ fields, Json.read? line = some (.object fields) ∧ (Fields.keys fields).Nodup ∧
      ∀ key, fields.lookup key = e.entry? context ts key

section

variable {context : List (String × Value)} {time : Instant} {e : Event} (hcontext : (Value.object context).IsJson)
include hcontext

theorem lookup_fields (key : String) :
    (Fields.ofEntries (e.fields context time)).lookup key = e.entry? context time.text key := by
  have hlast : Table.lastUnder context key = context.lookup key := Table.lastUnder_eq_lookup hcontext.nodup_keys key
  have hstart : [("type", Value.string e.type), ("ts", .string time.text)].lookup key =
      [("ts", .string time.text), ("type", .string e.type)].lookup key :=
    Fields.lookup_eq_of_perm (.swap ..) (by simp [Fields.keys]) key
  have hrest : (context.reverse ++ [("type", Value.string e.type), ("ts", .string time.text)]).lookup key =
      (context.lookup key).or ([("ts", .string time.text), ("type", .string e.type)].lookup key) := by
    rw [List.lookup_append, hstart, ← hlast]
    rfl
  rw [Fields.lookup_ofEntries, Table.lastUnder, fields, entry?]
  cases e.payload with
  | none => simpa using hrest
  | some p =>
    by_cases hkey : key = "payload"
    · simp [hkey]
    · simpa [List.lookup_cons, hkey, beq_false_of_ne hkey] using hrest

theorem isJson_record (hpayload : ∀ p, e.payload = some p → (Value.object p).IsJson) :
    (e.record context time).IsJson := by
  refine .object (Fields.ofEntries_ofEntries _) fun f hf => ?_
  have hmem : f ∈ e.fields context time := Fields.mem_of_mem_ofEntries hf
  simp only [fields, List.mem_append, List.mem_map, Option.mem_toList] at hmem
  rcases hmem with (hstart | hf) | ⟨p, hp, rfl⟩
  · simp only [List.mem_cons, List.not_mem_nil, or_false] at hstart
    rcases hstart with rfl | rfl
    · exact .string _
    · exact .string _
  · exact hcontext.of_mem hf
  · exact hpayload p hp

/-- the line of an event -/
theorem isLine_line (hpayload : ∀ p, e.payload = some p → (Value.object p).IsJson) :
    e.IsLine context time (e.line context time) := by
  have hjson : (e.record context time).IsJson := isJson_record hcontext hpayload
  refine ⟨⟨String.ofList (Json.write (e.record context time)), ?_, ?_⟩, ?_⟩
  · rw [line, String.ofList_append]
  · rw [String.toList_ofList]
    exact Json.newline_not_mem_write hjson
  · exact ⟨time.text, time.read?_text, _, Json.read?_line hjson, Fields.nodup_ofEntries _, lookup_fields hcontext⟩

end

end Event

/-! ## One notice -/

namespace Notice

variable {context : List (String × Value)} {n : Notice}

/-- what is written down for a notice, and when: nothing if nobody listens or the time does not exist -/
def written? (n : Notice) : Option (Event × Instant) :=
  if n.listening then (Instant.ofNumber? n.now).map fun time => (n.event, time) else none

/-- somebody listens, and the time does not exist -/
def Refused (n : Notice) : Prop :=
  n.listening = true ∧ ∀ time : Instant, ¬ time.IsAt n.now

theorem ofNumber?_of_refused (h : n.Refused) : Instant.ofNumber? n.now = none := by
  cases htime : Instant.ofNumber? n.now with
  | none => rfl
  | some time => exact absurd (Instant.ofNumber?_eq_some_iff.mp htime) (h.2 time)

/-- an event is written down when somebody listens, at the time that the clock says -/
theorem written?_eq_some_iff {w : Event × Instant} :
    n.written? = some w ↔ n.listening = true ∧ w.1 = n.event ∧ w.2.IsAt n.now := by
  obtain ⟨event, time⟩ := w
  simp only [written?, ← Instant.ofNumber?_eq_some_iff]
  split
  · next hlistening => simp [hlistening, and_comm, eq_comm]
  · next hlistening => simp [hlistening]

/-- the line of what is written down, no text otherwise -/
def text (context : List (String × Value)) (n : Notice) : String :=
  n.written?.elim "" fun w => w.1.line context w.2

theorem getD_added? (context : List (String × Value)) (n : Notice) : (n.added? context).getD "" = n.text context := by
  unfold added? text written? Event.lineAt?
  split
  · cases Instant.ofNumber? n.now <;> rfl
  · rfl

theorem answer_of_refused (h : n.Refused) : n.answer context = .error refusal := by
  simp only [answer, added?, Event.lineAt?, h.1, ofNumber?_of_refused h, if_true, Option.map_none]

theorem text_of_refused (h : n.Refused) : n.text context = "" := by
  simp only [text, written?, h.1, ofNumber?_of_refused h, if_true, Option.map_none, Option.elim_none]

/-- a notice that is not refused answers with what it adds -/
theorem answer_of_not_refused (h : ¬ n.Refused) : n.answer context = .ok (n.text context) := by
  unfold answer text written? added? Event.lineAt?
  by_cases hlistening : n.listening
  · cases htime : Instant.ofNumber? n.now with
    | none =>
      refine absurd ⟨hlistening, fun time htold => ?_⟩ h
      rw [Instant.ofNumber?_eq_some_iff.mpr htold] at htime
      contradiction
    | some time => simp [hlistening]
  · simp [hlistening]

end Notice

/-! ## Any number of notices -/

section

variable {context : List (String × Value)}

/-- the answers of a sequence of notices -/
def answers (context : List (String × Value)) (notices : List Notice) : List (Except Failure String) :=
  notices.map (Notice.answer context)

theorem writeNotices_cons (text : String) (n : Notice) (rest : List Notice) :
    (writeNotices context text (n :: rest)).1 = (writeNotices context (text ++ n.text context) rest).1 := by
  rw [← Notice.getD_added?]
  rfl

/-- the text grows by the lines of the notices that are written down -/
theorem text_writeNotices (text : String) (notices : List Notice) :
    (writeNotices context text notices).1 =
      text ++ String.join ((notices.filterMap Notice.written?).map fun w => w.1.line context w.2) := by
  induction notices generalizing text with
  | nil => exact (String.append_empty).symm
  | cons n rest ih =>
    rw [writeNotices_cons, ih, Notice.text]
    cases hn : n.written? with
    | none => rw [List.filterMap_cons_none hn, Option.elim_none, String.append_empty]
    | some w => rw [List.filterMap_cons_some hn, Option.elim_some, List.map_cons, String.join_cons, String.append_assoc]

theorem text_writeNotices_append (text : String) (before after : List Notice) :
    (writeNotices context text (before ++ after)).1 =
      (writeNotices context (writeNotices context text before).1 after).1 := by
  simp only [text_writeNotices, List.filterMap_append, List.map_append, String.join_append, String.append_assoc]

/-- a notice that is refused leaves no trace in the text -/
theorem text_writeNotices_of_refused (text : String) {n : Notice} (h : n.Refused) (before after : List Notice) :
    (writeNotices context text (before ++ n :: after)).1 = (writeNotices context text (before ++ after)).1 := by
  rw [text_writeNotices_append, text_writeNotices_append, writeNotices_cons, Notice.text_of_refused h, String.append_empty]

/-- **A log is faithful.** For every context and all payloads that are JSON, after any notices the text is the text before
them and then one line for each notice that somebody listens to at a time that exists, in their order. Each line ends with
its only line feed and is read as the object with the time and the type, under them the context, and under that the payload;
the time is a text that is read as the milliseconds that the clock said. A notice at a time that does not exist fails and
leaves the text as it was; the text and the answers after it are those that there are without it. No other notice fails. -/
theorem writeNotices_faithful {notices : List Notice} (hcontext : (Value.object context).IsJson)
    (hpayloads : ∀ n ∈ notices, ∀ p, n.event.payload = some p → (Value.object p).IsJson) (text : String) :
    (∃ lines, List.Forall₂ (fun w line => w.1.IsLine context w.2 line) (notices.filterMap Notice.written?) lines ∧
      (writeNotices context text notices).1 = text ++ String.join lines) ∧
    (∀ before n after, notices = before ++ n :: after → n.Refused →
      n.answer context = .error Notice.refusal ∧
      (writeNotices context text (before ++ [n])).1 = (writeNotices context text before).1 ∧
      (writeNotices context text notices).1 = (writeNotices context text (before ++ after)).1 ∧
      answers context notices = answers context before ++ .error Notice.refusal :: answers context after) ∧
    (∀ n ∈ notices, ∀ event time, n.written? = some (event, time) ↔
      n.listening = true ∧ event = n.event ∧ time.IsAt n.now) ∧
    ∀ n ∈ notices, ¬ n.Refused → ∃ added, n.answer context = .ok added := by
  refine ⟨⟨_, ?_, text_writeNotices text notices⟩, ?_, fun n _ _ _ => Notice.written?_eq_some_iff,
    fun n _ hn => ⟨_, Notice.answer_of_not_refused hn⟩⟩
  · refine List.forall₂_map_right_iff.mpr (List.forall₂_same.mpr fun w hw => ?_)
    obtain ⟨n, hn, hwritten⟩ := List.mem_filterMap.mp hw
    have hevent : w.1 = n.event := (Notice.written?_eq_some_iff.mp hwritten).2.1
    exact Event.isLine_line hcontext (hevent ▸ hpayloads n hn)
  · rintro before n after rfl hn
    refine ⟨Notice.answer_of_refused hn, ?_, text_writeNotices_of_refused text hn before after, ?_⟩
    · rw [text_writeNotices_of_refused text hn before [], List.append_nil]
    · rw [answers, List.map_append, List.map_cons, Notice.answer_of_refused hn]
      rfl

end

/-- a context with an index among its keys, and a key that every line has -/
def mixedContext : List (String × Value) :=
  [("2", .array [.null, .number .zero]), ("ts", .string "fixed"), ("\"quoted\"\n", .bool true)]

/-- a payload with an object inside, and characters that are escaped -/
def mixedPayload : List (String × Value) :=
  [("0", .object []), ("text", .string "a\\b\tc")]

/-- an event without a time that exists -/
def untimely : Notice :=
  ⟨.undefined, ⟨"lost", none⟩, true⟩

/-- the same time for an event with a payload and one with an empty payload, with others between them -/
def mixedNotices : List Notice :=
  [⟨.zero, ⟨"start\n", some mixedPayload⟩, true⟩, untimely, ⟨.undefined, ⟨"unheard", none⟩, false⟩,
   ⟨.zero, ⟨"end", some []⟩, true⟩]

theorem mixed_isJson : (Value.object mixedContext).IsJson ∧
    ∀ n ∈ mixedNotices, ∀ p, n.event.payload = some p → (Value.object p).IsJson := by
  have hempty : (Value.object []).IsJson := .object rfl nofun
  have hitems : ∀ v ∈ [Value.null, .number .zero], v.IsJson := by
    simp only [List.forall_mem_cons]
    exact ⟨.null, .number .zero, nofun⟩
  refine ⟨.object rfl ?_, ?_⟩
  · simp only [mixedContext, List.forall_mem_cons]
    exact ⟨.array hitems, .string _, .bool _, nofun⟩
  · simp only [mixedNotices, List.forall_mem_cons]
    refine ⟨?_, nofun, nofun, ?_, nofun⟩
    · rintro _ ⟨⟩
      refine .object rfl ?_
      simp only [mixedPayload, List.forall_mem_cons]
      exact ⟨hempty, .string _, nofun⟩
    · rintro _ ⟨⟩
      exact hempty

theorem writeNotices_faithful_mixed :
    ∃ lines, lines.length = 2 ∧
      (writeNotices mixedContext "earlier\n" mixedNotices).1 = "earlier\n" ++ String.join lines ∧
      untimely.answer mixedContext = .error Notice.refusal ∧
      (writeNotices mixedContext "earlier\n" mixedNotices).1 =
        (writeNotices mixedContext "earlier\n" (mixedNotices.eraseIdx 1)).1 := by
  obtain ⟨hcontext, hpayloads⟩ := mixed_isJson
  obtain ⟨⟨lines, heach, htext⟩, hrefused, -⟩ := writeNotices_faithful hcontext hpayloads "earlier\n"
  have hcount : (mixedNotices.filterMap Notice.written?).length = 2 := by decide +kernel
  obtain ⟨hanswer, -, hsame, -⟩ := hrefused (mixedNotices.take 1) untimely (mixedNotices.drop 2) rfl
    ⟨rfl, fun time htime => by obtain ⟨x, hx, -⟩ := htime; cases hx⟩
  exact ⟨lines, heach.length_eq.symm.trans hcount, htext, hanswer, hsame⟩

end ChangeImpact
