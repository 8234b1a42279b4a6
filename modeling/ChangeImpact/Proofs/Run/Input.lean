/-
What a run sees of its input.

A run reads its input as one text, so inputs that are received as the same text are the same to it
(`run_of_received`). Together with what is known about chunks this says how the bytes of a text may
be cut: between characters a cut makes no difference to any run, inside a character it always
changes the text that is received.
-/
import ChangeImpact.Proofs.Text.Encoded
import ChangeImpact.Run.Outcome

namespace ChangeImpact.Run

open ChangeImpact.Text

section

variable (s : Surroundings) (input : List Chunk)

/-- the input has no part in the tables -/
theorem tables_of_input (disk : Disk) (config : Option String) :
    { s with input := input }.tables disk config = s.tables disk config := by
  simp only [Surroundings.tables, Surroundings.tablesFile, Surroundings.directoryPath]

theorem tablesWarnings_of_input (disk : Disk) (config : Option String) :
    { s with input := input }.tablesWarnings disk config = s.tablesWarnings disk config := by
  simp only [Surroundings.tablesWarnings, Surroundings.tablesFile, Surroundings.directoryPath]

theorem loadTables_of_input (config : Option String) : loadTables { s with input := input } config = loadTables s config := by
  simp only [loadTables, tables_of_input, tablesWarnings_of_input]

theorem openLog_of_input (path : Option String) : openLog { s with input := input } path = openLog s path := by
  simp only [openLog]

theorem tellLog_of_input (log : Option Log) (n : Nat) (es : List Event) :
    tellLog { s with input := input } log n es = tellLog s log n es := by
  simp only [tellLog]

theorem check_of_input (config : Option String) (disk : Disk) :
    check { s with input := input } config disk = check s config disk := by
  simp only [check, loadTables_of_input]

end

section Received

variable {s : Surroundings} {input : List Chunk}

theorem inputLines_of_received (h : receive s.input = receive input) :
    { s with input := input }.inputLines = s.inputLines := by
  simp only [Surroundings.inputLines, h]

theorem listFiles_of_received (h : receive s.input = receive input) (range repository : Option String) :
    listFiles { s with input := input } range repository = listFiles s range repository := by
  simp only [listFiles, Surroundings.changedFiles, inputLines_of_received h, Surroundings.directoryPath,
    Surroundings.afterCall]

theorem compute_of_received (h : receive s.input = receive input) (o : ComputeOptions) (disk : Disk) :
    compute { s with input := input } o disk = compute s o disk := by
  simp only [compute, computing, loadTables_of_input, openLog_of_input, tellLog_of_input, listFiles_of_received h]

theorem projects_of_received (h : receive s.input = receive input) (config : Option String) (files : List String)
    (disk : Disk) : projects { s with input := input } config files disk = projects s config files disk := by
  simp only [projects, loadTables_of_input, inputLines_of_received h]

theorem request_of_received (h : receive s.input = receive input) (disk : Disk) (r : Request) :
    request { s with input := input } disk r = request s disk r := by
  cases r with
  | compute o => exact compute_of_received h o disk
  | projects config files => exact projects_of_received h config files disk
  | check config => exact check_of_input s input config disk

theorem outcome_of_input (s : Surroundings) (input : List Chunk) (p : Progress) (debug : Bool) :
    p.outcome { s with input := input } debug = p.outcome s debug := by
  simp only [Progress.outcome, Surroundings.report]

/-- a run sees nothing of its input but the text that is received -/
theorem run_of_received (h : receive s.input = receive input) (disk : Disk) (words : List String) :
    run { s with input := input } disk words = run s disk words := by
  unfold run
  split
  · rfl
  · rfl
  · rw [request_of_received h, outcome_of_input]

end Received

/-- **Chunks are received as the text that they hold iff no boundary lies inside a character, and then
every run is the one on the text in one piece.** -/
theorem run_of_chunked_text {chunks : List (List UInt8)} {text : String} (h : chunks.flatten = encoded text.toList) :
    (receive (chunks.map .bytes) = text ↔ Unbroken chunks) ∧
    (Unbroken chunks → ∀ (s : Surroundings) (disk : Disk) (words : List String),
      run { s with input := chunks.map .bytes } disk words = run { s with input := [.text text] } disk words) := by
  have hreceive : receive (chunks.map .bytes) = text ↔ Unbroken chunks := by
    rw [← receive_eq_iff_unbroken h, String.ofList_toList]
  refine ⟨hreceive, fun hunbroken s disk words => ?_⟩
  have hwhole : receive [.text text] = text := by
    simp [receive, Chunk.decode]
  have hsame : receive { s with input := [.text text] }.input = receive (chunks.map .bytes) :=
    hwhole.trans (hreceive.mpr hunbroken).symm
  exact run_of_received hsame disk words

/-- the bytes of `é` in two chunks are not received as `é`; with the line feed in a chunk of its own they are -/
theorem run_of_chunked_accent :
    receive ([[0xC3], [0xA9]].map .bytes) ≠ "é" ∧ ¬ Unbroken [[0xC3], [0xA9]] ∧
    receive ([[0xC3, 0xA9], [0x0A]].map .bytes) = "é\n" := by
  have hbroken : receive ([[0xC3], [0xA9]].map .bytes) ≠ "é" := by decide
  have hunbroken : Unbroken [[0xC3, 0xA9], [0x0A]] := by
    simp only [Unbroken, List.forall_mem_cons]
    exact ⟨⟨['é'], by decide⟩, ⟨['\n'], by decide⟩, by simp⟩
  exact ⟨hbroken, fun h => hbroken ((run_of_chunked_text (by decide)).1.mpr h),
    (run_of_chunked_text (by decide)).1.mpr hunbroken⟩

end ChangeImpact.Run
