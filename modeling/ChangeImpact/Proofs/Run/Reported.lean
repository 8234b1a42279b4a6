/-
What `--debug` adds to a run.

Two runs of one request of which one reports in detail do the same and print the same until something fails. Whatever ends a
run has a report, short and in detail (`reports_of_fails`), and what detail adds to a report is added at its end. So the error
output of the run in detail is that of the other one with more behind it.

Results:
- `run_debug`: a run in detail and the same run otherwise.
-/
import ChangeImpact.Proofs.Run.AllOrNothing

namespace ChangeImpact.Run

variable {s : Surroundings} {disk : Disk}

/-- **More detail is more text at the end.** Two runs of one request, one of them in detail, end in the same way: they print the
same output, exit alike, leave the same disk and have made the same call. If the request is answered then there is no difference
at all. If it fails then the failure has a report, short and in detail, both runs end with theirs, and the one in detail is the
other one with more behind it. -/
theorem run_debug {words others : List String} {r : Request} (h : parse words = .ok (.request false r))
    (hothers : parse others = .ok (.request true r)) :
    let short := run s disk words
    let long := run s disk others
    long.stdout = short.stdout ∧ long.exit = short.exit ∧ long.disk = short.disk ∧ long.call = short.call ∧
    (short.exit = 0 ∧ long.stderr = short.stderr ∨
      short.exit = 1 ∧ ∃ f text more, Fails s disk r f ∧
        (f.traced (s.stack f)).shown .short (colourEnabled s.terminal none) = .ok text ∧
        (f.traced (s.stack f)).shown .debug (colourEnabled s.terminal none) = .ok (text ++ more) ∧
        short.stderr = preface s r ++ text ++ "\n" ∧ long.stderr = preface s r ++ text ++ more ++ "\n") := by
  intro short long
  obtain ⟨p, hp, hsettles⟩ : ∃ p, request s disk r = p ∧ Settles s disk r p := ⟨_, rfl, settles_request s disk r⟩
  have hshort : short = p.outcome s false := by rw [← hp]; exact run_of_request h
  have hlong : long = p.outcome s true := by rw [← hp]; exact run_of_request hothers
  have hend : long.stdout = short.stdout ∧ long.exit = short.exit ∧ long.disk = short.disk ∧ long.call = short.call := by
    simp only [hshort, hlong, Progress.stdout_outcome, Progress.exit_outcome, Progress.disk_outcome, Progress.call_outcome,
      and_self]
  obtain ⟨hstdout, hexit, hdisk, hcall⟩ := hend
  refine ⟨hstdout, hexit, hdisk, hcall, ?_⟩
  have hcode : short.exit = if p.failure.isNone then 0 else 1 := by rw [hshort, Progress.exit_outcome]
  have hfirst := stderr_of_settles hsettles false
  have hsecond := stderr_of_settles hsettles true
  rw [← hshort] at hfirst
  rw [← hlong] at hsecond
  obtain ⟨hnone, hquiet⟩ | ⟨f, hf, hfails, hreported⟩ := hfirst
  · obtain ⟨-, hquiet'⟩ | ⟨f, hf, -⟩ := hsecond
    · exact .inl ⟨by rw [hcode, hnone]; rfl, hquiet'.trans hquiet.symm⟩
    · rw [hnone] at hf
      contradiction
  · obtain ⟨hnone, -⟩ | ⟨f', hf', -, hdetailed⟩ := hsecond
    · rw [hnone] at hf
      contradiction
    · obtain rfl : f = f' := Option.some.inj (hf.symm.trans hf')
      let colour := colourEnabled s.terminal none
      let traced := f.traced (s.stack f)
      let text := traced.render .short colour
      let more := Failure.following colour (⟨.code, traced.report.code⟩ :: traced.sourceLines traced.report)
      have hmore : traced.render .debug colour = text ++ more := traced.render_debug colour
      have hlong' : s.report true f = text ++ more ++ "\n" := congrArg (· ++ "\n") hmore
      refine .inr ⟨by rw [hcode, hf]; rfl, f, text, more, hfails, (reports_of_fails hfails _ .short colour).made, ?_, ?_, ?_⟩
      · rw [← hmore]
        exact (reports_of_fails hfails _ .debug colour).made
      · rw [hreported, String.append_assoc]
        rfl
      · rw [hdetailed, hlong']
        simp only [String.append_assoc]

end ChangeImpact.Run
