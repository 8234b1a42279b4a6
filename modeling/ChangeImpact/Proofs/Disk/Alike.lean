/-
What the texts of files do not decide.

Two disks are alike when the same files, folders and links stand at the same places, whatever is written in
the files. A path leads to the same place on both, or fails on both for the same reason, and making folders
and adding to files leaves them alike. So trouble with a log comes from where things stand, and neither from
what a file holds nor from what is written.

Results:
- `find_of_alike`, `target?_of_alike`: a path is followed to the same end, and an addition goes into the same file.
- `makeFolders_of_alike`, `append_of_alike`: both disks are changed, or neither and for one reason.
- `opened_of_alike`, `tellIfAny_of_alike`: the same for a log.
- `changedFiles_of_alike`: the changed files are the same.
-/
import ChangeImpact.Proofs.Disk.Appended
import ChangeImpact.Run.Surroundings

namespace ChangeImpact

/-- the same thing stands there, but for the text of a file -/
inductive Content.Alike : Content → Content → Prop
  | file (text other : String) : Alike (.file text) (.file other)
  | folder : Alike .folder .folder
  | link (target : String) : Alike (.link target) (.link target)

namespace Disk

/-- the same files, folders and links stand at the same places -/
def Alike (d other : Disk) : Prop :=
  ∀ place, Option.Rel Content.Alike (d.standing? place) (other.standing? place)

/-- both disks were changed and are alike, or both refused to be for one reason -/
inductive ChangedAlike : Except DiskError Disk → Except DiskError Disk → Prop
  | changed {d other : Disk} (h : d.Alike other) : ChangedAlike (.ok d) (.ok other)
  | refused (e : DiskError) : ChangedAlike (.error e) (.error e)

variable {d other : Disk}

theorem Alike.refl (d : Disk) : d.Alike d := by
  intro place
  cases d.standing? place with
  | none => exact .none
  | some c => cases c <;> exact .some (by constructor)

theorem Alike.symm (h : d.Alike other) : other.Alike d := by
  intro place
  have hstands := h place
  generalize d.standing? place = c at hstands ⊢
  generalize other.standing? place = c' at hstands ⊢
  cases hstands with
  | none => exact .none
  | some hkind => cases hkind <;> exact .some (by constructor)

/-! ## Following paths -/

theorem walk_of_alike (h : d.Alike other) (place : Location) (names : List String) :
    d.walk place names = other.walk place names := by
  induction names generalizing place with
  | nil => rfl
  | cons n names ih =>
    have hstands := h (place ++ [n])
    rw [walk, walk, ih place, ih place.dropLast, ih (place ++ [n])]
    generalize d.standing? (place ++ [n]) = c at hstands ⊢
    generalize other.standing? (place ++ [n]) = c' at hstands ⊢
    -- only the kind of what stands there decides
    cases hstands with
    | none => rfl
    | some hkind => cases hkind <;> rfl

theorem follow_of_alike (h : d.Alike other) (links : Nat) (place : Location) (names : List String) :
    d.follow links place names = other.follow links place names := by
  induction links generalizing place names with
  | zero => rw [follow, follow, walk_of_alike h]
  | succ links ih =>
    rw [follow, follow, walk_of_alike h]
    cases other.walk place names with
    | link folder target rest => exact ih _ _
    | _ => rfl

/-- a path leads to the same end on both disks -/
theorem find_of_alike (h : d.Alike other) (directory : Location) (path : String) :
    d.find directory path = other.find directory path :=
  follow_of_alike h 40 _ _

theorem look_of_alike (h : d.Alike other) (directory : Location) (path : String) :
    (∃ c c', c.Alike c' ∧ d.look directory path = .ok c ∧ other.look directory path = .ok c') ∨
      ∃ e, d.look directory path = .error e ∧ other.look directory path = .error e := by
  unfold look
  rw [find_of_alike h]
  cases other.find directory path with
  | «at» place =>
    have hstands := h place
    simp only
    generalize d.standing? place = c at hstands ⊢
    generalize other.standing? place = c' at hstands ⊢
    cases hstands with
    | none => exact .inr ⟨_, rfl, rfl⟩
    | some hkind => exact .inl ⟨_, _, hkind, rfl, rfl⟩
  | _ => exact .inr ⟨_, rfl, rfl⟩

theorem isSome_text?_of_alike (h : d.Alike other) (place : Location) :
    (d.text? place).isSome = (other.text? place).isSome := by
  have hstands := h place
  unfold text?
  generalize d.standing? place = c at hstands ⊢
  generalize other.standing? place = c' at hstands ⊢
  cases hstands with
  | none => rfl
  | some hkind => cases hkind <;> rfl

/-- an addition goes into the same file -/
theorem target?_of_alike (h : d.Alike other) (directory : Location) (path : String) :
    d.target? directory path = other.target? directory path := by
  unfold target?
  rw [find_of_alike h]
  cases other.find directory path with
  | «at» place => simp only [isSome_text?_of_alike h place]
  | missing folder name rest => cases rest <;> rfl
  | _ => rfl

/-! ## Changing the disk -/

theorem put_of_alike (h : d.Alike other) {place : Location} (hplace : place ≠ []) {c c' : Content} (hc : c.Alike c') :
    (d.put place c).Alike (other.put place c') := by
  intro p
  rw [standing?_put d place p c hplace, standing?_put other place p c' hplace]
  split
  · exact .some hc
  · exact h p

theorem makeFolders_of_alike (h : d.Alike other) (directory : Location) (path : String) :
    ChangedAlike (d.makeFolders directory path) (other.makeFolders directory path) := by
  unfold makeFolders
  generalize (Path.names path).length + 1 = missing
  induction missing generalizing d other with
  | zero => exact .changed h
  | succ missing ih =>
    rw [makeFolders.make, makeFolders.make, find_of_alike h]
    cases other.find directory path with
    | «at» place =>
      have hstands := h place
      simp only
      generalize d.standing? place = c at hstands ⊢
      generalize other.standing? place = c' at hstands ⊢
      cases hstands with
      | none => exact .refused _
      | some hkind =>
        cases hkind with
        | folder => exact .changed h
        | _ => exact .refused _
    | missing folder name rest => exact ih (put_of_alike h (by simp) .folder)
    | _ => exact .refused _

/-- whatever is added to the file -/
theorem append_of_alike (h : d.Alike other) (directory : Location) (path added added' : String) :
    ChangedAlike (d.append directory path added) (other.append directory path added') := by
  unfold append
  rw [find_of_alike h]
  cases other.find directory path with
  | «at» place =>
    have hstands := h place
    by_cases hroot : place = []
    · subst hroot
      exact .refused _
    · simp only [text?]
      generalize d.standing? place = c at hstands ⊢
      generalize other.standing? place = c' at hstands ⊢
      cases hstands with
      | none => exact .refused _
      | some hkind =>
        cases hkind with
        | file text text' => exact .changed (put_of_alike h hroot (.file _ _))
        | _ => exact .refused _
  | missing folder name rest =>
    cases rest with
    | nil => exact .changed (put_of_alike h (by simp) (.file _ _))
    | cons next rest => exact .refused _
  | _ => exact .refused _

end Disk

/-! ## The log -/

namespace Log

open Disk

variable {d other : Disk}

/-- as many events are told on both disks, and the disks are left alike -/
theorem tell_of_alike (log : Log) (directory : Location) (clock : Nat → Instant) (n : Nat) {es es' : List Event}
    (hlength : es.length = es'.length) (h : d.Alike other) :
    (log.tell directory clock n es d).1.Alike (log.tell directory clock n es' other).1 ∧
      (log.tell directory clock n es d).2 = (log.tell directory clock n es' other).2 := by
  induction es generalizing n es' d other with
  | nil =>
    obtain rfl : es' = [] := List.eq_nil_of_length_eq_zero hlength.symm
    exact ⟨h, rfl⟩
  | cons e es ih =>
    cases es' with
    | nil => simp at hlength
    | cons e' es' =>
      have hwrite : ChangedAlike (log.write directory (clock n) e d) (log.write directory (clock n) e' other) :=
        append_of_alike h directory log.path _ _
      rw [tell, tell]
      generalize log.write directory (clock n) e d = r at hwrite ⊢
      generalize log.write directory (clock n) e' other = r' at hwrite ⊢
      cases hwrite with
      | changed halike => exact ih (n + 1) (Nat.succ.inj hlength) halike
      | refused trouble => exact ⟨h, rfl⟩

theorem tellIfAny_of_alike (log : Option Log) (directory : Location) (clock : Nat → Instant) (n : Nat)
    {es es' : List Event} (hlength : es.length = es'.length) (h : d.Alike other) {last : Disk} {trouble : Option DiskError}
    (htold : tellIfAny log directory clock n es d = (last, trouble)) :
    ∃ last', last.Alike last' ∧ tellIfAny log directory clock n es' other = (last', trouble) := by
  cases log with
  | none =>
    obtain ⟨rfl, rfl⟩ := Prod.mk.inj htold
    exact ⟨other, h, rfl⟩
  | some log =>
    obtain ⟨halike, htrouble⟩ := log.tell_of_alike directory clock n hlength h
    have htold : log.tell directory clock n es d = (last, trouble) := htold
    rw [htold] at halike htrouble
    exact ⟨_, halike, Prod.ext rfl htrouble.symm⟩

theorem opened_of_alike {path : Option String} {context : List (String × Value)} {directory : Location} {made : Disk}
    {log : Option Log} (h : d.Alike other) (hopened : opened path context directory d = .ok (log, made)) :
    ∃ made', made.Alike made' ∧ opened path context directory other = .ok (log, made') := by
  rcases opened_cases hopened with ⟨hpath, rfl, rfl⟩ | ⟨p, hpath, rfl, hmade⟩
  · refine ⟨other, h, ?_⟩
    rw [opened, hpath]
  · have hfolders := makeFolders_of_alike h directory (Path.parent p)
    rw [hmade] at hfolders
    generalize hmade' : other.makeFolders directory (Path.parent p) = r at hfolders
    cases hfolders with
    | @changed _ made' halike =>
      refine ⟨made', halike, ?_⟩
      have hprepare : prepare ⟨p, context⟩ other directory = .ok made' := hmade'
      rw [opened, hpath]
      simp only [hprepare, Except.map]

end Log

/-! ## The changed files -/

theorem Git.obstacle?_of_alike {d other : Disk} (h : d.Alike other) (directory range : String) :
    obstacle? d directory range = obstacle? other directory range := by
  unfold obstacle?
  rcases Disk.look_of_alike h [] directory with ⟨c, c', hkind, hc, hc'⟩ | ⟨e, he, he'⟩
  · rw [hc, hc']
    cases hkind <;> rfl
  · rw [he, he']

theorem Surroundings.changedFiles_of_alike (s : Surroundings) {d other : Disk} (h : d.Alike other)
    (range repository : Option String) : s.changedFiles d range repository = s.changedFiles other range repository := by
  unfold Surroundings.changedFiles Git.changedFiles
  simp only [Git.obstacle?_of_alike h]

end ChangeImpact
