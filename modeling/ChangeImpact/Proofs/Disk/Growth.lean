/-
What a run does to a disk only makes it grow.

`Grows` is the relation between a disk and what it becomes: folders and links stay as they are, and
files are only ever added to at their end. Making folders, adding to a file and everything that the
log does keep it (`makeFolders_grows`, `append_grows`, `opened_grows`, `tellIfAny_grows`). A walk
depends only on what stands, so a path that led somewhere still leads there on the grown disk.

Results:
- `find_of_grows`: a path that does not end at a missing name is followed to the same end.
- `look_folder_of_grows`: a folder is found again.
-/
import ChangeImpact.Run.Log

namespace ChangeImpact

namespace Disk

/-- the second disk is the first one with something added -/
structure Grows (d d' : Disk) : Prop where
  folders : ∀ p, d.standing? p = some .folder → d'.standing? p = some .folder
  links : ∀ p target, d.standing? p = some (.link target) → d'.standing? p = some (.link target)
  files : ∀ p text, d.standing? p = some (.file text) → ∃ added, d'.standing? p = some (.file (text ++ added))

theorem Grows.refl (d : Disk) : Grows d d :=
  ⟨fun _ h => h, fun _ _ h => h, fun _ text h => ⟨"", by rw [h, String.append_empty]⟩⟩

theorem Grows.trans {d d' d'' : Disk} (h : Grows d d') (h' : Grows d' d'') : Grows d d'' := by
  refine ⟨fun p hp => h'.folders p (h.folders p hp), fun p t hp => h'.links p t (h.links p t hp), ?_⟩
  intro p text hp
  obtain ⟨added, hadded⟩ := h.files p text hp
  obtain ⟨more, hmore⟩ := h'.files p _ hadded
  exact ⟨added ++ more, by rw [hmore, String.append_assoc]⟩

/-! ## Putting something at a place -/

/-- what is put at a place may only be a longer text than the one that stood there -/
theorem grows_put {d : Disk} {place : Location} {e : Content} (h : place ≠ [])
    (hstood : ∀ c, d.standing? place = some c → ∃ text added, c = .file text ∧ e = .file (text ++ added)) :
    Grows d (d.put place e) := by
  have hput := fun p => standing?_put d place p e h
  refine ⟨fun p hp => ?_, fun p target hp => ?_, fun p text hp => ?_⟩
  · rw [hput]
    split
    · next hplace =>
      obtain ⟨_, _, hc, -⟩ := hstood _ (hplace ▸ hp)
      contradiction
    · exact hp
  · rw [hput]
    split
    · next hplace =>
      obtain ⟨_, _, hc, -⟩ := hstood _ (hplace ▸ hp)
      contradiction
    · exact hp
  · rw [hput]
    split
    · next hplace =>
      obtain ⟨old, added, hc, rfl⟩ := hstood _ (hplace ▸ hp)
      obtain rfl : text = old := Content.file.inj hc
      exact ⟨added, rfl⟩
    · exact ⟨"", by rw [hp, String.append_empty]⟩

theorem ne_root_of_standing {d : Disk} {place : Location} (h : d.standing? place ≠ some .folder) : place ≠ [] := by
  intro hroot
  rw [hroot] at h
  exact h rfl

theorem grows_put_missing {d : Disk} {place : Location} (h : d.standing? place = none) (e : Content) :
    Grows d (d.put place e) := by
  refine grows_put (ne_root_of_standing (d := d) (by simp [h])) fun c hc => ?_
  rw [h] at hc
  contradiction

theorem standing?_of_text? {d : Disk} {place : Location} {text : String} (h : d.text? place = some text) :
    d.standing? place = some (.file text) := by
  unfold text? at h
  split at h
  · next t ht =>
    obtain rfl : t = text := Option.some.inj h
    exact ht
  · contradiction

theorem grows_put_append {d : Disk} {place : Location} {text : String} (h : d.text? place = some text) (added : String) :
    Grows d (d.put place (.file (text ++ added))) := by
  have hfile := standing?_of_text? h
  refine grows_put (ne_root_of_standing (d := d) (by simp [hfile])) fun c hc => ?_
  rw [hfile] at hc
  exact ⟨text, added, (Option.some.inj hc).symm, rfl⟩

/-! ## Following paths -/

/-- where a walk ends at a missing name, nothing stands -/
theorem standing?_of_walk_missing {d : Disk} {place folder : Location} {name : String} {names rest : List String}
    (h : d.walk place names = .missing folder name rest) : d.standing? (folder ++ [name]) = none := by
  induction names generalizing place with
  | nil => simp [walk] at h
  | cons n names ih =>
    unfold walk at h
    split at h
    · exact ih h
    split at h
    · exact ih h
    split at h
    · contradiction
    split at h
    · next hnone =>
      obtain ⟨rfl, rfl, rfl⟩ := Walk.missing.inj h
      exact hnone
    · exact ih h
    · split at h <;> contradiction
    · contradiction

theorem standing?_of_follow_missing {d : Disk} {links : Nat} {place folder : Location} {name : String}
    {names rest : List String} (h : d.follow links place names = .missing folder name rest) :
    d.standing? (folder ++ [name]) = none := by
  induction links generalizing place names with
  | zero =>
    unfold follow at h
    split at h
    · contradiction
    · exact standing?_of_walk_missing h
  | succ links ih =>
    unfold follow at h
    split at h
    · exact ih h
    · exact standing?_of_walk_missing h

theorem walk_of_grows {d d' : Disk} (h : Grows d d') (place : Location) (names : List String)
    (hfound : ∀ folder name rest, d.walk place names ≠ .missing folder name rest) :
    d'.walk place names = d.walk place names := by
  induction names generalizing place with
  | nil => rfl
  | cons n names ih =>
    by_cases hdot : n = "" ∨ n = "."
    · have hstep : ∀ e : Disk, e.walk place (n :: names) = e.walk place names := fun e => by rw [walk, if_pos hdot]
      rw [hstep] at hfound
      rw [hstep, hstep, ih _ hfound]
    by_cases hup : n = ".."
    · have hstep : ∀ e : Disk, e.walk place (n :: names) = e.walk place.dropLast names :=
        fun e => by rw [walk, if_neg hdot, if_pos hup]
      rw [hstep] at hfound
      rw [hstep, hstep, ih _ hfound]
    by_cases hlong : 255 < n.utf8ByteSize
    · rw [walk, walk, if_neg hdot, if_neg hup, if_pos hlong, if_neg hdot, if_neg hup, if_pos hlong]
    -- what stands at the name decides, and of that only its kind
    rw [walk, if_neg hdot, if_neg hup, if_neg hlong] at hfound ⊢
    rw [walk, if_neg hdot, if_neg hup, if_neg hlong]
    cases hs : d.standing? (place ++ [n]) with
    | none =>
      rw [hs] at hfound
      exact absurd rfl (hfound place n names)
    | some c =>
      rw [hs] at hfound
      cases c with
      | folder =>
        rw [h.folders _ hs]
        exact ih _ hfound
      | link target => rw [h.links _ target hs]
      | file text =>
        obtain ⟨added, hadded⟩ := h.files _ text hs
        rw [hadded]

theorem follow_link {d : Disk} {place folder : Location} {names rest : List String} {target : String}
    (h : d.walk place names = .link folder target rest) (links : Nat) :
    d.follow (links + 1) place names =
      d.follow links (if Path.startsAtRoot target then [] else folder) (Path.names target ++ rest) := by
  rw [follow, h]

theorem follow_of_grows {d d' : Disk} (h : Grows d d') (links : Nat) (place : Location) (names : List String)
    (hfound : ∀ folder name rest, d.follow links place names ≠ .missing folder name rest) :
    d'.follow links place names = d.follow links place names := by
  induction links generalizing place names with
  | zero =>
    cases hw : d.walk place names with
    | missing folder name rest => exact absurd (by simp only [follow, hw]) (hfound folder name rest)
    | _ =>
      have hw' := walk_of_grows h place names (by simp [hw])
      simp only [follow, hw', hw]
  | succ links ih =>
    cases hw : d.walk place names with
    | missing folder name rest => exact absurd (by simp only [follow, hw]) (hfound folder name rest)
    | link folder target rest =>
      have hw' : d'.walk place names = _ := (walk_of_grows h place names (by simp [hw])).trans hw
      rw [follow_link hw] at hfound
      rw [follow_link hw', follow_link hw, ih _ _ hfound]
    | _ =>
      have hw' := walk_of_grows h place names (by simp [hw])
      simp only [follow, hw', hw]

/-- **A path that does not end at a missing name leads to the same end on a disk that has grown.** -/
theorem find_of_grows {d d' : Disk} (h : Grows d d') (directory : Location) (path : String)
    (hfound : ∀ folder name rest, d.find directory path ≠ .missing folder name rest) :
    d'.find directory path = d.find directory path :=
  follow_of_grows h 40 _ _ hfound

/-- **A folder is found again on a disk that has grown.** -/
theorem look_folder_of_grows {d d' : Disk} (h : Grows d d') {directory : Location} {path : String}
    (hfolder : d.look directory path = .ok .folder) : d'.look directory path = .ok .folder := by
  cases hfind : d.find directory path with
  | «at» place =>
    have hfind' : d'.find directory path = .at place := by
      rw [find_of_grows h directory path (by simp [hfind]), hfind]
    have hstands : d.standing? place = some .folder := by
      simp only [look, hfind] at hfolder
      split at hfolder
      · next e he =>
        obtain rfl : e = .folder := Except.ok.inj hfolder
        exact he
      · contradiction
    simp only [look, hfind', h.folders place hstands]
  | link folder target rest => simp [look, hfind] at hfolder
  | missing folder name rest => simp [look, hfind] at hfolder
  | stuck trouble => simp [look, hfind] at hfolder

/-! ## Making folders and adding to files -/

theorem make_grows (directory : Location) (path : String) {n : Nat} {d d' : Disk}
    (h : makeFolders.make directory path n d = .ok d') : Grows d d' := by
  induction n generalizing d with
  | zero =>
    obtain rfl : d = d' := Except.ok.inj h
    exact Grows.refl d
  | succ n ih =>
    unfold makeFolders.make at h
    split at h
    · split at h
      · obtain rfl : d = d' := Except.ok.inj h
        exact Grows.refl d
      · contradiction
    · next folder name rest hfind =>
      have hput := grows_put_missing (standing?_of_follow_missing hfind) .folder
      exact hput.trans (ih h)
    · contradiction
    · contradiction

theorem makeFolders_grows {d d' : Disk} {directory : Location} {path : String}
    (h : d.makeFolders directory path = .ok d') : Grows d d' :=
  make_grows directory path h

theorem append_grows {d d' : Disk} {directory : Location} {path added : String}
    (h : d.append directory path added = .ok d') : Grows d d' := by
  unfold append at h
  split at h
  · split at h
    · next place hfind text htext =>
      obtain rfl := Except.ok.inj h
      exact grows_put_append htext added
    · contradiction
  · next folder name hfind =>
    obtain rfl := Except.ok.inj h
    exact grows_put_missing (standing?_of_follow_missing hfind) _
  · contradiction
  · contradiction
  · contradiction

end Disk

/-! ## The log -/

namespace Log

open Disk

/-- a log that was opened has a path, and the folders above it were made; or there is none -/
theorem opened_cases {path : Option String} {context : List (String × Value)} {directory : Location} {d d' : Disk}
    {log : Option Log} (h : opened path context directory d = .ok (log, d')) :
    (path.bind Text.present? = none ∧ log = none ∧ d' = d) ∨
    ∃ p, path.bind Text.present? = some p ∧ log = some ⟨p, context⟩ ∧
      d.makeFolders directory (Path.parent p) = .ok d' := by
  unfold opened at h
  split at h
  · next hpath =>
    obtain ⟨rfl, rfl⟩ := Prod.mk.inj (Except.ok.inj h)
    exact .inl ⟨hpath, rfl, rfl⟩
  · next p hpath =>
    cases hprepare : prepare ⟨p, context⟩ d directory with
    | error trouble =>
      simp only [hprepare, Except.map] at h
      contradiction
    | ok made =>
      simp only [hprepare, Except.map, Except.ok.injEq, Prod.mk.injEq] at h
      obtain ⟨rfl, rfl⟩ := h
      exact .inr ⟨p, hpath, rfl, hprepare⟩

theorem opened_grows {path : Option String} {context : List (String × Value)} {directory : Location} {d d' : Disk}
    {log : Option Log} (h : opened path context directory d = .ok (log, d')) : Grows d d' := by
  rcases opened_cases h with ⟨-, -, rfl⟩ | ⟨p, -, -, hmade⟩
  · exact Grows.refl d'
  · exact makeFolders_grows hmade

theorem tell_grows (log : Log) (directory : Location) (clock : Nat → Instant) (n : Nat) (es : List Event) (d : Disk) :
    Grows d (log.tell directory clock n es d).1 := by
  induction es generalizing n d with
  | nil => exact Grows.refl d
  | cons e es ih =>
    unfold tell
    split
    · next d' hwrite => exact (append_grows hwrite).trans (ih (n + 1) d')
    · exact Grows.refl d

theorem tellIfAny_grows (log : Option Log) (directory : Location) (clock : Nat → Instant) (n : Nat) (es : List Event)
    (d : Disk) : Grows d (tellIfAny log directory clock n es d).1 := by
  cases log with
  | none => exact Grows.refl d
  | some log => exact tell_grows log directory clock n es d

theorem grows_of_told {log : Option Log} {directory : Location} {clock : Nat → Instant} {n : Nat} {es : List Event}
    {d last : Disk} {trouble : Option DiskError} (h : tellIfAny log directory clock n es d = (last, trouble)) :
    Grows d last := by
  have hgrows := tellIfAny_grows log directory clock n es d
  rw [h] at hgrows
  exact hgrows

end Log

end ChangeImpact
