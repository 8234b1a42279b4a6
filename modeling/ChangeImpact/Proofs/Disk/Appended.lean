/-
Adding to the end of one file.

`target?` is the place of the file that an addition at a path goes into: the file that the path leads to,
or a new one when only its last name is missing. An addition changes the text at that place and at no
other (`Added`), and the path leads to the place again, so further additions go into the same file. Making
folders changes no text at all.

Results:
- `append_of_target`, `append_of_no_target`: an addition succeeds iff its path has a target.
- `target?_append`: the target stays.
- `text?_makeFolders`: folders are made without touching a file.
- `Log.tell_of_target`, `Log.tell_of_no_target`: what telling a log of events does to the disk.
- `Log.isNone_tellIfAny`: where its path leads decides whether a log can be told.
- `Log.text?_tell`: no other file is changed by it.
-/
import ChangeImpact.Proofs.Disk.Growth

namespace ChangeImpact

namespace Disk

/-- the place of the file that text is added to at a path: a file that is there, or a new one in a folder that is -/
def target? (d : Disk) (directory : Location) (path : String) : Option Location :=
  match d.find directory path with
  | .at place => if (d.text? place).isSome then some place else none
  | .missing folder name [] => some (folder ++ [name])
  | _ => none

/-- the text at one place has been added to, a file that was not there counting as empty, and no other text has changed -/
structure Added (d d' : Disk) (place : Location) (added : String) : Prop where
  there : d'.text? place = some ((d.text? place).getD "" ++ added)
  others : ∀ other, other ≠ place → d'.text? other = d.text? other

theorem Added.trans {d d' d'' : Disk} {place : Location} {added more : String} (h : Added d d' place added)
    (h' : Added d' d'' place more) : Added d d'' place (added ++ more) := by
  refine ⟨?_, fun other ho => (h'.others other ho).trans (h.others other ho)⟩
  rw [h'.there, h.there, Option.getD_some, String.append_assoc]

/-- what has the same texts can take the place of the disk before -/
theorem Added.of_text? {d made d' : Disk} {place : Location} {added : String} (h : Added made d' place added)
    (hsame : ∀ other, made.text? other = d.text? other) : Added d d' place added :=
  ⟨hsame place ▸ h.there, fun other ho => (h.others other ho).trans (hsame other)⟩

/-! ## Texts -/

theorem text?_put_file (d : Disk) {place : Location} (h : place ≠ []) (text : String) (other : Location) :
    (d.put place (.file text)).text? other = if other = place then some text else d.text? other := by
  have hput := standing?_put d place other (.file text) h
  by_cases ho : other = place
  · rw [if_pos ho] at hput ⊢
    simp only [text?, hput]
  · rw [if_neg ho] at hput ⊢
    simp only [text?, hput]

theorem text?_of_standing_none {d : Disk} {place : Location} (h : d.standing? place = none) : d.text? place = none := by
  simp only [text?, h]

theorem text?_put_folder {d : Disk} {place : Location} (h : d.standing? place = none) (other : Location) :
    (d.put place .folder).text? other = d.text? other := by
  have hput := standing?_put d place other .folder (ne_root_of_standing (d := d) (by simp [h]))
  by_cases ho : other = place
  · rw [if_pos ho] at hput
    rw [ho] at hput ⊢
    simp only [text?, hput, h]
  · rw [if_neg ho] at hput
    simp only [text?, hput]

theorem text?_make (directory : Location) (path : String) {n : Nat} {d d' : Disk}
    (h : makeFolders.make directory path n d = .ok d') (place : Location) : d'.text? place = d.text? place := by
  induction n generalizing d with
  | zero =>
    obtain rfl : d = d' := Except.ok.inj h
    rfl
  | succ n ih =>
    unfold makeFolders.make at h
    split at h
    · split at h
      · obtain rfl : d = d' := Except.ok.inj h
        rfl
      · contradiction
    · next folder name rest hfind =>
      rw [ih h, text?_put_folder (standing?_of_follow_missing hfind)]
    · contradiction
    · contradiction

/-- making folders touches no file -/
theorem text?_makeFolders {d d' : Disk} {directory : Location} {path : String} (h : d.makeFolders directory path = .ok d')
    (place : Location) : d'.text? place = d.text? place :=
  text?_make directory path h place

/-! ## Following a path to a new file -/

theorem walk_put_missing {d : Disk} {place folder : Location} {name : String} {names : List String}
    (h : d.walk place names = .missing folder name []) (text : String) :
    (d.put (folder ++ [name]) (.file text)).walk place names = .at (folder ++ [name]) := by
  have hgrows := grows_put_missing (standing?_of_walk_missing h) (.file text)
  have hput := standing?_put d (folder ++ [name]) (folder ++ [name]) (.file text) (by simp)
  rw [if_pos rfl] at hput
  induction names generalizing place with
  | nil => simp [walk] at h
  | cons n names ih =>
    unfold walk at h ⊢
    split at h
    · next hdot => rw [if_pos hdot, ih h]
    next hdot =>
    rw [if_neg hdot]
    split at h
    · next hup => rw [if_pos hup, ih h]
    next hup =>
    rw [if_neg hup]
    split at h
    · contradiction
    next hlong =>
    rw [if_neg hlong]
    split at h
    · obtain ⟨rfl, rfl, rfl⟩ := Walk.missing.inj h
      rw [hput]
      rfl
    · next hfolder =>
      rw [hgrows.folders _ hfolder]
      exact ih h
    · split at h <;> contradiction
    · contradiction

theorem follow_put_missing {d : Disk} {links : Nat} {place folder : Location} {name : String} {names : List String}
    (h : d.follow links place names = .missing folder name []) (text : String) :
    (d.put (folder ++ [name]) (.file text)).follow links place names = .at (folder ++ [name]) := by
  have hgrows := grows_put_missing (standing?_of_follow_missing h) (.file text)
  induction links generalizing place names with
  | zero =>
    unfold follow at h
    split at h
    · contradiction
    · have hwalk := walk_put_missing h text
      simp only [follow, hwalk]
  | succ links ih =>
    cases hw : d.walk place names with
    | link from' target rest =>
      have hw' := (walk_of_grows hgrows place names (by simp [hw])).trans hw
      rw [follow_link hw] at h
      rw [follow_link hw', ih h]
    | _ =>
      have hwalk : d.walk place names = .missing folder name [] := by
        simp only [follow, hw] at h
        rw [hw, h]
      simp only [follow, walk_put_missing hwalk text]

/-! ## Adding -/

theorem target?_ne_root {d : Disk} {directory place : Location} {path : String} (h : d.target? directory path = some place) :
    place ≠ [] := by
  unfold target? at h
  split at h
  · split at h
    · next htext =>
      obtain rfl := Option.some.inj h
      obtain ⟨text, htext⟩ := Option.isSome_iff_exists.mp htext
      exact ne_root_of_standing (d := d) (by simp [standing?_of_text? htext])
    · contradiction
  · obtain rfl := Option.some.inj h
    simp
  · contradiction

/-- an addition at a path with a target changes the text there -/
theorem append_of_target {d : Disk} {directory place : Location} {path : String}
    (h : d.target? directory path = some place) (added : String) :
    d.append directory path added = .ok (d.put place (.file ((d.text? place).getD "" ++ added))) := by
  unfold target? at h
  split at h
  · next found hfind =>
    split at h
    · next htext =>
      obtain rfl : found = place := Option.some.inj h
      obtain ⟨text, htext⟩ := Option.isSome_iff_exists.mp htext
      simp only [append, hfind, htext, Option.getD_some]
    · contradiction
  · next folder name hfind =>
    obtain rfl : folder ++ [name] = place := Option.some.inj h
    have hnone := text?_of_standing_none (standing?_of_follow_missing hfind)
    simp only [append, hfind, hnone, Option.getD_none, String.empty_append]
  · contradiction

theorem append_of_no_target {d : Disk} {directory : Location} {path : String} (h : d.target? directory path = none)
    (added : String) : ∃ e, d.append directory path added = .error e := by
  unfold target? at h
  split at h
  · next place hfind =>
    split at h
    · contradiction
    · next htext =>
      rw [Option.not_isSome_iff_eq_none] at htext
      simp only [append, hfind, htext]
      exact ⟨_, rfl⟩
  · contradiction
  · next hplace hmissing =>
    unfold append
    split
    · next place hfind => exact absurd hfind (hplace place)
    · next folder name hfind => exact absurd hfind (hmissing folder name)
    all_goals exact ⟨_, rfl⟩

/-- the path leads to its target again after an addition -/
theorem target?_append {d : Disk} {directory place : Location} {path : String} (h : d.target? directory path = some place)
    (added : String) :
    (d.put place (.file ((d.text? place).getD "" ++ added))).target? directory path = some place := by
  have hroot := target?_ne_root h
  have htext := text?_put_file d hroot ((d.text? place).getD "" ++ added) place
  rw [if_pos rfl] at htext
  unfold target? at h
  split at h
  · next found hfind =>
    split at h
    · next hsome =>
      obtain rfl : found = place := Option.some.inj h
      obtain ⟨text, hold⟩ := Option.isSome_iff_exists.mp hsome
      have hgrows := grows_put_append hold added
      rw [hold, Option.getD_some] at htext ⊢
      have hfind' := (find_of_grows hgrows directory path (by simp [hfind])).trans hfind
      simp only [target?, hfind', htext, Option.isSome_some, if_true]
    · contradiction
  · next folder name hfind =>
    obtain rfl : folder ++ [name] = place := Option.some.inj h
    have hfind' := follow_put_missing hfind ((d.text? (folder ++ [name])).getD "" ++ added)
    simp only [target?, find, hfind', htext, Option.isSome_some, if_true]
  · contradiction

theorem added_put {d : Disk} {place : Location} (h : place ≠ []) (added : String) :
    Added d (d.put place (.file ((d.text? place).getD "" ++ added))) place added := by
  refine ⟨?_, fun other ho => ?_⟩
  · rw [text?_put_file d h, if_pos rfl]
  · rw [text?_put_file d h, if_neg ho]

end Disk

/-! ## Telling a log -/

namespace Log

open Disk

/-- the lines of some events, of which the first is number `n` of the run -/
def linesFrom (context : List (String × Value)) (clock : Nat → Instant) : Nat → List Event → String
  | _, [] => ""
  | n, e :: es => e.line context (clock n) ++ linesFrom context clock (n + 1) es

theorem write_of_target {log : Log} {directory place : Location} {d : Disk} (h : d.target? directory log.path = some place)
    (time : Instant) (e : Event) :
    ∃ d', log.write directory time e d = .ok d' ∧ d'.target? directory log.path = some place ∧
      Added d d' place (e.line log.context time) :=
  ⟨_, append_of_target h _, target?_append h _, added_put (target?_ne_root h) _⟩

/-- a log whose path has a target is told of every event, in the target and nowhere else -/
theorem tell_of_target (log : Log) {directory place : Location} {d : Disk} (h : d.target? directory log.path = some place)
    (clock : Nat → Instant) (n : Nat) (e : Event) (es : List Event) :
    ∃ d', log.tell directory clock n (e :: es) d = (d', none) ∧ d'.target? directory log.path = some place ∧
      Added d d' place (linesFrom log.context clock n (e :: es)) := by
  induction es generalizing n e d with
  | nil =>
    obtain ⟨d', hwrite, htarget, hadded⟩ := write_of_target h (clock n) e
    refine ⟨d', ?_, htarget, ?_⟩
    · rw [tell, hwrite]
      rfl
    · rw [linesFrom, linesFrom, String.append_empty]
      exact hadded
  | cons f es ih =>
    obtain ⟨written, hwrite, htarget, hadded⟩ := write_of_target h (clock n) e
    obtain ⟨d', htell, hstays, hmore⟩ := ih htarget (n + 1) f
    refine ⟨d', ?_, hstays, ?_⟩
    · rw [tell, hwrite]
      exact htell
    · rw [linesFrom]
      exact hadded.trans hmore

/-- a log whose path has no target is told nothing -/
theorem tell_of_no_target {log : Log} {directory : Location} {d : Disk} (h : d.target? directory log.path = none)
    (clock : Nat → Instant) (n : Nat) (e : Event) (es : List Event) :
    ∃ trouble, log.tell directory clock n (e :: es) d = (d, some trouble) := by
  obtain ⟨trouble, hwrite⟩ := append_of_no_target h (e.line log.context (clock n))
  refine ⟨trouble, ?_⟩
  have hwrite' : log.write directory (clock n) e d = .error trouble := hwrite
  rw [tell, hwrite']

/-- where its path leads decides whether a log can be told of events, whatever the events are -/
theorem isNone_tellIfAny {log : Option Log} {directory : Location} {d d' : Disk}
    (h : ∀ l, log = some l → d.target? directory l.path = d'.target? directory l.path) (clock : Nat → Instant) (n : Nat)
    {es es' : List Event} (hlength : es.length = es'.length) :
    (tellIfAny log directory clock n es d).2.isNone = (tellIfAny log directory clock n es' d').2.isNone := by
  cases log with
  | none => rfl
  | some l =>
    cases es with
    | nil =>
      obtain rfl : es' = [] := List.eq_nil_of_length_eq_zero hlength.symm
      rfl
    | cons e es =>
      obtain ⟨e', es', rfl⟩ := List.exists_cons_of_length_eq_add_one hlength.symm
      have hsame := h l rfl
      rw [tellIfAny, tellIfAny]
      cases ht : d.target? directory l.path with
      | none =>
        obtain ⟨_, htell⟩ := tell_of_no_target ht clock n e es
        obtain ⟨_, htell'⟩ := tell_of_no_target (hsame.symm.trans ht) clock n e' es'
        rw [htell, htell']
        rfl
      | some place =>
        obtain ⟨_, htell, -⟩ := tell_of_target l ht clock n e es
        obtain ⟨_, htell', -⟩ := tell_of_target l (hsame.symm.trans ht) clock n e' es'
        rw [htell, htell']

/-- the path of a log leads to the same file before and after the log is told of events -/
theorem target?_tell (log : Log) (directory : Location) (clock : Nat → Instant) (n : Nat) (es : List Event) (d : Disk) :
    (log.tell directory clock n es d).1.target? directory log.path = d.target? directory log.path := by
  cases es with
  | nil => rfl
  | cons e es =>
    cases h : d.target? directory log.path with
    | none =>
      obtain ⟨trouble, htell⟩ := tell_of_no_target h clock n e es
      rw [htell, h]
    | some place =>
      obtain ⟨d', htell, hstays, -⟩ := tell_of_target log h clock n e es
      rw [htell, hstays]

/-- telling a log changes no file but the one its path leads to -/
theorem text?_tell {log : Log} {directory place : Location} {d : Disk} (h : d.target? directory log.path ≠ some place)
    (clock : Nat → Instant) (n : Nat) (es : List Event) :
    (log.tell directory clock n es d).1.text? place = d.text? place := by
  cases es with
  | nil => rfl
  | cons e es =>
    cases ht : d.target? directory log.path with
    | none =>
      obtain ⟨trouble, htell⟩ := tell_of_no_target ht clock n e es
      rw [htell]
    | some target =>
      obtain ⟨d', htell, -, hadded⟩ := tell_of_target log ht clock n e es
      have hother : place ≠ target := fun he => h (he ▸ ht)
      rw [htell]
      exact hadded.others place hother

end Log

end ChangeImpact
