import Ferrofin.Dvr.Arms
import Ferrofin.Dvr.RecordingPath

/-!
# The file of a recording

A capture looks at the active recordings, tries names until one is free of them and of the files
there are (`ensure_file_unique`), and registers itself under the file only when the channel is
open and the recording's row is written.  `recordings` is `dvr` with the files and with the
captures' choices: a look, each turn of the loop and each registration is a step of its own, and
files come and go at any time.

Where a capture registers a file that nobody records whom it did not see, and no file comes up
under a name that is chosen and not registered, no two active recordings share a file and none is
registered over a file (`files_apart`).  Two captures that look before either registers share
theirs (`file_shared`).
-/

namespace Ferrofin.Dvr

open Lib Util
open Lib.KeyedMap (lookup_erase_eq lookup_insert_eq mem_values_of_lookup)

open RecordingPath (ActiveRecording Files taken nextFree)

deriving instance DecidableEq for RecordingPath.ActiveRecording

/-- Two paths that are equal (`PathBuf::eq`). -/
def sameFile (p q : Path) : Bool := components p == components q

theorem sameFile_iff {p q : Path} : sameFile p q = true ↔ components p = components q := beq_iff_eq

theorem sameFile_comm (p q : Path) : sameFile p q = sameFile q p := by
  rw [Bool.eq_iff_iff, sameFile_iff, sameFile_iff]
  exact eq_comm

/-- A capture's choice of a file: the recordings it saw, and the loop of `ensure_file_unique`. -/
structure Look where
  timerId : String
  active : List ActiveRecording
  parent : Path
  extension : Path
  candidate : Path
  name : Path
  index : Nat := 1
  found : Bool := false

namespace Look

/-- `ensure_file_unique`, up to its loop. -/
def start (timerId : String) (active : List ActiveRecording) (path : Path) : Look where
  timerId := timerId
  active := active
  parent := (Util.parent path).getD ['.']
  extension := (Util.extension path).getD "ts".toList
  candidate := path
  name := (fileStem path).getD []

variable (look : Look)

def recorded : Bool :=
  look.active.any fun r =>
    sameFile r.path look.candidate && !eqIgnoreAsciiCase r.timerId look.timerId

/-- A turn of the loop; `existing` says whether the candidate is there. -/
def next (existing : Bool) : Look :=
  if existing || look.recorded then
    let name := look.name ++ " - ".toList ++ decimal look.index
    { look with
      name := name
      candidate := join look.parent (name ++ '.' :: look.extension)
      index := look.index + 1 }
  else { look with found := true }

theorem free_of_found {existing : Path → Bool} (hfound : ¬ look.found = true)
    (h : (look.next (existing look.candidate)).found = true) :
    (look.next (existing look.candidate)).recorded = false ∧
      existing (look.next (existing look.candidate)).candidate = false := by
  rw [next] at h ⊢
  split
  · next ht =>
    rw [if_pos ht] at h
    exact absurd h hfound
  · next hfree =>
    obtain ⟨hexists, hrec⟩ := Bool.or_eq_false_iff.mp (Bool.eq_false_iff.mpr hfree)
    exact ⟨hrec, hexists⟩

/-- Turns of the loop over files that stay as they are. -/
def turns (existing : Path → Bool) : Nat → Look → Look
  | 0, look => look
  | n + 1, look => turns existing n (look.next (existing look.candidate))

end Look

theorem turns_of_free {existing : Path → Bool} {look : Look}
    (h : (existing look.candidate || look.recorded) = false) :
    (look.turns existing 1).found = true ∧
      (look.turns existing 1).candidate = look.candidate := by
  simp [Look.turns, Look.next, h]

theorem turns_of_nextFree (files : Files) {fuel : Nat} (look : Look) {found : Path}
    (h : nextFree (taken files look.timerId look.active) look.parent look.extension fuel
      look.candidate look.name look.index = some found) :
    ∃ n, (look.turns files.existing n).found = true ∧
      (look.turns files.existing n).candidate = found := by
  induction fuel generalizing look with
  | zero =>
    rw [nextFree] at h
    split at h
    · cases h
    · next hfree =>
      obtain ⟨hf, hc⟩ := turns_of_free (Bool.eq_false_iff.mpr hfree)
      exact ⟨1, hf, hc.trans (Option.some.inj h)⟩
  | succ fuel ih =>
    rw [nextFree] at h
    split at h
    · next htaken =>
      have hnext : look.next (files.existing look.candidate) = { look with
          name := look.name ++ " - ".toList ++ decimal look.index
          candidate := join look.parent
            (look.name ++ " - ".toList ++ decimal look.index ++ '.' :: look.extension)
          index := look.index + 1 } := if_pos htaken
      obtain ⟨n, hf, hc⟩ :=
        @ih (look.next (files.existing look.candidate)) (by rw [hnext]; exact h)
      exact ⟨n + 1, hf, hc⟩
    · next hfree =>
      obtain ⟨hf, hc⟩ := turns_of_free (Bool.eq_false_iff.mpr hfree)
      exact ⟨1, hf, hc.trans (Option.some.inj h)⟩

/-- **Turn by turn, the loop ends at what `ensure_file_unique` finds** over files that stay as they
are. -/
theorem turns_of_ensureFileUnique (files : Files) (path : Path) (timerId : String)
    (active : List ActiveRecording) :
    ∃ found n, RecordingPath.ensureFileUnique files path timerId active = some found ∧
      ((Look.start timerId active path).turns files.existing n).found = true ∧
      ((Look.start timerId active path).turns files.existing n).candidate = found := by
  obtain ⟨found, hfound⟩ := Option.isSome_iff_exists.mp
    (RecordingPath.ensureFileUnique_isSome files path timerId active)
  obtain ⟨n, hn⟩ := turns_of_nextFree files (Look.start timerId active path) hfound
  exact ⟨found, n, hfound, hn⟩

/-- The timers' tasks, the files there are, the choices that are not registered yet and the active
recordings; history: the captures that registered a file that was there. -/
structure Recordings where
  manager : Manager := {}
  files : List Path := []
  looks : KeyedMap Nat Look := ∅
  active : KeyedMap String ActiveRecording := ∅
  overwriting : List Nat := []

/-- What happens: a step of the timers' tasks, a capture's look with the path that its programme
and the options give, a turn of its loop, or a file that comes or goes. -/
inductive Happening where
  | timers (event : Event)
  | look (i : Nat) (path : Path)
  | turn (i : Nat)
  | appear (file : Path)
  | vanish (file : Path)

namespace Recordings

variable (s : Recordings)

def existing (p : Path) : Bool := s.files.any fun file => sameFile file p

def waits (i : Nat) : Work → Bool
  | .opening _ _ => !((s.looks.lookup i).map Look.found).getD false
  | _ => false

/-- What a step of the task `i` of the timer does to the choices and the registered files. -/
def settle (i : Nat) (id : String) : Work → Answer → Recordings
  | .opening _ _, .failed _ => { s with looks := s.looks.erase i }
  | .inserting _ _, .failed _ => { s with looks := s.looks.erase i }
  -- `start_capture`
  | .inserting _ _, .done =>
    match s.looks.lookup i with
    | some look => { s with
        looks := s.looks.erase i
        active := s.active.insert id { timerId := id, path := look.candidate }
        overwriting := if s.existing look.candidate then s.overwriting ++ [i]
          else s.overwriting }
    | none => s
  -- `finish_capture`
  | .closing _ _ _ _, .done => { s with active := s.active.erase id }
  | _, _ => s

def step : Happening → Option Recordings
  | .timers (.step i a) => (s.manager.tasks.lookup i).bind fun task =>
    if s.waits i task.work then none
    else (s.manager.step (.step i a)).map fun m =>
      { s.settle i task.id task.work a with manager := m }
  | .timers event => (s.manager.step event).map fun m => { s with manager := m }
  | .look i path =>
    match s.manager.tasks.lookup i, s.looks.lookup i with
    | some ⟨id, .opening _ _⟩, none =>
      some { s with looks := s.looks.insert i (.start id s.active.values path) }
    | _, _ => none
  | .turn i => (s.looks.lookup i).bind fun look =>
    if look.found then none
    else some { s with looks := s.looks.insert i (look.next (s.existing look.candidate)) }
  | .appear file => some { s with files := file :: s.files }
  | .vanish file => some { s with files := s.files.filter fun other => !sameFile other file }

/-- No two active recordings share a file, and none was registered over a file. -/
structure FilesApart : Prop where
  apart : ∀ id id' r r', s.active.lookup id = some r → s.active.lookup id' = some r' → id ≠ id' →
    sameFile r.path r'.path = false
  fresh : s.overwriting = []

/-- Whoever records the chosen file was seen recording it, and not taken for the timer itself. -/
def seen (look : Look) : Bool :=
  s.active.values.all fun r => !sameFile r.path look.candidate ||
    (decide (r ∈ look.active) && !eqIgnoreAsciiCase r.timerId look.timerId)

/-- A capture registers a file that nobody records whom it did not see, and no file comes up where
a capture has chosen it. -/
def undisturbed : Happening → Bool
  | .timers (.step i .done) =>
    match s.manager.tasks.lookup i, s.looks.lookup i with
    | some ⟨_, .inserting _ _⟩, some look => s.seen look
    | _, _ => true
  | .appear file =>
    s.looks.values.all fun look => !(look.found && sameFile file look.candidate)
  | _ => true

end Recordings

def recordings : Machine Recordings Happening where
  init := {}
  step := Recordings.step

/-! ### What a step of a capture does -/

section next

variable {m : Manager} {i : Nat} {id : String} {w w' : Work} {a : Answer} {e : Effect}

theorem armed_ne_inserting (claims : Bool) (timer : TimerInfo) (info : TimerRecordingInfo) :
    Work.armed claims ≠ .inserting timer info := by
  cases claims <;> exact nofun

theorem next_inserting {timer : TimerInfo} {info : TimerRecordingInfo}
    (h : Work.next m i id w a = some (e, .inserting timer info)) :
    w = .opening timer info ∧ a = .done := by
  revert h
  fun_cases Work.next m i id w a <;> grind [settle, armed_ne_inserting]

theorem next_registers (h : Work.next m i id w a = some (.activate, w')) :
    ∃ timer info, w = .inserting timer info ∧ a = .done := by
  revert h
  fun_cases Work.next m i id w a <;> grind [settle]

theorem next_unregisters (h : Work.next m i id w a = some (.deactivate, w')) :
    ∃ timer info began failed, w = .closing timer info began failed ∧ a = .done := by
  revert h
  fun_cases Work.next m i id w a <;> grind [settle]

end next

namespace Recordings

variable {s s' : Recordings}

theorem existing_eq_false {p : Path} :
    s.existing p = false ↔ ∀ file ∈ s.files, sameFile file p = false := by
  simp [existing]

theorem looks_settle {i j : Nat} {id : String} {w : Work} {a : Answer} {look : Look}
    (h : (s.settle i id w a).looks.lookup j = some look) : s.looks.lookup j = some look := by
  have herase (h : (s.looks.erase i).lookup j = some look) : s.looks.lookup j = some look := by
    rw [lookup_erase_eq] at h
    split at h
    · cases h
    · exact h
  revert h
  fun_cases Recordings.settle s i id w a <;> first | exact herase | exact fun h => h

theorem looks_settle_of_ne {i j : Nat} (hne : j ≠ i) (id : String) (w : Work) (a : Answer) :
    (s.settle i id w a).looks.lookup j = s.looks.lookup j := by
  have herase : (s.looks.erase i).lookup j = s.looks.lookup j := by
    rw [lookup_erase_eq, if_neg hne]
  fun_cases Recordings.settle s i id w a <;> first | exact herase | rfl

theorem files_settle (i : Nat) (id : String) (w : Work) (a : Answer) :
    (s.settle i id w a).files = s.files := by
  fun_cases Recordings.settle s i id w a <;> rfl

/-- A step of the tasks: what the task does, and that it has its file when the channel opens. -/
theorem timers_cases {i : Nat} {a : Answer} (h : s.step (.timers (.step i a)) = some s') :
    ∃ id w e w', s.manager.tasks.lookup i = some ⟨id, w⟩ ∧
      Work.next s.manager i id w a = some (e, w') ∧ s.waits i w = false ∧
      s' = { s.settle i id w a with manager := (s.manager.apply i id e).goOn i ⟨id, w'⟩ } := by
  obtain ⟨task, htask, h⟩ := Option.bind_eq_some_iff.mp h
  split at h
  · cases h
  next hwaits =>
  obtain ⟨m, hm, rfl⟩ := Option.map_eq_some_iff.mp h
  obtain ⟨id, w, e, w', ht, hn, rfl⟩ := step_cases hm
  rw [htask] at ht
  cases ht
  exact ⟨id, w, e, w', htask, hn, Bool.eq_false_iff.mpr hwaits, rfl⟩

/-- A capture whose channel is open has its file, and the registered files are those of the active
recordings. -/
structure Tracked (s : Recordings) : Prop where
  chosen : ∀ i id timer info, s.manager.tasks.lookup i = some ⟨id, .inserting timer info⟩ →
    ∃ look, s.looks.lookup i = some look ∧ look.found = true
  keys : ∀ id, (s.active.lookup id).isSome = (s.manager.active.lookup id).isSome

theorem waits_opening {i : Nat} {timer : TimerInfo} {info : TimerRecordingInfo}
    (h : s.waits i (.opening timer info) = false) :
    ∃ look, s.looks.lookup i = some look ∧ look.found = true := by
  cases hl : s.looks.lookup i with
  | none => simp [waits, hl] at h
  | some look => exact ⟨look, rfl, by simpa [waits, hl] using h⟩

/-- The registered files and the active recordings are changed together. -/
theorem keys_settle {i : Nat} {id : String} {w w' : Work} {a : Answer} {e : Effect}
    (h : s.Tracked) (ht : s.manager.tasks.lookup i = some ⟨id, w⟩)
    (hn : Work.next s.manager i id w a = some (e, w')) (id' : String) :
    ((s.settle i id w a).active.lookup id').isSome =
      ((s.manager.apply i id e).active.lookup id').isSome := by
  have hkeys := h.keys id'
  by_cases hin : e = .activate
  · subst hin
    obtain ⟨timer, info, rfl, rfl⟩ := next_registers hn
    obtain ⟨look, hl, -⟩ := h.chosen i id timer info ht
    simp only [settle, hl, Manager.apply, lookup_insert_eq]
    split
    · rfl
    · exact hkeys
  by_cases hout : e = .deactivate
  · subst hout
    obtain ⟨timer, info, began, failed, rfl, rfl⟩ := next_unregisters hn
    simp only [settle, Manager.apply, lookup_erase_eq]
    split
    · rfl
    · exact hkeys
  -- nothing is registered, and what is told to stop is registered still
  have hactive : (s.settle i id w a).active = s.active := by
    fun_cases Recordings.settle s i id w a
    all_goals first | rfl | skip
    · cases hn
      exact absurd rfl hin
    · cases hn
      exact absurd rfl hout
  rw [hactive, hkeys]
  cases e with
  | activate => exact absurd rfl hin
  | deactivate => exact absurd rfl hout
  | stop => simp [Manager.apply]
  | _ => rfl

theorem Tracked.timers (h : s.Tracked) {i : Nat} {a : Answer}
    (hs : s.step (.timers (.step i a)) = some s') : s'.Tracked := by
  obtain ⟨id, w, e, w', ht, hn, hwaits, rfl⟩ := timers_cases hs
  refine ⟨fun j id' timer info htj => ?_, keys_settle h ht hn⟩
  simp only [Manager.goOn, lookup_insert_eq] at htj
  split at htj
  · next heq =>
    cases heq
    cases htj
    -- the channel was opened, so the file was chosen before
    obtain ⟨rfl, rfl⟩ := next_inserting hn
    obtain ⟨look, hl, hf⟩ := waits_opening hwaits
    exact ⟨look, hl, hf⟩
  · next hne =>
    rcases tasks_apply htj with htj | ⟨due, hw⟩
    · rw [looks_settle_of_ne hne]
      exact h.chosen j id' timer info htj
    · cases hw

theorem Tracked.step (h : s.Tracked) {event : Happening} (hs : s.step event = some s') :
    s'.Tracked := by
  cases event with
  | timers event =>
    cases event with
    | tick elapsed =>
      cases hs
      exact ⟨h.chosen, h.keys⟩
    | start id operation =>
      cases hs
      refine ⟨fun j id' timer info htj => ?_, h.keys⟩
      simp only [Manager.goOn, lookup_insert_eq] at htj
      split at htj
      · cases operation <;> cases htj
      · exact h.chosen j id' timer info htj
    | step i a => exact h.timers hs
  | look i path =>
    simp only [Recordings.step] at hs
    split at hs
    · next id timer info htask hlook =>
      cases hs
      refine ⟨fun j id' timer' info' htj => ?_, h.keys⟩
      have hji : j ≠ i := by
        rintro rfl
        rw [htask] at htj
        cases htj
      rw [lookup_insert_eq, if_neg hji]
      exact h.chosen j id' timer' info' htj
    · cases hs
  | turn i =>
    obtain ⟨look, hl, hs⟩ := Option.bind_eq_some_iff.mp hs
    split at hs
    · cases hs
    next hfound =>
    cases hs
    refine ⟨fun j id timer info htj => ?_, h.keys⟩
    obtain ⟨look', hl', hf'⟩ := h.chosen j id timer info htj
    have hji : j ≠ i := by
      rintro rfl
      rw [hl] at hl'
      exact hfound (Option.some.inj hl' ▸ hf')
    rw [lookup_insert_eq, if_neg hji]
    exact ⟨look', hl', hf'⟩
  | appear file =>
    cases hs
    exact ⟨h.chosen, h.keys⟩
  | vanish file =>
    cases hs
    exact ⟨h.chosen, h.keys⟩

/-- A file that was chosen is nobody's whom the capture saw, and is not there. -/
structure Free (s : Recordings) : Prop extends s.FilesApart where
  free : ∀ i look, s.looks.lookup i = some look → look.found = true →
    look.recorded = false ∧ s.existing look.candidate = false

/-- Nobody records a file that was free of everyone seen, where everyone who records it was. -/
theorem not_recorded {look : Look} (hseen : s.seen look = true) (hrec : look.recorded = false)
    {r : ActiveRecording} (hr : r ∈ s.active.values) : sameFile r.path look.candidate = false := by
  by_contra hsame
  rw [Bool.not_eq_false] at hsame
  have hr' := List.all_eq_true.mp hseen r hr
  rw [hsame, Bool.not_true, Bool.false_or, Bool.and_eq_true, decide_eq_true_iff] at hr'
  refine List.any_eq_false.mp hrec r hr'.1 ?_
  rw [hsame, hr'.2]
  rfl

theorem FilesApart.insert (h : s.FilesApart) (id : String) {p : Path}
    (hfree : ∀ r ∈ s.active.values, sameFile r.path p = false) (id₁ id₂ : String)
    {r₁ r₂ : ActiveRecording} (h₁ : (s.active.insert id ⟨id, p⟩).lookup id₁ = some r₁)
    (h₂ : (s.active.insert id ⟨id, p⟩).lookup id₂ = some r₂) (hne : id₁ ≠ id₂) :
    sameFile r₁.path r₂.path = false := by
  rw [lookup_insert_eq] at h₁ h₂
  split at h₁ <;> split at h₂
  · next heq₁ heq₂ => exact absurd (heq₁.trans heq₂.symm) hne
  · cases h₁
    rw [sameFile_comm]
    exact hfree r₂ (mem_values_of_lookup h₂)
  · cases h₂
    exact hfree r₁ (mem_values_of_lookup h₁)
  · exact h.apart id₁ id₂ r₁ r₂ h₁ h₂ hne

theorem FilesApart.settle (h : s.FilesApart) {i : Nat} {id : String} {w : Work} {a : Answer}
    (hfree : ∀ timer info look, w = .inserting timer info → a = .done →
      s.looks.lookup i = some look →
        (∀ r ∈ s.active.values, sameFile r.path look.candidate = false) ∧
          s.existing look.candidate = false) : (s.settle i id w a).FilesApart := by
  fun_cases Recordings.settle s i id w a
  all_goals first | exact ⟨h.apart, h.fresh⟩ | skip
  · next timer info look hl =>
    obtain ⟨hnone, hnew⟩ := hfree timer info look rfl rfl hl
    exact ⟨fun id₁ id₂ _ _ => h.insert id hnone id₁ id₂, by rw [hnew]; exact h.fresh⟩
  · refine ⟨fun id₁ id₂ r₁ r₂ h₁ h₂ => ?_, h.fresh⟩
    rw [lookup_erase_eq] at h₁ h₂
    split at h₁
    · cases h₁
    split at h₂
    · cases h₂
    exact h.apart id₁ id₂ r₁ r₂ h₁ h₂

theorem Free.timers (h : s.Free) (ht : s.Tracked) {i : Nat} {a : Answer}
    (hok : s.undisturbed (.timers (.step i a)) = true)
    (hs : s.step (.timers (.step i a)) = some s') : s'.Free := by
  obtain ⟨id, w, e, w', htask, hn, hwaits, rfl⟩ := timers_cases hs
  have hapart : (s.settle i id w a).FilesApart := by
    refine h.toFilesApart.settle ?_
    rintro timer info look rfl rfl hl
    obtain ⟨look', hl', hf⟩ := ht.chosen i id timer info htask
    cases hl.symm.trans hl'
    simp only [undisturbed, htask, hl] at hok
    obtain ⟨hrec, hnew⟩ := h.free i look hl hf
    exact ⟨fun r => not_recorded hok hrec, hnew⟩
  refine ⟨⟨hapart.apart, hapart.fresh⟩, fun j look hl hf => ?_⟩
  have hfiles : (s.settle i id w a).files = s.files := files_settle i id w a
  simp only [existing, hfiles]
  exact h.free j look (looks_settle hl) hf

theorem Free.step (h : s.Free) (ht : s.Tracked) {event : Happening}
    (hok : s.undisturbed event = true) (hs : s.step event = some s') : s'.Free := by
  cases event with
  | timers event =>
    cases event with
    | tick elapsed =>
      cases hs
      exact ⟨⟨h.apart, h.fresh⟩, h.free⟩
    | start id operation =>
      cases hs
      exact ⟨⟨h.apart, h.fresh⟩, h.free⟩
    | step i a => exact h.timers ht hok hs
  | look i path =>
    simp only [Recordings.step] at hs
    split at hs
    · cases hs
      refine ⟨⟨h.apart, h.fresh⟩, fun j look hl hf => ?_⟩
      rw [lookup_insert_eq] at hl
      split at hl
      · cases hl
        cases hf
      · exact h.free j look hl hf
    · cases hs
  | turn i =>
    obtain ⟨look, hl, hs⟩ := Option.bind_eq_some_iff.mp hs
    split at hs
    · cases hs
    next hfound =>
    cases hs
    refine ⟨⟨h.apart, h.fresh⟩, fun j look' hl' hf => ?_⟩
    rw [lookup_insert_eq] at hl'
    split at hl'
    · obtain rfl := Option.some.inj hl'
      exact look.free_of_found hfound hf
    · exact h.free j look' hl' hf
  | appear file =>
    cases hs
    refine ⟨⟨h.apart, h.fresh⟩, fun j look hl hf => ?_⟩
    obtain ⟨hrec, hnew⟩ := h.free j look hl hf
    have hfile := List.all_eq_true.mp hok look (mem_values_of_lookup hl)
    rw [hf, Bool.true_and, Bool.not_eq_true'] at hfile
    exact ⟨hrec, Bool.or_eq_false_iff.mpr ⟨hfile, hnew⟩⟩
  | vanish file =>
    cases hs
    refine ⟨⟨h.apart, h.fresh⟩, fun j look hl hf => ?_⟩
    obtain ⟨hrec, hnew⟩ := h.free j look hl hf
    refine ⟨hrec, existing_eq_false.mpr fun other ho => ?_⟩
    exact existing_eq_false.mp hnew other (List.mem_filter.mp ho).1

end Recordings

theorem tracked_init : Recordings.Tracked {} where
  chosen i id timer info ht := by cases ht
  keys _ := rfl

theorem free_init : Recordings.Free {} where
  apart id id' r r' hr := by cases hr
  fresh := rfl
  free i look hl := by cases hl

/-- **Where no capture registers a file that another took since its look, and no file comes up
where one is chosen, the active recordings keep apart.**  In every such run, whatever timers fire
and however their captures interleave, each active recording has a file, no two have the same, and
none was registered over a file that was there. -/
theorem files_apart {s : Recordings}
    (h : recordings.Reaches (fun s event => s.undisturbed event = true) s) :
    s.FilesApart ∧ ∀ id, (s.active.lookup id).isSome = (s.manager.active.lookup id).isSome := by
  have hboth := h.invariant (I := fun s : Recordings => s.Tracked ∧ s.Free)
    ⟨tracked_init, free_init⟩
    fun s event s' ⟨ht, hf⟩ hok hs => ⟨ht.step hs, hf.step ht hok hs⟩
  exact ⟨hboth.2.toFilesApart, hboth.1.keys⟩

/-- Two timers of one programme come due, and their captures are about to choose a file. -/
def bothDue : List Happening :=
  [.start "a" (.create { startDate := 9000, endDate := 12000 }), .step 0 .done, .step 0 .nothing,
    .step 0 .nothing, .start "b" (.create { startDate := 9000, endDate := 12000 }), .step 2 .done,
    .step 2 .nothing, .step 2 .nothing, .tick 9000, .step 1 .nothing, .step 1 .done,
    .step 1 (.guide none), .step 1 .nothing, .step 1 .nothing, .step 3 .nothing, .step 3 .done,
    .step 3 (.guide none), .step 3 .nothing, .step 3 .nothing].map .timers

/-- The first capture is registered before the second looks. -/
def inTurn : List Happening :=
  [.look 1 "/News.ts".toList, .turn 1, .timers (.step 1 .done), .timers (.step 1 .done),
    .look 3 "/News.ts".toList, .turn 3, .turn 3, .timers (.step 3 .done), .timers (.step 3 .done)]

def atOnce : List Happening :=
  [.look 1 "/News.ts".toList, .turn 1, .look 3 "/News.ts".toList, .turn 3,
    .timers (.step 1 .done), .timers (.step 1 .done), .timers (.step 3 .done),
    .timers (.step 3 .done)]

def Recordings.both (s : Recordings) : Option ActiveRecording × Option ActiveRecording :=
  (s.active.lookup "a", s.active.lookup "b")

theorem files_apart_inTurn : ∃ s,
    recordings.Reaches (fun s event => s.undisturbed event = true) s ∧
      s.both = (some ⟨"a", "/News.ts".toList⟩, some ⟨"b", "/News - 1.ts".toList⟩) ∧
      s.FilesApart := by
  have hrun : (recordings.runWhile (fun s event => s.undisturbed event = true) {}
      (bothDue ++ inTurn)).map Recordings.both =
        some (some ⟨"a", "/News.ts".toList⟩, some ⟨"b", "/News - 1.ts".toList⟩) := by
    decide +kernel
  obtain ⟨s, hs, hboth⟩ := Option.map_eq_some_iff.mp hrun
  have h := Machine.path_of_runWhile _ hs
  exact ⟨s, h, hboth, (files_apart h).1⟩

/-- **Two active recordings share a file**: neither capture saw the other. -/
theorem file_shared : ¬ ∀ s, recordings.Reachable s → s.FilesApart := by
  intro hall
  have hrun : (recordings.run {} (bothDue ++ atOnce)).map Recordings.both =
      some (some ⟨"a", "/News.ts".toList⟩, some ⟨"b", "/News.ts".toList⟩) := by
    decide +kernel
  obtain ⟨s, hs, hboth⟩ := Option.map_eq_some_iff.mp hrun
  obtain ⟨ha, hb⟩ := Prod.mk.inj hboth
  have happart := (hall s (Machine.reachable_of_run _ hs)).apart "a" "b" _ _ ha hb (by decide)
  exact absurd happart (by decide)

end Ferrofin.Dvr
