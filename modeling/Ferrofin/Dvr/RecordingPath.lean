import Ferrofin.Lib.ByteSlices
import Ferrofin.Util.Decimal
import Ferrofin.Util.Paths
import Ferrofin.Util.Text

/-!
# Where a recording is written

`recordingPath` chooses the file a programme is recorded to by its kind, its name and its
numbers, all of which come from a guide nobody vouches for, and `ensureFileUnique` gives it
another name until it is free.

Every name that is joined to the recording folder is cleaned first, but a folder's name is
cut further after it was cleaned: blanks behind one or two dots keep `validFilename` from
dropping them, and `folderName` then takes the blanks and what is behind them away
(`DotsUncovered`).  `recordings_below` says that this is the only way out of the folder.
-/

namespace Ferrofin.Dvr.RecordingPath

open Lib Util
open List (all_eq_true append_nil foldl_append foldl_cons foldl_nil length_append mem_append
  mem_cons mem_singleton nil_append not_mem_nil)

/-! ### Names -/

def isInvalidPathCharacter (c : Char) : Bool :=
  "\"<>|:*?\\/".toList.contains c || c.toNat ≤ 31

def getValidFilename (filename : List Char) : List Char :=
  filename.map fun c => if isInvalidPathCharacter c then ' ' else c

/-- A name without the characters no path may have, trimmed. -/
def cleaned (name : List Char) : List Char := trimChars (getValidFilename name)

def validFilename (name : List Char) : List Char :=
  if cleaned name ≠ [] ∧ (cleaned name).all (· == '.') then [] else cleaned name

def folderName (name : List Char) (year : Option Int) : List Char :=
  let folder := validFilename name ++
    match year with
    | some year => " (".toList ++ decimal year ++ [')']
    | none => []
  trimChars (folder.rdropWhile (· == '.'))

/-- What a timer and its guide programme say that a path is made of. -/
structure TimerRecordingInfo (DateTime : Type) where
  id : String
  name : List Char
  startDate : DateTime
  episodeTitle : Option (List Char)
  seasonNumber : Option Int
  episodeNumber : Option Int
  productionYear : Option Int
  originalAirDate : Option DateTime
  isProgramSeries : Bool
  isMovie : Bool
  isKids : Bool
  isSports : Bool

structure Calendar (DateTime : Type) where
  /-- The day, counted in UTC. -/
  dateNaive : DateTime → Int
  /-- `%Y-%m-%d`. -/
  isoDate : DateTime → List Char
  /-- `%Y_%m_%d_%H_%M_%S`, in local time. -/
  dateString : DateTime → List Char

/-- `LiveTvOptions`, as far as paths go. -/
structure LiveTvOptions where
  recordingPath : Option (List Char)
  movieRecordingPath : Option (List Char)
  seriesRecordingPath : Option (List Char)
  enableRecordingSubfolders : Bool

/-- `format!("{n:02}")`. -/
def decimal02 (n : Int) : List Char :=
  if (decimal n).length < 2 then '0' :: decimal n else decimal n

def nameByteBudget : Nat := 250

variable {DateTime : Type} (calendar : Calendar DateTime)

def recordingName (timer : TimerRecordingInfo DateTime) : List Char :=
  if timer.isProgramSeries then
    let (name, addHyphen) :=
      match timer.seasonNumber, timer.episodeNumber with
      | some season, some episode =>
        (timer.name ++ " S".toList ++ decimal02 season ++ 'E' :: decimal02 episode, false)
      | _, _ =>
        match timer.originalAirDate with
        | some original =>
          if calendar.dateNaive original = calendar.dateNaive timer.startDate then
            (timer.name ++ ' ' :: calendar.dateString timer.startDate, true)
          else (timer.name ++ ' ' :: calendar.isoDate original, true)
        | none => (timer.name ++ ' ' :: calendar.dateString timer.startDate, true)
    match (timer.episodeTitle.map trimChars).filter (· ≠ []) with
    | some episodeTitle =>
      let candidate := name ++ (if addHyphen then " -".toList else []) ++ ' ' :: episodeTitle
      if utf8Len candidate < nameByteBudget then candidate else name
    | none => name
  else
    match timer.isMovie, timer.productionYear with
    | true, some year => timer.name ++ " (".toList ++ decimal year ++ [')']
    | _, _ => timer.name ++ ' ' :: calendar.dateString timer.startDate

/-! ### Paths -/

variable (options : LiveTvOptions) (dataDir : Path)

/-- The folder recordings go to unless their kind has one of its own. -/
def defaultRoot : Path :=
  match (options.recordingPath.map trimChars).filter (· ≠ []) with
  | some path => path
  | none => join (join dataDir "livetv".toList) "recordings".toList

/-- The folder of a kind, and whether recordings of the kind get a subfolder in it. -/
def customRoot (custom : Option (List Char)) : Path × Bool :=
  match (custom.map trimChars).filter (· ≠ []) with
  | some path => (path, components path = components (defaultRoot options dataDir))
  | none => (defaultRoot options dataDir, true)

def recordingPath (timer : TimerRecordingInfo DateTime) : Path × Option Path :=
  let (folder, seriesPath) :=
    if timer.isProgramSeries then
      let (root, allowSubfolder) := customRoot options dataDir options.seriesRecordingPath
      let path := if allowSubfolder && options.enableRecordingSubfolders then
        join root "Series".toList else root
      let path := join path (folderName timer.name none)
      let folder := match timer.seasonNumber with
        | some season => join path ("Season ".toList ++ decimal season)
        | none => path
      (folder, some path)
    else if timer.isMovie then
      let (root, allowSubfolder) := customRoot options dataDir options.movieRecordingPath
      let path := if allowSubfolder && options.enableRecordingSubfolders then
        join root "Movies".toList else root
      (join path (folderName timer.name timer.productionYear), none)
    else if timer.isKids then
      let path := if options.enableRecordingSubfolders then
        join (defaultRoot options dataDir) "Kids".toList else defaultRoot options dataDir
      (join path (folderName timer.name timer.productionYear), none)
    else if timer.isSports then
      let path := if options.enableRecordingSubfolders then
        join (defaultRoot options dataDir) "Sports".toList else defaultRoot options dataDir
      (join path (validFilename timer.name), none)
    else
      let path := if options.enableRecordingSubfolders then
        join (defaultRoot options dataDir) "Other".toList else defaultRoot options dataDir
      (join path (validFilename timer.name), none)
  (join folder (validFilename (recordingName calendar timer) ++ ".ts".toList), seriesPath)

/-- The folder a timer's recording is configured to go below. -/
def recordingRoot (timer : TimerRecordingInfo DateTime) : Path :=
  if timer.isProgramSeries then (customRoot options dataDir options.seriesRecordingPath).1
  else if timer.isMovie then (customRoot options dataDir options.movieRecordingPath).1
  else defaultRoot options dataDir

/-! ### A name that is free -/

/-- The files there are; the file system bounds how long the name of one is. -/
structure Files where
  existing : Path → Bool
  longest : Nat
  bounded : ∀ {p name : Path}, existing p = true → fileName p = some name → name.length ≤ longest

structure ActiveRecording where
  timerId : String
  path : Path

def taken (files : Files) (timerId : String) (active : List ActiveRecording)
    (candidate : Path) : Bool :=
  files.existing candidate || active.any fun r =>
    components r.path == components candidate && !eqIgnoreAsciiCase r.timerId timerId

/-- The loop of `ensure_file_unique`: the name grows until the file is free. -/
def nextFree (taken : Path → Bool) (parent extension : Path) :
    (fuel : Nat) → (candidate name : Path) → (index : Nat) → Option Path
  | 0, candidate, _, _ => if taken candidate then none else some candidate
  | fuel + 1, candidate, name, index =>
    if taken candidate then
      let name := name ++ " - ".toList ++ decimal index
      nextFree taken parent extension fuel (join parent (name ++ '.' :: extension)) name (index + 1)
    else some candidate

def lengthLimit (files : Files) (active : List ActiveRecording) : Nat :=
  active.foldr (fun r limit => max r.path.length limit) files.longest

def ensureFileUnique (files : Files) (path : Path) (timerId : String)
    (active : List ActiveRecording) : Option Path :=
  nextFree (taken files timerId active) ((parent path).getD ['.'])
    ((extension path).getD "ts".toList) (lengthLimit files active + 1) path
    ((fileStem path).getD []) 1

/-! ### Cleaned names -/

section

variable {name : List Char}

theorem separator_not_mem_getValidFilename (name : List Char) : '/' ∉ getValidFilename name := by
  intro h
  obtain ⟨c, -, hc⟩ := List.mem_map.mp h
  split at hc
  · exact absurd hc (by decide)
  · next hvalid =>
    rw [hc] at hvalid
    exact hvalid (by decide)

theorem separator_not_mem_cleaned (name : List Char) : '/' ∉ cleaned name := fun h =>
  separator_not_mem_getValidFilename name (mem_of_mem_trimChars h)

theorem separator_not_mem_validFilename (name : List Char) : '/' ∉ validFilename name := by
  unfold validFilename
  split
  · exact not_mem_nil
  · exact separator_not_mem_cleaned name

theorem isName_validFilename (h : validFilename name ≠ []) : IsName (validFilename name) := by
  refine ⟨separator_not_mem_validFilename name, ?_, ?_⟩ <;> unfold validFilename at h ⊢
  · split at h
    · exact absurd rfl h
    · next hdots =>
      rw [if_neg hdots]
      simp only [isBlank, Bool.or_eq_false_iff, beq_eq_false_iff_ne]
      refine ⟨h, fun hdot => hdots ?_⟩
      rw [hdot]
      exact ⟨by simp, by decide⟩
  · split at h
    · exact absurd rfl h
    · next hdots =>
      rw [if_neg hdots]
      refine fun hdot => hdots ?_
      rw [hdot]
      exact ⟨by simp, by decide⟩

/-- One or two dots, then blanks, then dots: what is behind the first dots is taken away after
the name was looked at. -/
def DotsUncovered (name : List Char) : Prop :=
  ∃ dots blanks rest, cleaned name = dots ++ blanks ++ rest ∧ (dots = ['.'] ∨ dots = ['.', '.']) ∧
    (blanks ≠ [] ∧ blanks.all isWhitespace) ∧ rest ≠ [] ∧ rest.all (· == '.')

theorem folderName_none (name : List Char) :
    folderName name none = trimChars ((validFilename name).rdropWhile (· == '.')) := by
  rw [folderName, append_nil]

theorem separator_not_mem_folderName_none (name : List Char) : '/' ∉ folderName name none := by
  rw [folderName_none]
  exact fun h => separator_not_mem_validFilename name
    ((List.rdropWhile_prefix _ _).subset (mem_of_mem_trimChars h))

theorem isName_folderName_some (name : List Char) (year : Int) :
    IsName (folderName name (some year)) := by
  set folder := validFilename name ++ " (".toList ++ decimal year with hfolder
  have hdrop : (folder ++ [')']).rdropWhile (· == '.') = folder ++ [')'] :=
    List.rdropWhile_concat_neg _ _ _ (by decide)
  have heq : folderName name (some year) = trimChars (folder ++ [')']) := by
    rw [folderName, ← hdrop, hfolder]
    simp
  obtain ⟨front, back, hparts, hfront, hback⟩ := trimChars_eq (folder ++ [')'])
  -- the closing bracket is no blank, so nothing is cut behind it
  have hnil : back = [] := by
    by_contra hne
    have hlast : (front ++ trimChars (folder ++ [')']) ++ back).getLast? = some ')' := by
      rw [← hparts]
      simp
    rw [List.getLast?_append, List.getLast?_eq_some_getLast hne] at hlast
    have hmem : ')' ∈ back := by
      rw [show ')' = back.getLast hne by simpa using hlast.symm]
      exact List.getLast_mem hne
    exact absurd (all_eq_true.mp hback _ hmem) (by decide)
  rw [hnil, append_nil] at hparts
  have hend : ')' ∈ trimChars (folder ++ [')']) := by
    have hmem : ')' ∈ front ++ trimChars (folder ++ [')']) := hparts ▸ by simp
    rcases mem_append.mp hmem with hmem | hmem
    · exact absurd (all_eq_true.mp hfront _ hmem) (by decide)
    · exact hmem
  rw [heq]
  refine ⟨fun hsep => ?_, ?_, ?_⟩
  · have hmem := mem_of_mem_trimChars hsep
    simp only [hfolder, mem_append, mem_singleton] at hmem
    rcases hmem with ((hmem | hmem) | hmem) | hmem
    · exact separator_not_mem_validFilename name hmem
    · exact absurd hmem (by decide)
    · rcases mem_decimal hmem with h | h <;> exact absurd h (by decide)
    · exact absurd hmem (by decide)
  · simp only [isBlank, Bool.or_eq_false_iff, beq_eq_false_iff_ne]
    constructor <;> intro hdots <;> rw [hdots] at hend <;> exact absurd hend (by decide)
  · intro hdots
    rw [hdots] at hend
    exact absurd hend (by decide)

theorem rdropWhile_append_of_all {p : Char → Bool} {front rest : List Char} (hrest : rest.all p)
    (hfront : ∀ c, front.getLast? = some c → p c = false) :
    (front ++ rest).rdropWhile p = front := by
  have hnil : rest.reverse.dropWhile p = [] := List.dropWhile_eq_nil_iff.mpr
    fun c hc => all_eq_true.mp hrest c (List.mem_reverse.mp hc)
  rw [List.rdropWhile, List.reverse_append, List.dropWhile_append, hnil]
  have hself : front.rdropWhile p = front := List.rdropWhile_eq_self_iff.mpr fun hne => by
    simp [hfront _ (List.getLast?_eq_some_getLast hne)]
  exact hself

theorem ne_dot_of_isWhitespace {c : Char} (h : isWhitespace c = true) : (c == '.') = false := by
  rw [beq_eq_false_iff_ne]
  rintro rfl
  exact absurd h (by decide)

theorem folderName_none_dots (name : List Char) :
    (folderName name none = ['.'] ∨ folderName name none = ['.', '.']) ↔ DotsUncovered name := by
  rw [folderName_none]
  constructor
  · intro hdots
    have hvalid : validFilename name = cleaned name := by
      unfold validFilename at hdots ⊢
      split at hdots
      · rcases hdots with h | h <;> cases h
      · next hall => rw [if_neg hall]
    rw [hvalid] at hdots
    have hsplit : (cleaned name).rdropWhile (· == '.') ++ (cleaned name).rtakeWhile (· == '.') =
        cleaned name := List.rdropWhile_append_rtakeWhile ..
    obtain ⟨front, back, hkept, hfront, hback⟩ :=
      trimChars_eq ((cleaned name).rdropWhile (· == '.'))
    generalize hd : trimChars ((cleaned name).rdropWhile (· == '.')) = dots at hdots hkept
    have hdot : dots.getLast? = some '.' := by rcases hdots with rfl | rfl <;> rfl
    have hfrontnil : front = [] := by
      cases front with
      | nil => rfl
      | cons c front =>
        have hhead : (cleaned name).head? = some c := by
          rw [← hsplit, hkept]
          rfl
        have hc := trimChars_head? hhead
        rw [all_eq_true.mp hfront c (List.mem_cons_self ..)] at hc
        cases hc
    rw [hfrontnil, nil_append] at hkept
    have hbacknil : back ≠ [] := by
      rintro rfl
      rw [append_nil] at hkept
      have hne : (cleaned name).rdropWhile (· == '.') ≠ [] := by
        rw [hkept]
        rintro rfl
        cases hdot
      have hlast := List.rdropWhile_last_not (· == '.') (cleaned name) hne
      have hget : ((cleaned name).rdropWhile (· == '.')).getLast? = some '.' := by rw [hkept, hdot]
      rw [List.getLast?_eq_some_getLast hne, Option.some.injEq] at hget
      rw [hget] at hlast
      exact hlast rfl
    refine ⟨dots, back, (cleaned name).rtakeWhile (· == '.'), ?_, hdots, ⟨hbacknil, hback⟩, ?_, ?_⟩
    · rw [← hkept, hsplit]
    · intro hnil
      rw [hnil, append_nil] at hsplit
      have hlast : (cleaned name).getLast? = some (back.getLast hbacknil) := by
        rw [← hsplit, hkept, List.getLast?_append, List.getLast?_eq_some_getLast hbacknil]
        rfl
      have hc := trimChars_getLast? hlast
      rw [all_eq_true.mp hback _ (List.getLast_mem hbacknil)] at hc
      cases hc
    · refine all_eq_true.mpr fun c hc => ?_
      have hdots := List.mem_rtakeWhile_imp hc
      exact hdots
  · rintro ⟨dots, blanks, rest, heq, hdots, ⟨hne, hblanks⟩, hrest, hall⟩
    have hkept : validFilename name = dots ++ blanks ++ rest := by
      rw [validFilename, heq, if_neg]
      rintro ⟨-, hd⟩
      obtain ⟨c, blanks, rfl⟩ := List.exists_cons_of_ne_nil hne
      have hc := all_eq_true.mp hd c (by simp)
      rw [ne_dot_of_isWhitespace (all_eq_true.mp hblanks c (List.mem_cons_self ..))] at hc
      cases hc
    have hdrop : (dots ++ blanks ++ rest).rdropWhile (· == '.') = dots ++ blanks := by
      refine rdropWhile_append_of_all hall fun c hc => ?_
      rw [List.getLast?_append, List.getLast?_eq_some_getLast hne] at hc
      have hmem : c ∈ blanks := by
        rw [← Option.some.inj hc]
        exact List.getLast_mem hne
      exact ne_dot_of_isWhitespace (all_eq_true.mp hblanks c hmem)
    have hdot : ∀ c, some '.' = some c → isWhitespace c = false := by
      rintro c ⟨⟩
      decide
    rw [hkept, hdrop]
    rcases hdots with rfl | rfl
    · exact .inl (trimChars_append hblanks hdot hdot)
    · exact .inr (trimChars_append hblanks hdot hdot)

theorem isName_folderName_none {name : List Char} (h : folderName name none ≠ []) :
    IsName (folderName name none) ↔ ¬ DotsUncovered name := by
  rw [← folderName_none_dots]
  refine ⟨fun hname hdots => ?_, fun hdots => ⟨separator_not_mem_folderName_none name, ?_, ?_⟩⟩
  · rcases hdots with hdots | hdots
    · exact absurd hname.notBlank (by rw [hdots]; decide)
    · exact hname.notParent hdots
  · simp only [isBlank, Bool.or_eq_false_iff, beq_eq_false_iff_ne]
    exact ⟨h, fun hdot => hdots (.inl hdot)⟩
  · exact fun hdot => hdots (.inr hdot)

/-! ### The texts that are joined -/

def programFolder (timer : TimerRecordingInfo DateTime) : List Char :=
  if timer.isProgramSeries then folderName timer.name none
  else if timer.isMovie || timer.isKids then folderName timer.name timer.productionYear
  else validFilename timer.name

/-- A programme whose folder has its name and no year. -/
def NamedFolder (timer : TimerRecordingInfo DateTime) : Prop :=
  timer.isProgramSeries = true ∨
    ((timer.isMovie = true ∨ timer.isKids = true) ∧ timer.productionYear = none)

theorem programFolder_of_named {timer : TimerRecordingInfo DateTime} (h : NamedFolder timer) :
    programFolder timer = folderName timer.name none := by
  unfold programFolder
  split
  · rfl
  next hseries =>
  obtain ⟨hkind, hyear⟩ := h.resolve_left hseries
  rw [if_pos (by simpa using hkind), hyear]

theorem isName_file (timer : TimerRecordingInfo DateTime) :
    IsName (validFilename (recordingName calendar timer) ++ ".ts".toList) := by
  have hmem : 't' ∈ validFilename (recordingName calendar timer) ++ ".ts".toList :=
    List.mem_append_right _ (by decide)
  refine ⟨fun hsep => ?_, ?_, ?_⟩
  · rcases mem_append.mp hsep with h | h
    · exact separator_not_mem_validFilename _ h
    · exact absurd h (by decide)
  · simp only [isBlank, Bool.or_eq_false_iff, beq_eq_false_iff_ne]
    constructor <;> intro hblank <;> rw [hblank] at hmem <;> exact absurd hmem (by decide)
  · intro hparent
    rw [hparent] at hmem
    exact absurd hmem (by decide)

theorem isName_season (season : Int) : IsName ("Season ".toList ++ decimal season) := by
  have hmem : 'S' ∈ "Season ".toList ++ decimal season := List.mem_append_left _ (by decide)
  refine ⟨fun hsep => ?_, ?_, ?_⟩
  · rcases mem_append.mp hsep with h | h
    · exact absurd h (by decide)
    · rcases mem_decimal h with h | h <;> exact absurd h (by decide)
  · simp only [isBlank, Bool.or_eq_false_iff, beq_eq_false_iff_ne]
    constructor <;> intro hblank <;> rw [hblank] at hmem <;> exact absurd hmem (by decide)
  · intro hparent
    rw [hparent] at hmem
    exact absurd hmem (by decide)

theorem separator_not_mem_programFolder (timer : TimerRecordingInfo DateTime) :
    '/' ∉ programFolder timer := by
  unfold programFolder
  split
  · exact separator_not_mem_folderName_none _
  split
  · cases timer.productionYear with
    | none => exact separator_not_mem_folderName_none _
    | some year => exact (isName_folderName_some _ year).noSeparator
  · exact separator_not_mem_validFilename _

theorem isName_programFolder {timer : TimerRecordingInfo DateTime} (h : programFolder timer ≠ []) :
    IsName (programFolder timer) ↔ ¬ (NamedFolder timer ∧ DotsUncovered timer.name) := by
  unfold programFolder at h ⊢
  unfold NamedFolder
  split at h
  · next hseries =>
    rw [if_pos hseries, isName_folderName_none h]
    simp [hseries]
  next hseries =>
  rw [if_neg hseries]
  split at h
  · next hkind =>
    rw [if_pos hkind]
    cases hyear : timer.productionYear with
    | none =>
      rw [hyear] at h
      rw [isName_folderName_none h]
      simp only [Bool.or_eq_true] at hkind
      simp [hseries, hkind]
    | some year =>
      refine iff_of_true (isName_folderName_some timer.name year) ?_
      simp [hseries]
  · next hkind =>
    rw [if_neg hkind]
    simp only [Bool.or_eq_true, not_or] at hkind
    simp [hseries, hkind, isName_validFilename h]

theorem foldl_join_kind (b : Bool) (kind root : Path) :
    (if b then [kind] else []).foldl join root = if b then join root kind else root := by
  cases b <;> rfl

theorem isName_kind {kind name : Path} (hkind : IsName kind) (b : Bool)
    (h : name ∈ if b then [kind] else []) : IsName name := by
  cases b with
  | false => cases h
  | true => exact mem_singleton.mp h ▸ hkind

theorem recordingPath_eq (timer : TimerRecordingInfo DateTime) :
    ∃ kind season : List Path, (∀ name ∈ kind ++ season, IsName name) ∧
      (recordingPath calendar options dataDir timer).1 =
        (kind ++ programFolder timer :: (season ++
          [validFilename (recordingName calendar timer) ++ ".ts".toList])).foldl join
            (recordingRoot options dataDir timer) := by
  have hnames : ∀ kind ∈ ["Series", "Movies", "Kids", "Sports", "Other"], IsName kind.toList := by
    intro kind hkind
    simp only [mem_cons, not_mem_nil, or_false] at hkind
    rcases hkind with rfl | rfl | rfl | rfl | rfl <;> exact ⟨by decide, by decide, by decide⟩
  unfold recordingPath recordingRoot programFolder
  by_cases hseries : timer.isProgramSeries
  · obtain ⟨root, allow⟩ := customRoot options dataDir options.seriesRecordingPath
    refine ⟨if allow && options.enableRecordingSubfolders then ["Series".toList] else [],
      match timer.seasonNumber with
      | some season => ["Season ".toList ++ decimal season]
      | none => [], fun name hname => ?_, ?_⟩
    · rcases mem_append.mp hname with hname | hname
      · exact isName_kind (hnames _ (by simp)) _ hname
      · cases hseason : timer.seasonNumber with
        | none =>
          rw [hseason] at hname
          cases hname
        | some season =>
          rw [hseason] at hname
          exact mem_singleton.mp hname ▸ isName_season season
    · rw [foldl_append, foldl_join_kind]
      cases timer.seasonNumber <;>
        simp only [if_pos hseries, nil_append, List.cons_append, foldl_cons,
          foldl_nil]
  by_cases hmovie : timer.isMovie
  · obtain ⟨root, allow⟩ := customRoot options dataDir options.movieRecordingPath
    refine ⟨if allow && options.enableRecordingSubfolders then ["Movies".toList] else [], [],
      fun name hname => ?_, ?_⟩
    · rw [append_nil] at hname
      exact isName_kind (hnames _ (by simp)) _ hname
    · rw [foldl_append, foldl_join_kind]
      simp only [if_neg hseries, hmovie, Bool.true_or, if_true, nil_append,
        foldl_cons, foldl_nil]
  -- the kinds left are recorded below the default folder
  have hrest : ∀ kind ∈ ["Kids", "Sports", "Other"], ∀ name ∈
      (if options.enableRecordingSubfolders then [kind.toList] else []) ++ [], IsName name := by
    intro kind hkind name hname
    rw [append_nil] at hname
    exact isName_kind (hnames kind (by simp_all)) _ hname
  by_cases hkids : timer.isKids
  · refine ⟨_, [], hrest "Kids" (by simp), ?_⟩
    rw [foldl_append, foldl_join_kind]
    simp only [if_neg hseries, if_neg hmovie, hkids, Bool.or_true, if_true,
      nil_append, foldl_cons, foldl_nil]
  have hnone : (timer.isMovie || timer.isKids) = false := by simp [hmovie, hkids]
  by_cases hsports : timer.isSports
  · refine ⟨_, [], hrest "Sports" (by simp), ?_⟩
    rw [foldl_append, foldl_join_kind]
    simp only [if_neg hseries, if_neg hmovie, if_neg hkids, if_pos hsports, hnone,
      Bool.false_eq_true, if_false, nil_append, foldl_cons, foldl_nil]
  · refine ⟨_, [], hrest "Other" (by simp), ?_⟩
    rw [foldl_append, foldl_join_kind]
    simp only [if_neg hseries, if_neg hmovie, if_neg hkids, if_neg hsports, hnone,
      Bool.false_eq_true, if_false, nil_append, foldl_cons, foldl_nil]

theorem defaultRoot_ne_nil : defaultRoot options dataDir ≠ [] := by
  unfold defaultRoot
  split
  · next heq => exact of_decide_eq_true (Option.filter_eq_some_iff.mp heq).2
  · have hlivetv : join dataDir "livetv".toList ≠ [] := by
      unfold join
      split
      · decide
      split <;> simp
    exact join_ne_nil hlivetv (by decide)

theorem customRoot_ne_nil (custom : Option (List Char)) :
    (customRoot options dataDir custom).1 ≠ [] := by
  unfold customRoot
  split
  · next heq => exact of_decide_eq_true (Option.filter_eq_some_iff.mp heq).2
  · exact defaultRoot_ne_nil options dataDir

theorem recordingRoot_ne_nil (timer : TimerRecordingInfo DateTime) :
    recordingRoot options dataDir timer ≠ [] := by
  unfold recordingRoot
  split
  · exact customRoot_ne_nil options dataDir _
  split
  · exact customRoot_ne_nil options dataDir _
  · exact defaultRoot_ne_nil options dataDir

/-- **A recording is below its folder, but for uncovered dots.**  A folder whose name is empty
is not there at all. -/
theorem isBelow_recordingPath (timer : TimerRecordingInfo DateTime) :
    IsBelow (recordingRoot options dataDir timer) (recordingPath calendar options dataDir timer).1 ↔
      ¬ (NamedFolder timer ∧ DotsUncovered timer.name) := by
  obtain ⟨kind, season, hnames, heq⟩ := recordingPath_eq calendar options dataDir timer
  have hroot := recordingRoot_ne_nil options dataDir timer
  set file := validFilename (recordingName calendar timer) ++ ".ts".toList with hfile
  have hfilename : IsName file := isName_file calendar timer
  have hothers : ∀ name ∈ kind ++ (season ++ [file]), IsName name := by
    intro name hname
    rw [← List.append_assoc] at hname
    rcases mem_append.mp hname with hname | hname
    · exact hnames name hname
    · exact mem_singleton.mp hname ▸ hfilename
  have hkind : ∀ name ∈ kind, IsName name := fun name hname =>
    hnames name (List.mem_append_left _ hname)
  have hbehind : ∀ name ∈ season ++ [file], IsName name := fun name hname =>
    hothers name (List.mem_append_right _ hname)
  rw [heq]
  by_cases hempty : programFolder timer = []
  · rw [hempty, foldl_join_append_nil (fun n hn => (hkind n hn).noSeparator)
      (fun n hn => (hbehind n hn).noSeparator) (by simp) hroot]
    refine iff_of_true ⟨_, by simp, hothers, rfl⟩ fun ⟨hnamed, hdots⟩ => ?_
    rw [programFolder_of_named hnamed] at hempty
    rcases (folderName_none_dots timer.name).mpr hdots with h | h <;> rw [hempty] at h <;> cases h
  · rw [isBelow_foldl_join ?_ (by simp) hroot, ← isName_programFolder hempty]
    · constructor
      · exact fun hall => hall _ (by simp)
      · intro hfolder name hname
        rcases mem_append.mp hname with hname | hname
        · exact hkind name hname
        rcases mem_cons.mp hname with rfl | hname
        · exact hfolder
        · exact hbehind name hname
    · intro name hname
      rcases mem_append.mp hname with hname | hname
      · exact ⟨(hkind name hname).noSeparator, (hkind name hname).ne_nil⟩
      rcases mem_cons.mp hname with rfl | hname
      · exact ⟨separator_not_mem_programFolder timer, hempty⟩
      · exact ⟨(hbehind name hname).noSeparator, (hbehind name hname).ne_nil⟩

/-! ### Staying in the folder -/

theorem isName_numbered {name extension : Path} (hname : '/' ∉ name) (hext : '/' ∉ extension)
    (index : Int) : IsName (name ++ " - ".toList ++ decimal index ++ '.' :: extension) := by
  have hmem : ' ' ∈ name ++ " - ".toList ++ decimal index ++ '.' :: extension := by simp
  refine ⟨fun hsep => ?_, ?_, ?_⟩
  · simp only [mem_append, mem_cons] at hsep
    rcases hsep with ((h | h) | h) | h | h
    · exact hname h
    · exact absurd h (by decide)
    · rcases mem_decimal h with h | h <;> exact absurd h (by decide)
    · exact absurd h (by decide)
    · exact hext h
  · simp only [isBlank, Bool.or_eq_false_iff, beq_eq_false_iff_ne]
    constructor <;> intro hblank <;> rw [hblank] at hmem <;> exact absurd hmem (by decide)
  · intro hparent
    rw [hparent] at hmem
    exact absurd hmem (by decide)

theorem separator_not_mem_numbered {name : Path} (hname : '/' ∉ name) (index : Int) :
    '/' ∉ name ++ " - ".toList ++ decimal index := fun h =>
  (isName_numbered hname (not_mem_nil (a := '/')) index).noSeparator
    (List.mem_append_left _ h)

theorem nextFree_parent {taken : Path → Bool} {folder extension : Path} (hext : '/' ∉ extension)
    {fuel : Nat} {candidate name found : Path} {index : Nat} (hname : '/' ∉ name)
    (hparent : parent candidate = some folder)
    (h : nextFree taken folder extension fuel candidate name index = some found) :
    parent found = some folder := by
  induction fuel generalizing candidate name index with
  | zero =>
    rw [nextFree] at h
    split at h
    · cases h
    · exact Option.some.inj h ▸ hparent
  | succ fuel ih =>
    rw [nextFree] at h
    split at h
    · exact ih (separator_not_mem_numbered hname index)
        ((isName_numbered hname hext index).parent_join hparent) h
    · exact Option.some.inj h ▸ hparent

theorem nextFree_isSome {taken : Path → Bool} {folder extension : Path} {limit : Nat}
    (hfree : ∀ name, IsName name → limit < name.length → taken (join folder name) = false)
    (hext : '/' ∉ extension) {fuel : Nat} {file name : Path} {index : Nat} (hname : '/' ∉ name)
    (hfile : IsName file) (hlength : name.length ≤ file.length)
    (hfuel : limit < name.length + fuel) :
    (nextFree taken folder extension fuel (join folder file) name index).isSome := by
  induction fuel generalizing file name index with
  | zero =>
    rw [nextFree, hfree file hfile (by omega)]
    rfl
  | succ fuel ih =>
    rw [nextFree]
    split
    · refine ih (separator_not_mem_numbered hname index) (isName_numbered hname hext index) ?_ ?_
      · simp only [length_append]
        omega
      · simp only [length_append, show " - ".toList.length = 3 from rfl]
        omega
    · rfl

theorem longest_le_lengthLimit (files : Files) (active : List ActiveRecording) :
    files.longest ≤ lengthLimit files active := by
  induction active with
  | nil => exact Nat.le_refl _
  | cons r active ih => exact Nat.le_trans ih (Nat.le_max_right ..)

theorem length_le_lengthLimit {files : Files} {active : List ActiveRecording} {r : ActiveRecording}
    (h : r ∈ active) : r.path.length ≤ lengthLimit files active := by
  induction active with
  | nil => cases h
  | cons other active ih =>
    rcases mem_cons.mp h with rfl | h
    · exact Nat.le_max_left ..
    · exact Nat.le_trans (ih h) (Nat.le_max_right ..)

theorem taken_of_lengthLimit {files : Files} {timerId : String} {active : List ActiveRecording}
    {folder name : Path} (hname : IsName name) (h : lengthLimit files active < name.length) :
    taken files timerId active (join folder name) = false := by
  rw [taken, Bool.or_eq_false_iff]
  constructor
  · by_contra hexists
    have := files.bounded (by simpa using hexists) (hname.fileName_join folder)
    have := longest_le_lengthLimit files active
    omega
  · rw [List.any_eq_false]
    intro r hr hsame
    rw [Bool.and_eq_true, beq_iff_eq] at hsame
    have hmem := hname.mem_components_join folder
    rw [← hsame.1] at hmem
    have := length_le_of_mem_segments (mem_segments_of_mem_components hmem)
    have hlimit : r.path.length ≤ lengthLimit files active := length_le_lengthLimit hr
    omega

theorem separator_not_mem_stem (path : Path) : '/' ∉ (fileStem path).getD [] := by
  cases hstem : fileStem path with
  | none => exact not_mem_nil
  | some stem => exact separator_not_mem_fileStem hstem

theorem separator_not_mem_ext (path : Path) : '/' ∉ (extension path).getD "ts".toList := by
  cases hext : extension path with
  | none => decide
  | some ext => exact separator_not_mem_extension hext

/-- **A free name is found.** -/
theorem ensureFileUnique_isSome (files : Files) (path : Path) (timerId : String)
    (active : List ActiveRecording) : (ensureFileUnique files path timerId active).isSome := by
  rw [ensureFileUnique, nextFree]
  split
  · have hstem := separator_not_mem_stem path
    have hext := separator_not_mem_ext path
    refine nextFree_isSome
      (fun name hname (hlong : lengthLimit files active < _) =>
        taken_of_lengthLimit hname hlong) hext
      (separator_not_mem_numbered hstem _) (isName_numbered hstem hext _) ?_ ?_
    · simp only [length_append]
      omega
    · simp only [length_append, show " - ".toList.length = 3 from rfl]
      omega
  · rfl

/-- **The free name is in the same folder.** -/
theorem ensureFileUnique_parent (files : Files) (timerId : String) (active : List ActiveRecording)
    {path folder : Path} (h : parent path = some folder) :
    ∃ found, ensureFileUnique files path timerId active = some found ∧
      parent found = some folder := by
  obtain ⟨found, hfound⟩ :=
    Option.isSome_iff_exists.mp (ensureFileUnique_isSome files path timerId active)
  refine ⟨found, hfound, ?_⟩
  rw [ensureFileUnique, h] at hfound
  exact nextFree_parent (separator_not_mem_ext path) (separator_not_mem_stem path) h hfound

theorem parent_recordingPath (timer : TimerRecordingInfo DateTime) :
    ∃ folder, parent (recordingPath calendar options dataDir timer).1 = some folder := by
  have hroot := recordingRoot_ne_nil options dataDir timer
  obtain ⟨kind, season, hnames, heq⟩ := recordingPath_eq calendar options dataDir timer
  set file := validFilename (recordingName calendar timer) ++ ".ts".toList with hfile
  have hfilename : IsName file := isName_file calendar timer
  have hbase : (kind ++ programFolder timer :: season).foldl join
      (recordingRoot options dataDir timer) ≠ [] := by
    refine foldl_join_ne_nil (fun name hname => ?_) hroot
    rcases mem_append.mp hname with hname | hname
    · exact (hnames name (List.mem_append_left _ hname)).noSeparator
    rcases mem_cons.mp hname with rfl | hname
    · exact separator_not_mem_programFolder timer
    · exact (hnames name (List.mem_append_right _ hname)).noSeparator
  have hjoin : (recordingPath calendar options dataDir timer).1 =
      join ((kind ++ programFolder timer :: season).foldl join
        (recordingRoot options dataDir timer)) file := by
    rw [heq, ← List.cons_append, ← List.append_assoc, foldl_append]
    rfl
  generalize (kind ++ programFolder timer :: season).foldl join
    (recordingRoot options dataDir timer) = base at hbase hjoin
  obtain ⟨first, rest, hfirst⟩ :=
    List.exists_cons_of_ne_nil (List.splitOn_ne_nil '/' (trimSeparator base))
  have hsegments : segments (join base file) = first :: (rest ++ [file]) := by
    rw [join_eq_append hbase hfilename.noSeparator, segments, List.splitOn_append_cons_self,
      List.splitOn_eq_singleton hfilename.noSeparator, hfirst]
    rfl
  exact ⟨_, hjoin ▸ parent_of_segments hsegments hfilename⟩

end

/-- **Recordings stay below their folder just when no dots are uncovered.**  For any timer and
programme, any folders and any files there are, a recording's path is joined from names alone
below the configured folder, and the name that is free is in the same folder, exactly when it
is not a folder of a programme's name without a year where trimming leaves one or two dots. -/
theorem recordings_below (timer : TimerRecordingInfo DateTime) :
    (IsBelow (recordingRoot options dataDir timer)
        (recordingPath calendar options dataDir timer).1 ∧
      ∃ folder, parent (recordingPath calendar options dataDir timer).1 = some folder ∧
        ∀ (files : Files) (timerId : String) (active : List ActiveRecording), ∃ found,
          ensureFileUnique files (recordingPath calendar options dataDir timer).1 timerId active =
              some found ∧
            parent found = some folder) ↔
      ¬ (NamedFolder timer ∧ DotsUncovered timer.name) := by
  rw [isBelow_recordingPath]
  refine and_iff_left ?_
  obtain ⟨folder, hfolder⟩ := parent_recordingPath calendar options dataDir timer
  exact ⟨folder, hfolder, fun files timerId active =>
    ensureFileUnique_parent files timerId active hfolder⟩

/-- An episode of a series of the name `.. .`, with nothing else known. -/
def dottedSeries : TimerRecordingInfo Int where
  id := "timer"
  name := ".. .".toList
  startDate := 0
  episodeTitle := none
  seasonNumber := none
  episodeNumber := none
  productionYear := none
  originalAirDate := none
  isProgramSeries := true
  isMovie := false
  isKids := false
  isSports := false

def numbers : Calendar Int := ⟨id, decimal, decimal⟩

def unconfigured : LiveTvOptions := ⟨none, none, none, false⟩

/-- The series is recorded beside the recordings folder. -/
theorem dots_uncovered :
    (recordingPath numbers unconfigured "/data".toList dottedSeries).1 =
        "/data/livetv/recordings/../.. . 0.ts".toList ∧
      ¬ IsBelow (recordingRoot unconfigured "/data".toList dottedSeries)
        (recordingPath numbers unconfigured "/data".toList dottedSeries).1 := by
  have hbelow := isBelow_recordingPath numbers unconfigured "/data".toList dottedSeries
  refine ⟨by decide, fun h => hbelow.mp h ⟨.inl rfl, ?_⟩⟩
  exact ⟨['.', '.'], [' '], ['.'], by decide, .inr rfl, by decide, by decide, by decide⟩

end Ferrofin.Dvr.RecordingPath
