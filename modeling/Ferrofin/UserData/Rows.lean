import Mathlib.Data.List.Basic

/-!
# The rows of a user on an item

The `UserData` table holds a row for each key of an item (`user_data_manager.rs`).  The
functions here are on the rows of one user on one item, in the order the table lists
them: picking the row that is read (`preferredRow`), and the statements that write
(`upsertOne`, `updateRetired`, `clearOwnPlayState`, `resetPlaybackStreamSelections`).

A rating is a number that is compared only, so what is asked of it is a parameter.
Dates are in nanoseconds.
-/

namespace Ferrofin.UserData

/-- The ratings: that of a like and of a dislike, whether one counts as liked, whether
one is off the scale, and what the column keeps (nothing of a NaN). -/
structure Ratings (Rating : Type) where
  like : Rating
  dislike : Rating
  isLiked : Rating → Bool
  isInvalid : Rating → Bool
  column : Rating → Option Rating

structure UserDataValues (Rating : Type) where
  audioStreamIndex : Option Int32 := none
  isFavorite : Bool := false
  lastPlayedDate : Option Int := none
  likes : Option Bool := none
  playCount : Int32 := 0
  playbackPositionTicks : Int64 := 0
  played : Bool := false
  rating : Option Rating := none
  subtitleStreamIndex : Option Int32 := none
deriving DecidableEq

/-- `UserDataEntity`, of one user and one item. -/
structure UserDataEntity (Rating : Type) where
  values : UserDataValues Rating := {}
  customDataKey : String
  retentionDate : Option Int := none
deriving DecidableEq

variable {Rating : Type}

/-! ### Reading -/

def preferredRow (rows : List (UserDataEntity Rating)) (keys : List String) :
    Option (UserDataEntity Rating) :=
  (keys.findSome? fun key => rows.find? fun row => row.customDataKey = key).or rows.head?

def emptyRow (itemId : String) : UserDataEntity Rating := { customDataKey := itemId }

def readOrUnwrittenRow (itemId : String) (rows : List (UserDataEntity Rating))
    (keys : List String) : UserDataEntity Rating :=
  (preferredRow rows keys).getD { emptyRow itemId with customDataKey := keys.headD itemId }

/-! ### Writing -/

/-- `opt_datetime_to_db`: a date is kept to the 100 nanoseconds. -/
def toTick (date : Int) : Int := date / 100 * 100

def UserDataValues.saved (R : Ratings Rating) (v : UserDataValues Rating) :
    UserDataValues Rating :=
  { v with
    lastPlayedDate := v.lastPlayedDate.map toTick
    likes := v.rating.map R.isLiked
    rating := v.rating.bind R.column }

def upsertOne (values : UserDataValues Rating) (rows : List (UserDataEntity Rating))
    (key : String) : List (UserDataEntity Rating) :=
  if rows.any fun row => row.customDataKey = key then
    rows.map fun row => if row.customDataKey = key then { row with values := values } else row
  else rows ++ [{ values := values, customDataKey := key }]

def updateRetired (values : UserDataValues Rating) (keys : List String)
    (rows : List (UserDataEntity Rating)) : List (UserDataEntity Rating) :=
  rows.map fun row => if row.customDataKey ∈ keys then row else { row with values := values }

def upsertRow (values : UserDataValues Rating) (keys : List String)
    (rows : List (UserDataEntity Rating)) : List (UserDataEntity Rating) :=
  updateRetired values keys (keys.foldl (upsertOne values) rows)

def UserDataValues.hasPlayState (v : UserDataValues Rating) : Bool :=
  v.played || v.playCount != 0 || v.playbackPositionTicks != 0 || v.lastPlayedDate.isSome

def UserDataValues.unplayed (v : UserDataValues Rating) : UserDataValues Rating :=
  { v with played := false, playCount := 0, playbackPositionTicks := 0, lastPlayedDate := none }

def clearOwnPlayState (rows : List (UserDataEntity Rating)) : List (UserDataEntity Rating) :=
  rows.map fun row =>
    if row.values.hasPlayState then { row with values := row.values.unplayed } else row

def UserDataValues.withoutTracks (v : UserDataValues Rating) : UserDataValues Rating :=
  { v with audioStreamIndex := none, subtitleStreamIndex := none }

def resetPlaybackStreamSelections (rows : List (UserDataEntity Rating)) :
    List (UserDataEntity Rating) :=
  rows.map fun row => { row with values := row.values.withoutTracks }

/-! ### Rows that agree -/

def Agree (values : UserDataValues Rating) (rows : List (UserDataEntity Rating)) : Prop :=
  ∀ row ∈ rows, row.values = values

variable {values : UserDataValues Rating} {rows : List (UserDataEntity Rating)}
  {row : UserDataEntity Rating} {key : String} {keys : List String}

theorem mem_upsertOne (h : row ∈ upsertOne values rows key) :
    row.values = values ∨ row ∈ rows ∧ row.customDataKey ≠ key := by
  rw [upsertOne] at h
  split at h
  · obtain ⟨r, hr, rfl⟩ := List.mem_map.mp h
    split
    · exact .inl rfl
    · next hne => exact .inr ⟨hr, hne⟩
  · next hany =>
    rcases List.mem_append.mp h with hr | hr
    · refine .inr ⟨hr, fun heq => hany ?_⟩
      exact List.any_eq_true.mpr ⟨row, hr, decide_eq_true heq⟩
    · obtain rfl := List.mem_singleton.mp hr
      exact .inl rfl

theorem mem_foldl_upsertOne (h : row ∈ keys.foldl (upsertOne values) rows) :
    row.values = values ∨ row ∈ rows ∧ row.customDataKey ∉ keys := by
  induction keys generalizing rows with
  | nil => exact .inr ⟨h, List.not_mem_nil⟩
  | cons key keys ih =>
    rcases ih h with hv | ⟨hrow, hkeys⟩
    · exact .inl hv
    · rcases mem_upsertOne hrow with hv | ⟨hrow, hkey⟩
      · exact .inl hv
      · exact .inr ⟨hrow, fun hmem => (List.mem_cons.mp hmem).elim hkey hkeys⟩

/-- **A save reaches every row**: those of the keys, and those of other keys. -/
theorem agree_upsertRow (values : UserDataValues Rating) (keys : List String)
    (rows : List (UserDataEntity Rating)) : Agree values (upsertRow values keys rows) := by
  intro row h
  obtain ⟨r, hr, rfl⟩ := List.mem_map.mp h
  split
  · next hkey =>
    rcases mem_foldl_upsertOne hr with hv | ⟨-, hnot⟩
    · exact hv
    · exact absurd hkey hnot
  · rfl

theorem UserDataValues.unplayed_of_not_hasPlayState {v : UserDataValues Rating}
    (h : v.hasPlayState = false) : v.unplayed = v := by
  simp only [hasPlayState, Bool.or_eq_false_iff, bne_eq_false_iff_eq,
    Option.isSome_eq_false_iff, Option.isNone_iff_eq_none] at h
  obtain ⟨⟨⟨hplayed, hcount⟩, hticks⟩, hdate⟩ := h
  rw [unplayed, ← hplayed, ← hcount, ← hticks, ← hdate]

theorem Agree.clearOwnPlayState (h : Agree values rows) :
    Agree values.unplayed (clearOwnPlayState rows) := by
  intro row hrow
  obtain ⟨r, hr, rfl⟩ := List.mem_map.mp hrow
  rw [← h r hr]
  split
  · rfl
  · next hnone =>
    exact (UserDataValues.unplayed_of_not_hasPlayState (Bool.eq_false_iff.mpr hnone)).symm

theorem Agree.resetPlaybackStreamSelections (h : Agree values rows) :
    Agree values.withoutTracks (resetPlaybackStreamSelections rows) := by
  intro row hrow
  obtain ⟨r, hr, rfl⟩ := List.mem_map.mp hrow
  rw [← h r hr]

theorem mem_of_preferredRow (h : preferredRow rows keys = some row) : row ∈ rows := by
  rcases Option.or_eq_some_iff.mp h with h | ⟨-, h⟩
  · obtain ⟨key, -, hfind⟩ := List.exists_of_findSome?_eq_some h
    exact List.mem_of_find?_eq_some hfind
  · exact List.mem_of_mem_head? h

theorem exists_preferredRow (keys : List String) (h : rows ≠ []) :
    ∃ row, preferredRow rows keys = some row := by
  obtain ⟨r, rs, rfl⟩ := List.exists_cons_of_ne_nil h
  rw [preferredRow, List.head?_cons]
  cases keys.findSome? fun key => (r :: rs).find? fun row => row.customDataKey = key with
  | none => exact ⟨r, rfl⟩
  | some row => exact ⟨row, rfl⟩

theorem Agree.read (h : Agree values rows) (itemId : String) (keys : List String)
    (hne : rows ≠ []) : (readOrUnwrittenRow itemId rows keys).values = values := by
  obtain ⟨row, hrow⟩ := exists_preferredRow keys hne
  rw [readOrUnwrittenRow, hrow]
  exact h row (mem_of_preferredRow hrow)

end Ferrofin.UserData
