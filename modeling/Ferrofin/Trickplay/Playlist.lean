import Ferrofin.Util.F64

/-!
# Trickplay playlists

A row of trickplay data is stored by one of three writers: tiles are generated from images, or
tiles that are on disk are imported or discovered.  The playlist is made from the row alone.  It
covers the tiles on disk exactly where the count of the thumbnails and one full tile together fit
an `i32`, and an imported folder has one file or tiles of one thumbnail (`playlist_covers_iff`).
-/

namespace Ferrofin.Trickplay

open Util
open Option (bind_eq_some_iff map_eq_some_iff)

structure TrickplayInfoEntity where
  width : ℤ
  interval : ℤ
  tileWidth : ℤ
  tileHeight : ℤ
  thumbnailCount : ℤ
  height : ℤ
deriving DecidableEq

structure TrickplayOptions where
  interval : ℤ
  tileWidth : ℤ
  tileHeight : ℤ

/-- The result of `i32` arithmetic, `none` where it leaves the range. -/
def checked (n : ℤ) : Option ℤ := if -2 ^ 31 ≤ n ∧ n < 2 ^ 31 then some n else none

/-- `i32::try_from(n).unwrap_or(i32::MAX)`. -/
def saturated (n : ℕ) : ℤ := min n (2 ^ 31 - 1)

/-! ### The playlist -/

/-- One tile of a playlist: `{index}.jpg`, and how many thumbnails are attributed to it. -/
structure Tile where
  index : ℕ
  thumbnails : ℤ
deriving DecidableEq

structure HlsPlaylist where
  targetDuration : ℤ
  resolution : ℤ × ℤ
  layout : ℤ × ℤ
  interval : ℤ
  tiles : List Tile

namespace TrickplayInfoEntity

variable (info : TrickplayInfoEntity)

def perTile (tileCount thumbnailsPerTile : ℤ) (i : ℕ) : Option Tile := do
  let last ← checked (tileCount - 1)
  if i = last then
    let before ← checked (i * thumbnailsPerTile)
    let rest ← checked (info.thumbnailCount - before)
    return ⟨i, rest⟩
  else return ⟨i, thumbnailsPerTile⟩

/-- `get_hls_playlist` of a row: `none` where arithmetic leaves the range of an `i32`. -/
def getHlsPlaylist : Option (Option HlsPlaylist) := do
  if info.thumbnailCount ≤ 0 then return none
  else
    let thumbnailsPerTile ← checked (info.tileWidth * info.tileHeight)
    if thumbnailsPerTile ≤ 0 then return none
    else
      let padded ← checked (info.thumbnailCount + thumbnailsPerTile)
      let padded ← checked (padded - 1)
      let tileCount := padded / thumbnailsPerTile
      let tiles ← (List.range tileCount.toNat).mapM (info.perTile tileCount thumbnailsPerTile)
      return some
        { targetDuration := tileCount
          resolution := (info.width, info.height)
          layout := (info.tileWidth, info.tileHeight)
          interval := info.interval
          tiles := tiles }

end TrickplayInfoEntity

/-! ### The writers -/

def chunks {α : Type*} (n : ℕ) (l : List α) : List (List α) :=
  (List.range ((l.length + n - 1) / n)).map fun i => (l.drop (i * n)).take n

/-- `create_tiles`, where the encoder gives the height of a thumbnail of each tile: the row, and the
images of each tile on disk. -/
def createTiles {Image : Type*} (encode : List Image → ℤ) (images : List Image) (width : ℤ)
    (options : TrickplayOptions) : Option (TrickplayInfoEntity × List (List Image)) :=
  if images = [] then none
  else
    let thumbnailsPerTile := options.tileWidth.toNat * options.tileHeight.toNat
    if thumbnailsPerTile = 0 then none
    else
      let tiles := chunks thumbnailsPerTile images
      some ({ width := width
              interval := options.interval
              tileWidth := options.tileWidth
              tileHeight := options.tileHeight
              thumbnailCount := saturated images.length
              height := tiles.foldl (fun height tile => if height = 0 then encode tile else height)
                0 }, tiles)

def ceilDiv (a b : ℤ) : Option ℤ := do
  if b ≤ 0 then return 0
  else
    let sum ← checked (a + b)
    let sum ← checked (sum - 1)
    return sum.tdiv b

def importTiles (width : ℤ) (options : TrickplayOptions) (existingFiles : List ℤ) :
    Option (TrickplayInfoEntity × List ℤ) := do
  let height ← existingFiles.foldlM (fun height size => do
    return max height (← ceilDiv size options.tileHeight)) 0
  return ({ width := width
            interval := options.interval
            tileWidth := options.tileWidth
            tileHeight := options.tileHeight
            thumbnailCount := saturated existingFiles.length
            height := height }, existingFiles)

def discoveredTiming (rounding : F64.Rounding) (runtimeTicks : Option ℤ) (files : ℕ)
    (tileWidth tileHeight configuredInterval : ℤ) : Option (ℤ × ℤ) := do
  let capacity ← (checked (tileWidth * tileHeight)).filter (0 < ·)
  let files ← (checked files).filter (0 < ·)
  let maximum ← checked (files * capacity)
  let _ ← checked (maximum + (capacity - 1))
  let below ← checked ((files - 1) * capacity)
  let minimum ← checked (below + 1)
  match runtimeTicks with
  | none => return (max configuredInterval 1000, maximum)
  | some runtimeTicks =>
    let runtimeMs := rounding.round (max (runtimeTicks.tdiv 10000) 0 : ℤ)
    let minInterval := ((F64.div rounding runtimeMs (.ofInt maximum)).ceil).max (.ofInt 1000)
    let maxInterval := ((F64.div rounding runtimeMs (.ofInt minimum)).floor).max minInterval
    let configured := F64.ofInt configuredInterval
    let interval ←
      (if minInterval.le configured ∧ configured.le maxInterval then some configured
      else
        let middle := F64.div rounding (F64.midpoint rounding minInterval maxInterval) (.ofInt 1000)
        (F64.mulInt rounding middle.roundTiesEven 1000).clamp minInterval maxInterval)
    if (F64.ofInt (2 ^ 31 - 1)).le interval ∧ ¬interval.le (.ofInt (2 ^ 31 - 1)) then none
    else
      let count ← (F64.div rounding runtimeMs interval).roundTiesEven.clamp (.ofInt minimum)
        (.ofInt maximum)
      return (interval.toI32, count.toI32)

/-- `discover_existing_trickplay` of one folder, where the files are given by the heights of their
images. -/
def discoverTiles (rounding : F64.Rounding) (runtimeTicks : Option ℤ)
    (width tileWidth tileHeight : ℤ) (options : TrickplayOptions) (tiles : List ℤ) :
    Option (TrickplayInfoEntity × List ℤ) := do
  let first ← tiles.head?
  let (interval, thumbnailCount) ← discoveredTiming rounding runtimeTicks tiles.length tileWidth
    tileHeight options.interval
  let height ← ceilDiv first tileHeight
  return ({ width := width
            interval := interval
            tileWidth := tileWidth
            tileHeight := tileHeight
            thumbnailCount := thumbnailCount
            height := max height 1 }, tiles)

inductive Writer (Image : Type*)
  | generation (encode : List Image → ℤ) (images : List Image) (width : ℤ)
      (options : TrickplayOptions)
  | importing (width : ℤ) (options : TrickplayOptions) (existingFiles : List ℤ)
  | discovery (rounding : F64.Rounding) (runtimeTicks : Option ℤ)
      (width tileWidth tileHeight : ℤ) (options : TrickplayOptions) (tiles : List ℤ)

/-- The row that a writer stores, and how many tiles are on disk then; there is nothing to import
where there are no files. -/
def Writer.stored {Image : Type*} : Writer Image → Option (TrickplayInfoEntity × ℕ)
  | generation encode images width options =>
    (createTiles encode images width options).map fun (info, tiles) => (info, tiles.length)
  | importing width options existingFiles =>
    if existingFiles = [] then none
    else (importTiles width options existingFiles).map fun (info, tiles) => (info, tiles.length)
  | discovery rounding runtimeTicks width tileWidth tileHeight options tiles =>
    (discoverTiles rounding runtimeTicks width tileWidth tileHeight options tiles).map
      fun (info, tiles) => (info, tiles.length)

/-! ### What a playlist covers -/

theorem checked_of {n : ℤ} (hlow : -2 ^ 31 ≤ n) (hhigh : n < 2 ^ 31) : checked n = some n :=
  if_pos ⟨hlow, hhigh⟩

theorem checked_of_le {n : ℤ} (h : 2 ^ 31 ≤ n) : checked n = none := if_neg (by omega)

theorem eq_of_checked {n m : ℤ} (h : checked n = some m) : m = n ∧ n < 2 ^ 31 := by
  unfold checked at h
  split at h
  · next hrange => exact ⟨(Option.some.inj h).symm, hrange.2⟩
  · cases h

theorem mapM_eq_map {α β : Type} {f : α → Option β} {g : α → β} {l : List α}
    (h : ∀ a ∈ l, f a = some (g a)) : l.mapM f = some (l.map g) := by
  induction l with
  | nil => rfl
  | cons a l ih =>
    rw [List.mapM_cons, h a (List.mem_cons_self ..),
      ih fun b hb => h b (List.mem_cons_of_mem _ hb)]
    rfl

theorem ediv_eq_of {a b q : ℤ} (hb : 0 < b) (hlow : q * b ≤ a) (hhigh : a < (q + 1) * b) :
    a / b = q :=
  le_antisymm (Int.lt_add_one_iff.mp ((Int.ediv_lt_iff_lt_mul hb).mpr hhigh))
    ((Int.le_ediv_iff_mul_le hb).mpr hlow)

namespace TrickplayInfoEntity

variable {info : TrickplayInfoEntity}

def capacity (info : TrickplayInfoEntity) : ℤ := info.tileWidth * info.tileHeight

def tilesOf (info : TrickplayInfoEntity) (n : ℕ) : List Tile :=
  (List.range n).map fun i =>
    ⟨i, if i + 1 = n then info.thumbnailCount - i * info.capacity else info.capacity⟩

theorem tilesOf_succ (m : ℕ) : info.tilesOf (m + 1) =
    ((List.range m).map fun i => ⟨i, info.capacity⟩) ++
      [⟨m, info.thumbnailCount - m * info.capacity⟩] := by
  unfold tilesOf
  rw [List.range_succ, List.map_append, List.map_singleton, if_pos rfl]
  congr 1
  refine List.map_congr_left fun i hi => ?_
  have hlt := List.mem_range.mp hi
  rw [if_neg (by omega)]

theorem map_index_tilesOf (n : ℕ) : (info.tilesOf n).map (·.index) = List.range n := by
  unfold tilesOf
  rw [List.map_map]
  exact List.map_id _

theorem sum_tilesOf (m : ℕ) :
    ((info.tilesOf (m + 1)).map (·.thumbnails)).sum = info.thumbnailCount := by
  rw [tilesOf_succ, List.map_append, List.map_map, List.sum_append]
  have hfull : ((List.range m).map ((·.thumbnails) ∘ fun i => (⟨i, info.capacity⟩ : Tile))).sum =
      m * info.capacity := by
    rw [show ((·.thumbnails) ∘ fun i => (⟨i, info.capacity⟩ : Tile)) =
      Function.const ℕ info.capacity from rfl, List.map_const, List.sum_replicate,
      List.length_range, nsmul_eq_mul]
  rw [hfull]
  simp

theorem tilesOf_full {m : ℕ} {tile : Tile} (h : tile ∈ (info.tilesOf (m + 1)).dropLast) :
    tile.thumbnails = info.capacity := by
  rw [tilesOf_succ, List.dropLast_concat] at h
  obtain ⟨i, -, rfl⟩ := List.mem_map.mp h
  rfl

def tileCount (info : TrickplayInfoEntity) : ℤ :=
  (info.thumbnailCount + info.capacity - 1) / info.capacity

theorem tileCount_mul_le (hcapacity : 0 < info.capacity) : info.tileCount * info.capacity ≤
    info.thumbnailCount + info.capacity - 1 := Int.ediv_mul_le _ hcapacity.ne'

theorem lt_tileCount_mul (hcapacity : 0 < info.capacity) :
    info.thumbnailCount ≤ info.tileCount * info.capacity := by
  have h := Int.lt_ediv_add_one_mul_self (info.thumbnailCount + info.capacity - 1) hcapacity
  rw [add_mul, one_mul] at h
  unfold tileCount
  omega

variable (hcount : 0 < info.thumbnailCount) (hcapacity : 0 < info.capacity)
include hcount hcapacity

theorem tileCount_pos : 0 < info.tileCount :=
  Int.lt_of_lt_of_le Int.zero_lt_one ((Int.le_ediv_iff_mul_le hcapacity).mpr (by omega))

theorem tileCount_le : info.tileCount ≤ info.thumbnailCount + info.capacity - 1 :=
  Int.ediv_le_self _ (by omega)

theorem perTile_eq (hfits : info.thumbnailCount + info.capacity < 2 ^ 31) {i : ℕ}
    (hi : i < info.tileCount.toNat) : info.perTile info.tileCount info.capacity i =
      some ⟨i, if i + 1 = info.tileCount.toNat then info.thumbnailCount - i * info.capacity
        else info.capacity⟩ := by
  have hpos := tileCount_pos hcount hcapacity
  have hle := tileCount_le hcount hcapacity
  have hmul := tileCount_mul_le hcapacity
  have hlt := lt_tileCount_mul hcapacity
  unfold perTile
  rw [checked_of (by omega) (by omega)]
  change (if (i : ℤ) = info.tileCount - 1 then _ else _) = _
  by_cases hlast : i + 1 = info.tileCount.toNat
  · have hi : (i : ℤ) = info.tileCount - 1 := by omega
    have hbefore : (i : ℤ) * info.capacity = info.tileCount * info.capacity - info.capacity := by
      rw [hi, sub_mul, one_mul]
    rw [if_pos hi, if_pos hlast, checked_of (n := (i : ℤ) * info.capacity) (by omega) (by omega)]
    change (checked (info.thumbnailCount - i * info.capacity) >>= _) = _
    rw [checked_of (by omega) (by omega)]
    rfl
  · rw [if_neg (by omega), if_neg hlast]
    rfl

/-- **The playlist of a row that fits.** -/
theorem getHlsPlaylist_eq (hfits : info.thumbnailCount + info.capacity < 2 ^ 31) :
    ∃ playlist, info.getHlsPlaylist = some (some playlist) ∧
      playlist.tiles = info.tilesOf info.tileCount.toNat := by
  have hrow : info.getHlsPlaylist = (do
      let tiles ← (List.range info.tileCount.toNat).mapM
        (info.perTile info.tileCount info.capacity)
      return some
        { targetDuration := info.tileCount
          resolution := (info.width, info.height)
          layout := (info.tileWidth, info.tileHeight)
          interval := info.interval
          tiles := tiles }) := by
    unfold getHlsPlaylist
    rw [if_neg (by omega), show info.tileWidth * info.tileHeight = info.capacity from rfl,
      checked_of (n := info.capacity) (by omega) (by omega)]
    change (if info.capacity ≤ 0 then _ else _) = _
    rw [if_neg (by omega), checked_of (by omega) hfits]
    change (checked (info.thumbnailCount + info.capacity - 1) >>= _) = _
    rw [checked_of (by omega) (by omega)]
    rfl
  rw [hrow, mapM_eq_map fun i hi => perTile_eq hcount hcapacity hfits (List.mem_range.mp hi)]
  exact ⟨_, rfl, rfl⟩

theorem getHlsPlaylist_eq_none (hbig : 2 ^ 31 ≤ info.thumbnailCount + info.capacity) :
    info.getHlsPlaylist = none := by
  unfold getHlsPlaylist
  rw [if_neg (by omega), show info.tileWidth * info.tileHeight = info.capacity from rfl]
  by_cases hfit : info.capacity < 2 ^ 31
  · rw [checked_of (by omega) hfit]
    change (if info.capacity ≤ 0 then _ else _) = _
    rw [if_neg (by omega), checked_of_le hbig]
    rfl
  · rw [checked_of_le (by omega)]
    rfl

omit hcount hcapacity

/-- The playlist of a row covers so many tiles: they are listed from 0 on, and the thumbnails
attributed to them are those of the row, all tiles but the last one being full. -/
def CoversTiles (info : TrickplayInfoEntity) (n : ℕ) : Prop :=
  ∃ playlist, info.getHlsPlaylist = some (some playlist) ∧
    playlist.tiles.map (·.index) = List.range n ∧
    (playlist.tiles.map (·.thumbnails)).sum = info.thumbnailCount ∧
    ∀ tile ∈ playlist.tiles.dropLast, tile.thumbnails = info.capacity

/-- **What the playlist of a row covers.** -/
theorem coversTiles_iff (hcount : 0 < info.thumbnailCount) (hcapacity : 0 < info.capacity)
    {n : ℕ} : info.CoversTiles n ↔
      info.thumbnailCount + info.capacity < 2 ^ 31 ∧ info.tileCount = n := by
  constructor
  · rintro ⟨playlist, hplaylist, hindex, -⟩
    have hfits : info.thumbnailCount + info.capacity < 2 ^ 31 := by
      refine Decidable.byContradiction fun hbig => ?_
      rw [getHlsPlaylist_eq_none hcount hcapacity (by omega)] at hplaylist
      cases hplaylist
    refine ⟨hfits, ?_⟩
    obtain ⟨playlist', hplaylist', htiles⟩ := getHlsPlaylist_eq hcount hcapacity hfits
    rw [hplaylist] at hplaylist'
    cases hplaylist'
    rw [htiles, map_index_tilesOf] at hindex
    have hlength := congrArg List.length hindex
    rw [List.length_range, List.length_range] at hlength
    have hpos := tileCount_pos hcount hcapacity
    omega
  · rintro ⟨hfits, hn⟩
    obtain ⟨playlist, hplaylist, htiles⟩ := getHlsPlaylist_eq hcount hcapacity hfits
    have hpos := tileCount_pos hcount hcapacity
    obtain ⟨m, rfl⟩ : ∃ m, n = m + 1 := ⟨n - 1, by omega⟩
    have htoNat : info.tileCount.toNat = m + 1 := by omega
    rw [htoNat] at htiles
    refine ⟨playlist, hplaylist, ?_, ?_, ?_⟩
    · rw [htiles, map_index_tilesOf]
    · rw [htiles, sum_tilesOf]
    · rw [htiles]
      exact fun tile htile => tilesOf_full htile

theorem tileCount_eq (hcapacity : 0 < info.capacity) {n : ℕ}
    (hlow : (n - 1) * info.capacity + 1 ≤ info.thumbnailCount)
    (hhigh : info.thumbnailCount ≤ n * info.capacity) : info.tileCount = n := by
  refine ediv_eq_of hcapacity ?_ ?_
  · rw [sub_mul, one_mul] at hlow
    omega
  · rw [add_mul, one_mul]
    omega

end TrickplayInfoEntity

/-! ### What the writers store -/

theorem saturated_eq {n : ℕ} {m : ℤ} (hm : 0 < m) (h : saturated n + m < 2 ^ 31) :
    saturated n = n := by
  unfold saturated at h ⊢
  omega

theorem createTiles_spec {Image : Type*} {encode : List Image → ℤ} {images : List Image}
    {width : ℤ} {options : TrickplayOptions} {info : TrickplayInfoEntity}
    {tiles : List (List Image)}
    (h : createTiles encode images width options = some (info, tiles))
    (hgrid : 0 < info.tileWidth ∧ 0 < info.tileHeight) :
    0 < info.thumbnailCount ∧
      (info.thumbnailCount + info.capacity < 2 ^ 31 → info.tileCount = tiles.length) := by
  unfold createTiles at h
  split at h
  · cases h
  · next himages =>
    dsimp only at h
    split at h
    · cases h
    · next hper =>
      cases h
      have hlength : 0 < images.length := List.length_pos_of_ne_nil himages
      have hcapacity : ((options.tileWidth.toNat * options.tileHeight.toNat : ℕ) : ℤ) =
          options.tileWidth * options.tileHeight := by
        rw [Nat.cast_mul, Int.toNat_of_nonneg hgrid.1.le, Int.toNat_of_nonneg hgrid.2.le]
      have hpos : 0 < options.tileWidth * options.tileHeight := Int.mul_pos hgrid.1 hgrid.2
      refine ⟨?_, fun hfits => ?_⟩
      · change 0 < saturated images.length
        unfold saturated
        omega
      · have hcount := saturated_eq hpos hfits
        unfold TrickplayInfoEntity.tileCount TrickplayInfoEntity.capacity chunks
        rw [List.length_map, List.length_range, Int.natCast_ediv, hcapacity, ← hcapacity]
        dsimp only
        rw [hcount]
        congr 1
        omega

theorem importTiles_spec {width : ℤ} {options : TrickplayOptions} {existingFiles : List ℤ}
    {info : TrickplayInfoEntity} {tiles : List ℤ}
    (h : importTiles width options existingFiles = some (info, tiles)) :
    tiles = existingFiles ∧ info.thumbnailCount = saturated existingFiles.length := by
  unfold importTiles at h
  obtain ⟨height, -, hinfo⟩ := bind_eq_some_iff.mp h
  cases hinfo
  exact ⟨rfl, rfl⟩

theorem tileCount_eq_iff_of_files {info : TrickplayInfoEntity} {n : ℕ} (hn : 0 < n)
    (hcapacity : 0 < info.capacity) (hcount : info.thumbnailCount = n) :
    info.tileCount = n ↔ n = 1 ∨ info.capacity = 1 := by
  constructor
  · intro h
    refine or_iff_not_imp_left.mpr fun hne => ?_
    have hmul := info.tileCount_mul_le hcapacity
    rw [h, hcount] at hmul
    have hprod : ((n : ℤ) - 1) * (info.capacity - 1) ≤ 0 := by
      rw [sub_mul, mul_sub]
      omega
    have hle : info.capacity - 1 ≤ 0 := by
      refine Int.not_lt.mp fun hlt => ?_
      have hpos := Int.mul_pos (show 0 < (n : ℤ) - 1 by omega) hlt
      omega
    omega
  · rintro (rfl | hone)
    · exact TrickplayInfoEntity.tileCount_eq hcapacity (by simp [hcount])
        (by rw [hcount]; push_cast; omega)
    · exact TrickplayInfoEntity.tileCount_eq hcapacity (by rw [hone, hcount]; omega)
        (by rw [hone, hcount]; omega)

theorem le_chosen {rounding : F64.Rounding} {low high configured interval : F64}
    (hlow : low.NonNeg) (hhigh : high.NonNeg)
    (h : (if low.le configured ∧ configured.le high then some configured
      else (F64.mulInt rounding (F64.div rounding (F64.midpoint rounding low high)
        (.ofInt 1000)).roundTiesEven 1000).clamp low high) = some interval) :
    low.le interval := by
  split at h
  · next hbetween =>
    cases h
    exact hbetween.1
  · have hmiddle : (F64.div rounding (F64.midpoint rounding low high)
        (.ofInt 1000)).roundTiesEven.NonNeg :=
      ((hlow.midpoint hhigh).div (show (0 : ℚ) < ((1000 : ℤ) : ℚ) by norm_num)).roundTiesEven
    exact (F64.clamp_le (hmiddle.mulInt (by norm_num)).ne_nan h).1

/-- Between the least interval and the greatest `i32` a double is a positive number. -/
theorem exists_finite {interval : F64} (hlow : (F64.ofInt 1000).le interval)
    (hhigh : ¬((F64.ofInt (2 ^ 31 - 1)).le interval ∧ ¬interval.le (.ofInt (2 ^ 31 - 1)))) :
    ∃ q : ℚ, 0 < q ∧ interval = .finite q := by
  cases interval with
  | nan => exact hlow.elim
  | negInfinity => exact hlow.elim
  | infinity => exact absurd ⟨trivial, id⟩ hhigh
  | finite q =>
    have hq : ((1000 : ℤ) : ℚ) ≤ q := hlow
    exact ⟨q, lt_of_lt_of_le (by norm_num) hq, rfl⟩

theorem discoveredTiming_spec {rounding : F64.Rounding} {runtimeTicks : Option ℤ} {files : ℕ}
    {tileWidth tileHeight configuredInterval interval count : ℤ}
    (h : discoveredTiming rounding runtimeTicks files tileWidth tileHeight configuredInterval =
      some (interval, count)) :
    0 < files ∧ ((files : ℤ) - 1) * (tileWidth * tileHeight) + 1 ≤ count ∧
      count ≤ files * (tileWidth * tileHeight) := by
  unfold discoveredTiming at h
  obtain ⟨capacity, hcapacity, h⟩ := bind_eq_some_iff.mp h
  obtain ⟨hcapacity, hpos⟩ := Option.filter_eq_some_iff.mp hcapacity
  obtain ⟨rfl, -⟩ := eq_of_checked hcapacity
  have hpos := of_decide_eq_true hpos
  obtain ⟨files', hfiles, h⟩ := bind_eq_some_iff.mp h
  obtain ⟨hfiles, hfilesPos⟩ := Option.filter_eq_some_iff.mp hfiles
  obtain ⟨rfl, -⟩ := eq_of_checked hfiles
  have hfilesPos := of_decide_eq_true hfilesPos
  obtain ⟨maximum, hmaximum, h⟩ := bind_eq_some_iff.mp h
  obtain ⟨rfl, hmaxLt⟩ := eq_of_checked hmaximum
  obtain ⟨padded, -, h⟩ := bind_eq_some_iff.mp h
  obtain ⟨below, hbelow, h⟩ := bind_eq_some_iff.mp h
  obtain ⟨rfl, -⟩ := eq_of_checked hbelow
  obtain ⟨minimum, hminimum, h⟩ := bind_eq_some_iff.mp h
  obtain ⟨rfl, -⟩ := eq_of_checked hminimum
  have hbelow : 0 ≤ ((files : ℤ) - 1) * (tileWidth * tileHeight) :=
    Int.mul_nonneg (by omega) hpos.le
  have hle : ((files : ℤ) - 1) * (tileWidth * tileHeight) + 1 ≤
      files * (tileWidth * tileHeight) := by
    rw [sub_mul, one_mul]
    omega
  refine ⟨by omega, ?_⟩
  cases runtimeTicks with
  | none =>
    cases h
    exact ⟨hle, Int.le_refl _⟩
  | some runtimeTicks =>
    obtain ⟨chosen, hchosen, h⟩ := bind_eq_some_iff.mp h
    have hms : (rounding.round ((max (runtimeTicks.tdiv 10000) 0 : ℤ) : ℚ)).NonNeg :=
      rounding.nonneg _ (Int.cast_nonneg (le_max_right ..))
    generalize rounding.round ((max (runtimeTicks.tdiv 10000) 0 : ℤ) : ℚ) = runtimeMs
      at hms hchosen h
    have hthousand : (F64.ofInt 1000).NonNeg := show (0 : ℚ) ≤ ((1000 : ℤ) : ℚ) by norm_num
    have hlow := hthousand.max
      (F64.div rounding runtimeMs (.ofInt (files * (tileWidth * tileHeight)))).ceil
    have hleast := F64.le_trans (F64.le_max_right _ hthousand.ne_nan)
      (le_chosen hlow (hlow.max _) hchosen)
    split at h
    · cases h
    · next hhigh =>
      obtain ⟨q, hq, rfl⟩ := exists_finite hleast hhigh
      obtain ⟨clamped, hclamped, h⟩ := bind_eq_some_iff.mp h
      cases h
      obtain ⟨hmin, hmax⟩ := F64.clamp_le (hms.div hq).roundTiesEven.ne_nan hclamped
      exact F64.toI32_between hmin hmax (by omega) hmaxLt

theorem discoverTiles_spec {rounding : F64.Rounding} {runtimeTicks : Option ℤ}
    {width tileWidth tileHeight : ℤ} {options : TrickplayOptions} {files tiles : List ℤ}
    {info : TrickplayInfoEntity}
    (h : discoverTiles rounding runtimeTicks width tileWidth tileHeight options files =
      some (info, tiles))
    (hcapacity : 0 < info.capacity) :
    0 < info.thumbnailCount ∧ info.tileCount = tiles.length := by
  unfold discoverTiles at h
  obtain ⟨first, -, h⟩ := bind_eq_some_iff.mp h
  obtain ⟨⟨interval, count⟩, htiming, h⟩ := bind_eq_some_iff.mp h
  obtain ⟨height, -, h⟩ := bind_eq_some_iff.mp h
  cases h
  obtain ⟨hfiles, hlow, hhigh⟩ := discoveredTiming_spec htiming
  have hbelow : 0 ≤ ((files.length : ℤ) - 1) * (tileWidth * tileHeight) :=
    Int.mul_nonneg (by omega) hcapacity.le
  refine ⟨?_, TrickplayInfoEntity.tileCount_eq hcapacity hlow hhigh⟩
  change 0 < count
  omega

def Writer.CountsThumbnails {Image : Type*} : Writer Image → Prop
  | importing _ options existingFiles =>
    existingFiles.length = 1 ∨ options.tileWidth * options.tileHeight = 1
  | _ => True

/-- **The playlist covers the tiles on disk** exactly where the thumbnails and one full tile
together fit, and thumbnails were counted. -/
theorem playlist_covers_iff {Image : Type*} (writer : Writer Image) {info : TrickplayInfoEntity}
    {n : ℕ} (hstored : writer.stored = some (info, n))
    (hgrid : 0 < info.tileWidth ∧ 0 < info.tileHeight) :
    info.CoversTiles n ↔
      info.thumbnailCount + info.tileWidth * info.tileHeight < 2 ^ 31 ∧
        writer.CountsThumbnails := by
  have hcapacity : 0 < info.capacity := Int.mul_pos hgrid.1 hgrid.2
  cases writer with
  | generation encode images width options =>
    obtain ⟨⟨info, tiles⟩, htiles, hpair⟩ := map_eq_some_iff.mp hstored
    cases hpair
    obtain ⟨hcount, hcovers⟩ := createTiles_spec htiles hgrid
    rw [TrickplayInfoEntity.coversTiles_iff hcount hcapacity]
    exact and_congr_right fun hfits => iff_of_true (hcovers hfits) trivial
  | importing width options existingFiles =>
    rw [Writer.stored] at hstored
    by_cases hfiles : existingFiles = []
    · rw [if_pos hfiles] at hstored
      cases hstored
    · rw [if_neg hfiles] at hstored
      obtain ⟨⟨info, tiles⟩, htiles, hpair⟩ := map_eq_some_iff.mp hstored
      cases hpair
      obtain ⟨rfl, hcount⟩ := importTiles_spec htiles
      have hlength : 0 < tiles.length := List.length_pos_of_ne_nil hfiles
      have hpos : 0 < info.thumbnailCount := by
        rw [hcount]
        unfold saturated
        omega
      rw [TrickplayInfoEntity.coversTiles_iff hpos hcapacity]
      refine and_congr_right fun hfits => ?_
      rw [hcount] at hfits
      have hgridOf : info.capacity = options.tileWidth * options.tileHeight := by
        unfold importTiles at htiles
        obtain ⟨height, -, hinfo⟩ := bind_eq_some_iff.mp htiles
        cases hinfo
        rfl
      rw [tileCount_eq_iff_of_files hlength hcapacity
        (hcount.trans (saturated_eq hcapacity hfits)), hgridOf]
      exact Iff.rfl
  | discovery rounding runtimeTicks width tileWidth tileHeight options files =>
    obtain ⟨⟨info, tiles⟩, htiles, hpair⟩ := map_eq_some_iff.mp hstored
    cases hpair
    obtain ⟨hcount, hcovers⟩ := discoverTiles_spec htiles hcapacity
    rw [TrickplayInfoEntity.coversTiles_iff hcount hcapacity]
    exact and_congr_right fun _ => iff_of_true hcovers trivial

/-- Six images in tiles of two times two. -/
theorem playlist_covers_six_images :
    TrickplayInfoEntity.CoversTiles ⟨320, 10000, 2, 2, 6, 180⟩ 2 :=
  (playlist_covers_iff (.generation (fun _ => 180) (List.range 6) 320 ⟨10000, 2, 2⟩) rfl
    (by decide)).mpr ⟨by decide, trivial⟩

/-- Of two imported tiles of two times two thumbnails each the playlist lists one. -/
theorem imported_tile_not_listed : ∃ info,
    (Writer.importing 320 ⟨10000, 2, 2⟩ [360, 360] : Writer ℕ).stored = some (info, 2) ∧
      ¬info.CoversTiles 2 := by
  refine ⟨⟨320, 10000, 2, 2, 2, 180⟩, by decide, fun h => ?_⟩
  have htwo := ((TrickplayInfoEntity.coversTiles_iff (by decide) (by decide)).mp h).2
  exact absurd htwo (by decide)

/-- A discovered tile whose thumbnails fit, but not together with a full tile. -/
example : TrickplayInfoEntity.getHlsPlaylist ⟨320, 1000, 32768, 32768, 2 ^ 30, 1⟩ = none :=
  TrickplayInfoEntity.getHlsPlaylist_eq_none (by decide) (by decide) (by decide)

end Ferrofin.Trickplay
