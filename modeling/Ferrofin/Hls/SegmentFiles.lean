import Ferrofin.Transcode.Jobs
import Ferrofin.Util.Decimal
import Ferrofin.Util.Paths

/-!
# The names of the files of a transcode

Where a transcode writes (`playlistPath`), and what is on disk of it.  A file is
named by the output it belongs to and by what it is: the names of two outputs are
of one length and so do not run into each other.

A playlist is named by its output id, and a segment of it by the playlist's stem, its
number and the extension of its container.  The init segment has the number `-1`.
-/

namespace Ferrofin.Hls

open Transcode Util

/-! ### Paths -/

/-- The digits of `{:x}`. -/
def hexDigits : List Char :=
  ['0', '1', '2', '3', '4', '5', '6', '7', '8', '9', 'a', 'b', 'c', 'd', 'e', 'f']

/-- `format!("{:016x}", hash)`. -/
def hex16 (hash : UInt64) : List Char :=
  (List.range 16).map fun i => hexDigits.getD (hash.toNat / 16 ^ (15 - i) % 16) '0'

/-- `transcode_root.join(format!("{output_id}.m3u8"))`. -/
def playlistPath (root : String) (outputId : UInt64) : String :=
  root ++ "/" ++ String.ofList (hex16 outputId) ++ ".m3u8"

theorem toLower_of_mem_hexDigits : ∀ c ∈ hexDigits, c.toLower = c :=
  List.map_inj_left.mp (show hexDigits.map Char.toLower = hexDigits.map id from rfl)

theorem map_toLower_hex16 (hash : UInt64) : (hex16 hash).map Char.toLower = hex16 hash := by
  rw [hex16, List.map_map]
  refine List.map_congr_left fun i _ => ?_
  rw [Function.comp_apply]
  refine toLower_of_mem_hexDigits _ ?_
  have hlt : hash.toNat / 16 ^ (15 - i) % 16 < hexDigits.length := Nat.mod_lt _ (by decide)
  rw [List.getD_eq_getElem?_getD, List.getElem?_eq_getElem hlt, Option.getD_some]
  exact List.getElem_mem hlt

/-- **The case of a playlist's path does not matter.** -/
theorem playlistPath_eq_of_eqIgnoreAsciiCase {root : String} {a b : UInt64}
    (h : eqIgnoreAsciiCase (playlistPath root a) (playlistPath root b) = true) :
    playlistPath root a = playlistPath root b := by
  rw [eqIgnoreAsciiCase_iff] at h
  simp only [asciiLowercase, playlistPath, String.toList_append, List.map_append,
    String.toList_ofList, map_toLower_hex16] at h
  have hhex : hex16 a = hex16 b := List.append_cancel_left (List.append_cancel_right h)
  rw [playlistPath, playlistPath, hhex]

/-! ### Files -/

/-- A file of an output: the playlist, the fMP4 init segment, which ffmpeg creates
empty, a segment, or one under its `.tmp` name. -/
inductive OutputFile where
  | playlist
  | init (filled : Bool)
  | segment (index : Int)
  | tmp (index : Int)
deriving DecidableEq

/-- The number in a segment's name; the init segment's is `-1`. -/
def OutputFile.index : OutputFile → Option Int
  | .playlist => none
  | .init _ => some (-1)
  | .segment index | .tmp index => some index

abbrev Disk := List (UInt64 × OutputFile)

def currentTranscodingIndex (disk : Disk) (outputId : UInt64) : Option Int :=
  ((disk.filter fun f => f.1 = outputId).filterMap fun f => f.2.index).max?

def segmentWaitGap : Int := 2

/-- `should_wait_for_running_job`.  The difference is an `i32` and wraps. -/
def shouldWaitForRunningJob (current : Option Int) (segmentId : Int) : Bool :=
  match current with
  | none => true
  | some c => segmentId ≥ c && (segmentId - c).bmod (2 ^ 32) ≤ segmentWaitGap

def segmentExtension (segmentContainer : String) : Path :=
  if eqIgnoreAsciiCase (trim segmentContainer) "mp4" then ".mp4".toList else ".ts".toList

def segmentName (stem : Path) (index : Int) (extension : Path) : Path :=
  stem ++ decimal index ++ extension

def segmentFile (playlist : Path) (index : Int) (extension : Path) : Path :=
  join ((parent playlist).getD []) (segmentName ((fileStem playlist).getD []) index extension)

theorem segmentExtension_eq (segmentContainer : String) :
    ∃ e : Path, segmentExtension segmentContainer = '.' :: e ∧ '.' ∉ e ∧ '/' ∉ e := by
  unfold segmentExtension
  split
  · exact ⟨"mp4".toList, rfl, by decide, by decide⟩
  · exact ⟨"ts".toList, rfl, by decide, by decide⟩

theorem length_hex16 (hash : UInt64) : (hex16 hash).length = 16 := by
  simp [hex16]

theorem mem_hexDigits_of_mem_hex16 {hash : UInt64} {c : Char} (h : c ∈ hex16 hash) :
    c ∈ hexDigits := by
  obtain ⟨i, -, rfl⟩ := List.mem_map.mp h
  have hlt : hash.toNat / 16 ^ (15 - i) % 16 < hexDigits.length := Nat.mod_lt _ (by decide)
  rw [List.getD_eq_getElem?_getD, List.getElem?_eq_getElem hlt, Option.getD_some]
  exact List.getElem_mem hlt

/-- A text that begins like an output id is neither empty, nor only dots. -/
theorem isName_hex16_append (hash : UInt64) {rest : Path} (h : '/' ∉ rest) :
    IsName (hex16 hash ++ rest) := by
  have hlength : 16 ≤ (hex16 hash ++ rest).length := by
    rw [List.length_append, length_hex16]
    omega
  refine ⟨fun hmem => ?_, ?_, fun he => ?_⟩
  · rcases List.mem_append.mp hmem with hmem | hmem
    · exact absurd (mem_hexDigits_of_mem_hex16 hmem) (by decide)
    · exact h hmem
  · rw [isBlank, Bool.or_eq_false_iff, beq_eq_false_iff_ne, beq_eq_false_iff_ne]
    exact ⟨fun he => by simp [he] at hlength, fun he => by simp [he] at hlength⟩
  · simp [he] at hlength

theorem fileStem_playlistPath (root : String) (hash : UInt64) :
    fileStem (playlistPath root hash).toList = some (hex16 hash) := by
  have hpath : (playlistPath root hash).toList =
      root.toList ++ '/' :: (hex16 hash ++ '.' :: "m3u8".toList) := by
    simp [playlistPath]
  have hne : hex16 hash ≠ [] := fun he => by
    have := length_hex16 hash
    simp [he] at this
  rw [fileStem, hpath, (isName_hex16_append hash (by decide)).fileName_append, Option.map_some,
    splitAtDot_append hne (by decide)]

theorem not_mem_decimal {n : Int} {c : Char} (hdigit : c.isDigit = false) (hsign : c ≠ '-') :
    c ∉ decimal n := fun h => by
  rcases mem_decimal h with h | h
  · rw [hdigit] at h
    cases h
  · exact hsign h

/-- **The stem of a segment's name** is the output id and the number. -/
theorem fileStem_segmentFile {playlist : Path} {hash : UInt64}
    (hstem : fileStem playlist = some (hex16 hash)) (index : Int) (segmentContainer : String) :
    fileStem (segmentFile playlist index (segmentExtension segmentContainer)) =
      some (hex16 hash ++ decimal index) := by
  obtain ⟨e, he, hdot, hslash⟩ := segmentExtension_eq segmentContainer
  have hname : IsName (hex16 hash ++ (decimal index ++ '.' :: e)) := by
    refine isName_hex16_append hash fun hmem => ?_
    rcases List.mem_append.mp hmem with hmem | hmem
    · exact not_mem_decimal (by decide) (by decide) hmem
    · rcases List.mem_cons.mp hmem with hmem | hmem
      · exact absurd hmem (by decide)
      · exact hslash hmem
  have hne : hex16 hash ++ decimal index ≠ [] := fun h => by
    have := length_hex16 hash
    rw [(List.append_eq_nil_iff.mp h).1] at this
    cases this
  rw [segmentFile, hstem, he, Option.getD_some, segmentName, fileStem, List.append_assoc,
    hname.fileName_join, Option.map_some, ← List.append_assoc, splitAtDot_append hne hdot]

end Ferrofin.Hls
