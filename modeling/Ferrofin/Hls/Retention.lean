import Mathlib.Algebra.Order.BigOperators.Group.List
import Ferrofin.Hls.SegmentFiles
import Ferrofin.Transcode.SegmentCleaner
import Mathlib.Algebra.Ring.Int.Defs

/-!
# What the rolling cleanup may delete

The cleaner deletes by number, and what is kept is measured in time.  The two agree
because the ending positions of a playlist do not decrease with the number.
-/

namespace Ferrofin.Hls

open Lib Transcode Util

def endingTicks (lengths : List Int) (index : Int) : Option Int :=
  if 0 ≤ index ∧ index < lengths.length then some (lengths.take (index.toNat + 1)).sum else none

theorem endingTicks_mono {lengths : List Int} (hlen : ∀ l ∈ lengths, 0 ≤ l) {i j t : Int}
    (hi : 0 ≤ i) (hij : i ≤ j) (hj : endingTicks lengths j = some t) :
    ∃ u, endingTicks lengths i = some u ∧ u ≤ t := by
  unfold endingTicks at hj
  split at hj
  · next hrange =>
    cases hj
    refine ⟨_, if_pos ⟨hi, by omega⟩, ?_⟩
    obtain ⟨rest, hrest⟩ : ∃ rest, lengths.take (j.toNat + 1) =
        lengths.take (i.toNat + 1) ++ rest := by
      refine ⟨(lengths.take (j.toNat + 1)).drop (i.toNat + 1), ?_⟩
      have hsplit := List.take_append_drop (i.toNat + 1) (lengths.take (j.toNat + 1))
      rw [List.take_take, Nat.min_eq_left (by omega)] at hsplit
      exact hsplit.symm
    have hnonneg : 0 ≤ rest.sum := List.sum_nonneg fun l hl =>
      hlen l (List.mem_of_mem_take (hrest ▸ List.mem_append_right _ hl))
    rw [hrest, List.sum_append]
    omega
  · cases hj

theorem segmentIndex_segmentFile {playlist : Path} {hash : UInt64}
    (hstem : fileStem playlist = some (hex16 hash)) (segmentContainer : String) {index : Int}
    (hmin : -2 ^ 31 ≤ index) (hmax : index < 2 ^ 31) :
    segmentIndex (segmentFile playlist index (segmentExtension segmentContainer)) (hex16 hash) =
      some index :=
  segmentIndex_of_fileStem (by rw [length_hex16]; decide)
    (fileStem_segmentFile hstem index segmentContainer) hmin hmax

/-- **Rolling retention is safe.**  The position the cleaner reads is the furthest a
completed response reported.  The index it then selects is above 0, and that segment
and all before it end before what is kept of the position.  A file of the playlist
that it removes is one of these, and no init segment.  A later selection is no lower. -/
theorem retention_safe {lengths : List Int} (hlen : ∀ l ∈ lengths, 0 ≤ l)
    {d₁ d₂ : Downloads} (options : EncodingOptions) {m : Int}
    (h : downloads.Reaches (Downloads.ReportsOf (endingTicks lengths)) d₁)
    (h₁₂ : downloads.Path (Downloads.ReportsOf (endingTicks lengths)) d₁ d₂)
    (hm : maximumDeletedIndex options d₁.downloadPositionTicks d₂.servedSegments = some m) :
    (∃ p ∈ d₁.reported, (∀ u ∈ d₁.reported, u ≤ p) ∧ 0 < m ∧
      (∀ i, 0 ≤ i → i ≤ m →
        ∃ t, endingTicks lengths i = some t ∧ t ≤ p - options.keepTicks) ∧
      ∀ root hash segmentContainer readDir removeFile stopped i, -2 ^ 31 ≤ i → i < 2 ^ 31 →
        segmentFile (playlistPath root hash).toList i (segmentExtension segmentContainer) ∈
          (deleteSegmentsWith readDir removeFile stopped (playlistPath root hash).toList m).1 →
        0 ≤ i ∧ ∃ t, endingTicks lengths i = some t ∧ t ≤ p - options.keepTicks) ∧
    ∀ d₃ d₄, downloads.Path (Downloads.ReportsOf (endingTicks lengths)) d₂ d₃ →
      downloads.Path (Downloads.ReportsOf (endingTicks lengths)) d₃ d₄ →
      ∃ m', maximumDeletedIndex options d₃.downloadPositionTicks d₄.servedSegments = some m' ∧
        m ≤ m' := by
  have hd₁ := Downloads.faithful_of_reaches h
  obtain ⟨hd₂, h₁₂⟩ := hd₁.extends_of_path h₁₂
  constructor
  · obtain ⟨-, hpos, p, hp, -, t, ht, hle⟩ := maximumDeletedIndex_eq_some hm
    have hends : ∀ i, 0 ≤ i → i ≤ m →
        ∃ t, endingTicks lengths i = some t ∧ t ≤ p - options.keepTicks := fun i h0 him => by
      obtain ⟨u, hu, hut⟩ := endingTicks_mono hlen h0 him (hd₂.served m t ht).2
      exact ⟨u, hu, hut.trans hle⟩
    refine ⟨p, hd₁.position p hp, fun u hu => ?_, hpos, hends, ?_⟩
    · obtain ⟨p', hp', hup⟩ := hd₁.furthest u hu
      rw [hp] at hp'
      cases hp'
      exact hup
    · intro root hash segmentContainer readDir removeFile stopped i hmin hmax hmem
      have hstem := fileStem_playlistPath root hash
      obtain ⟨stem, hstem', index, hindex, h0, him⟩ := index_of_mem_deleteSegmentsWith hmem
      rw [hstem] at hstem'
      cases hstem'
      rw [segmentIndex_segmentFile hstem segmentContainer hmin hmax] at hindex
      cases hindex
      exact ⟨h0, hends i h0 him⟩
  · intro d₃ d₄ h₂₃ h₃₄
    obtain ⟨hd₃, h₂₃⟩ := hd₂.extends_of_path h₂₃
    obtain ⟨-, h₃₄⟩ := hd₃.extends_of_path h₃₄
    exact maximumDeletedIndex_mono hd₂ (h₁₂.trans h₂₃) (h₂₃.trans h₃₄) hm

/-- Six segments of ten seconds, of which the last is finished first. -/
def lastFirst : List Downloads.Event :=
  [.track (some 600000000) (some 5), .track (some 200000000) (some 1),
    .track (some 100000000) (some 0), .track (some 0) (some (-1)),
    .complete 0, .complete 3, .complete 1, .complete 2]

theorem retention_safe_lastFirst :
    ∃ d m, downloads.runWhile
        (Downloads.ReportsOf (endingTicks (List.replicate 6 100000000))) {} lastFirst = some d ∧
      maximumDeletedIndex { enableSegmentDeletion := true, segmentKeepSeconds := 0 }
        d.downloadPositionTicks d.servedSegments = some m ∧ m = 1 ∧
      ∃ p ∈ d.reported, (∀ u ∈ d.reported, u ≤ p) ∧ 0 < m ∧
        ∀ i, 0 ≤ i → i ≤ m → ∃ t, endingTicks (List.replicate 6 100000000) i = some t ∧
          t ≤ p - 200000000 := by
  obtain ⟨d, hd, hm⟩ : ∃ d, downloads.runWhile
      (Downloads.ReportsOf (endingTicks (List.replicate 6 100000000))) {} lastFirst = some d ∧
      maximumDeletedIndex { enableSegmentDeletion := true, segmentKeepSeconds := 0 }
        d.downloadPositionTicks d.servedSegments = some 1 := ⟨_, rfl, rfl⟩
  have hlengths : ∀ l ∈ List.replicate 6 (100000000 : Int), 0 ≤ l := by decide
  obtain ⟨⟨p, hp, hmax, hpos, hends, -⟩, -⟩ := retention_safe hlengths _
    (Machine.path_of_runWhile _ hd) .refl hm
  exact ⟨d, 1, hd, hm, rfl, p, hp, hmax, hpos, hends⟩

end Ferrofin.Hls
