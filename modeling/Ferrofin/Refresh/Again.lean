import Ferrofin.Refresh.Plan

/-!
# Planning again

A pass whose providers did not fail stores when it refreshed and saved the item and which time its
file has (`afterPass`), if the item is saved.  So the dates ask for nothing when the same files are
planned again, before the item is due by its interval.

What is left asks again (`plan_again_idle_iff`): an option to replace or to refresh in full, an
external file that the streams still do not have, media of which the probe found nothing, a local
file that is newer than the last save, and a file whose time was never stored where the pass saved
nothing.
-/

namespace Ferrofin.Refresh

structure ItemRefreshPlan.Idle (plan : ItemRefreshPlan) : Prop where
  probe : plan.probe = false
  localMetadata : plan.localMetadata = false
  remoteMetadata : plan.remoteMetadata = false
  remoteImages : plan.remoteImages = .none

/-- What is stored after a pass over an item; `rest` is what the pass made of the other fields. -/
def afterPass (stored : Option StoredState) (fs : FileFacts) (decision : SaveDecision)
    (now : Instant) (rest : StoredState) : Option StoredState :=
  if decision.save then
    some
      { rest with
        dateLastRefreshed :=
          if decision.stampRefreshed then some now else (stored.getD {}).dateLastRefreshed
        dateLastSaved := some now
        dateModified := fs.mtime.or (stored.getD {}).dateModified }
  else stored

/-- The same files; whether the streams have them may have changed. -/
def SameFiles (fs fs' : FileFacts) : Prop :=
  fs' = { fs with sidecarsChanged := fs'.sidecarsChanged, lyricsChanged := fs'.lyricsChanged }

/-- `run_all`, in the default mode. -/
def runAll (stored : StoredState) (fs : FileFacts) (request : RefreshRequest)
    (library : Option LibraryOptions) (now : Instant) : Bool :=
  request.options.replaceAllMetadata || stored.dateLastRefreshed.isNone ||
    (intervalElapsed stored library now || (itemRequiresRefresh stored fs).isSome)

def externalFilesChanged (fs : FileFacts) : Bool :=
  fs.isFileProtocol &&
    if fs.probe.isVideo then !fs.isPlaceholder && fs.sidecarsChanged else fs.lyricsChanged

variable {stored : Option StoredState} {s s' rest : StoredState} {fs fs' : FileFacts}
  {request : RefreshRequest} {library : Option LibraryOptions} {pass : PassOutcome}
  {t now later : Instant} {backfill backfill' : Bool}

/-! ### One plan -/

theorem probeChanged_eq_none_iff : probeChanged s fs = none ↔
    (fs.probe ≠ .none →
      (fs.probe.checksMtime && fs.mtime.any (fileChanged s.dateModified)) = false ∧
      externalFilesChanged fs = false ∧ missingMediaInfo s fs = false) := by
  unfold probeChanged externalFilesChanged
  by_cases hnone : fs.probe = .none
  · simp [hnone]
  · rw [if_neg hnone]
    cases hmtime : fs.probe.checksMtime && fs.mtime.any (fileChanged s.dateModified) <;>
      cases hvideo : fs.probe.isVideo <;> cases hprotocol : fs.isFileProtocol <;>
      cases hplace : fs.isPlaceholder <;> cases hside : fs.sidecarsChanged <;>
      cases hlyrics : fs.lyricsChanged <;> simp [hnone]

theorem remoteImages_eq_none_iff (hrefreshed : s.dateLastRefreshed.isNone = false) :
    remoteImages s request.options = .none ↔ request.options.imageRefreshMode ≠ .fullRefresh := by
  unfold remoteImages MetadataRefreshMode.atLeastDefault
  rw [hrefreshed]
  cases request.options.imageRefreshMode <;> cases request.options.replaceAllImages <;> simp

section Default

variable (hmode : request.options.metadataRefreshMode = .default)

include hmode

theorem plan_requiresRefresh :
    (planItemRefresh stored fs request library now backfill).requiresRefresh =
    (intervalElapsed (stored.getD {}) library now ||
      (itemRequiresRefresh (stored.getD {}) fs).isSome) := by
  simp only [planItemRefresh, hmode]
  cases intervalElapsed (stored.getD {}) library now <;> rfl

theorem plan_runs : let plan := planItemRefresh (some s) fs request library now backfill
    plan.probe = (decide (fs.probe ≠ .none) &&
      (runAll s fs request library now || (probeChanged s fs).isSome)) ∧
    plan.remoteMetadata = (!s.isLocked && (runAll s fs request library now || backfill)) ∧
    plan.localMetadata = (!s.isLocked && (runAll s fs request library now ||
      localMetadataChanged s fs || (probeChanged s fs).isSome || plan.remoteMetadata)) := by
  have hrequires := @plan_requiresRefresh (some s) fs request library now backfill hmode
  simp only [planItemRefresh, hmode, Option.getD_some] at hrequires ⊢
  simp only [runAll, ← hrequires]
  simp [MetadataRefreshMode.atLeastDefault]

end Default

theorem planItemRefresh_idle_iff (hmode : request.options.metadataRefreshMode = .default) :
    (planItemRefresh (some s) fs request library now backfill).Idle ↔
      remoteImages s request.options = .none ∧ probeChanged s fs = none ∧
      (runAll s fs request library now = true → fs.probe = .none ∧ s.isLocked = true) ∧
      (s.isLocked = false → localMetadataChanged s fs = false ∧ backfill = false) := by
  have hprobe : fs.probe = .none → probeChanged s fs = none := fun h => if_pos h
  obtain ⟨hprobes, hremote, hlocal⟩ := @plan_runs s fs request library now backfill hmode
  have himages : (planItemRefresh (some s) fs request library now backfill).remoteImages =
      remoteImages s request.options := by
    simp only [planItemRefresh, hmode]
    rfl
  rw [hremote] at hlocal
  generalize hchange : probeChanged s fs = change at hprobe hprobes hlocal ⊢
  constructor
  · rintro ⟨h₁, h₂, h₃, h₄⟩
    rw [hprobes] at h₁
    rw [hlocal] at h₂
    rw [hremote] at h₃
    rw [himages] at h₄
    refine ⟨h₄, ?_⟩
    cases hall : runAll s fs request library now <;> cases hlocked : s.isLocked <;>
      cases change <;> simp_all
  · rintro ⟨h₁, h₂, h₃, h₄⟩
    refine ⟨?_, ?_, ?_, himages.trans h₁⟩
    · rw [hprobes, h₂]
      cases hall : runAll s fs request library now
      · simp
      · simp [h₃ hall]
    · rw [hlocal, h₂]
      cases hall : runAll s fs request library now <;> cases hlocked : s.isLocked <;> simp_all
    · rw [hremote]
      cases hall : runAll s fs request library now <;> cases hlocked : s.isLocked <;> simp_all

/-! ### After a pass -/

/-- What the pass over an item must have left for the next plan to run nothing. -/
structure Settled (stored : Option StoredState) (s' : StoredState) (fs fs' : FileFacts)
    (request : RefreshRequest) (decision : SaveDecision) (now : Instant) (backfill' : Bool) :
    Prop where
  images : request.options.imageRefreshMode ≠ .fullRefresh
  replaced : request.options.replaceAllMetadata = true → fs.probe = .none ∧ s'.isLocked = true
  runTime : fs.supportsCumulativeRunTime = true → s'.runTimeTicks = none →
    fs.probe = .none ∧ s'.isLocked = true
  backfill : backfill' = true → s'.isLocked = true
  mediaInfo : fs.probe ≠ .none → missingMediaInfo s' fs = false
  externalFiles : fs.probe ≠ .none → externalFilesChanged fs' = false
  dated : decision.save = false → fs.probe.checksMtime = true → fs.mtime.isSome = true →
    (stored.getD {}).dateModified.isSome = true
  localMetadata : ∀ file, fs.localMetadata = some file → s'.isLocked = false →
    ∃ saved, (if decision.save then some now else (stored.getD {}).dateLastSaved) = some saved ∧
      file.mtime - saved ≤ milliseconds file.format.toleranceMs

theorem dateLastSaved_of_pass {decision : SaveDecision}
    (hafter : afterPass stored fs decision now rest = some s') :
    s'.dateLastSaved = if decision.save then some now else (stored.getD {}).dateLastSaved := by
  rw [afterPass] at hafter
  split at hafter
  · next hsave =>
    cases hafter
    rw [if_pos hsave]
  · next hsave => rw [hafter, if_neg hsave, Option.getD_some]

/-- The time of a file is not stored where it never was and the pass saved nothing. -/
theorem dateModified_isNone_of_pass {decision : SaveDecision}
    (hafter : afterPass stored fs decision now rest = some s') (hmtime : fs.mtime.isSome = true) :
    s'.dateModified.isNone = true ↔
      decision.save = false ∧ (stored.getD {}).dateModified.isNone = true := by
  obtain ⟨mtime, hmtime⟩ := Option.isSome_iff_exists.mp hmtime
  rw [afterPass] at hafter
  split at hafter
  · next hsave =>
    cases hafter
    simp [hmtime, hsave]
  · next hsave =>
    rw [hafter]
    simp [hsave]

section Pass

variable {decision : SaveDecision}
  (hmode : request.options.metadataRefreshMode = .default) (hpass : pass.failed = false)
  (hdecision : decision =
    decideSave (planItemRefresh stored fs request library t backfill) request pass)
  (hafter : afterPass stored fs decision now rest = some s')

include hmode hpass hdecision

theorem stampRefreshed_of_default : decision.stampRefreshed = true := by
  rw [hdecision]
  simp only [decideSave, hpass, hmode]
  rfl

theorem unsaved (hsave : decision.save = false) :
    (stored.getD {}).dateLastRefreshed.isNone = false ∧
      (itemRequiresRefresh (stored.getD {}) fs).isSome = false ∧
      request.options.replaceAllMetadata = false ∧
      request.options.imageRefreshMode ≠ .fullRefresh := by
  have hfirst : (planItemRefresh stored fs request library t backfill).isFirstRefresh =
      (stored.getD {}).dateLastRefreshed.isNone := by
    simp only [planItemRefresh, hmode]
    rfl
  have hrequires := @plan_requiresRefresh stored fs request library t backfill hmode
  have hstamp := stampRefreshed_of_default hmode hpass hdecision
  rw [hdecision] at hsave hstamp
  simp only [decideSave, Bool.or_eq_false_iff, hfirst, hrequires] at hsave hstamp
  obtain ⟨⟨⟨⟨-, hfirst⟩, hreplace⟩, -, hrequired⟩, hneeds⟩ := hsave
  refine ⟨hfirst, hrequired, hreplace, fun himages => ?_⟩
  rw [hstamp, himages] at hneeds
  simp at hneeds

include hafter

theorem refreshed_of_pass : s'.dateLastRefreshed.isNone = false := by
  rw [afterPass] at hafter
  split at hafter
  · cases hafter
    rw [stampRefreshed_of_default hmode hpass hdecision]
    rfl
  · next hsave =>
    have hfirst := (unsaved hmode hpass hdecision (Bool.eq_false_iff.mpr hsave)).1
    rwa [hafter] at hfirst

theorem not_drifted_of_pass {saved mtime : Instant} (hsaved : s'.dateModified = some saved)
    (hmtime : fs.mtime = some mtime) : drifted saved mtime fileChangeToleranceMs = false := by
  rw [afterPass] at hafter
  split at hafter
  · cases hafter
    rw [hmtime] at hsaved
    cases hsaved
    rw [drifted, Int.sub_self]
    rfl
  · next hsave =>
    have hrequired := (unsaved hmode hpass hdecision (Bool.eq_false_iff.mpr hsave)).2.1
    rw [hafter, Option.getD_some, itemRequiresRefresh, hsaved, hmtime] at hrequired
    by_contra hdrifted
    rw [Bool.not_eq_false] at hdrifted
    simp [hdrifted] at hrequired

end Pass

/-- The dates that a pass without failures stores ask for nothing the next time; the next plan runs
nothing but for what is missing, or newer than the save. -/
theorem plan_again_idle_iff (hmode : request.options.metadataRefreshMode = .default)
    (hpass : pass.failed = false)
    (hafter : afterPass stored fs
      (decideSave (planItemRefresh stored fs request library t backfill) request pass) now rest =
        some s')
    (hfiles : SameFiles fs fs') (hlater : intervalElapsed s' library later = false) :
    (planItemRefresh (some s') fs' request library later backfill').Idle ↔
      Settled stored s' fs fs' request
        (decideSave (planItemRefresh stored fs request library t backfill) request pass) now
        backfill' := by
  generalize hdecision :
    decideSave (planItemRefresh stored fs request library t backfill) request pass = decision
    at hafter ⊢
  have hrefreshed := refreshed_of_pass hmode hpass hdecision.symm hafter
  rw [SameFiles] at hfiles
  have hprobe : fs'.probe = fs.probe := by rw [hfiles]
  have hsame : fs'.mtime = fs.mtime := by rw [hfiles]
  have hfolder : fs'.supportsCumulativeRunTime = fs.supportsCumulativeRunTime := by rw [hfiles]
  have hsidecar : fs'.localMetadata = fs.localMetadata := by rw [hfiles]
  have hmissing : missingMediaInfo s' fs' = missingMediaInfo s' fs := by
    rw [hfiles]
    rfl
  have hdrifted : ∀ saved mtime, s'.dateModified = some saved → fs.mtime = some mtime →
      drifted saved mtime fileChangeToleranceMs = false := fun saved mtime =>
    not_drifted_of_pass hmode hpass hdecision.symm hafter
  have hrequires : (itemRequiresRefresh s' fs').isSome = true ↔
      fs.supportsCumulativeRunTime = true ∧ s'.runTimeTicks = none := by
    rw [itemRequiresRefresh, hsame, hfolder]
    rcases hsaved : s'.dateModified with _ | saved <;> rcases hmtime : fs.mtime with _ | mtime
    case some.some => simp [hdrifted saved mtime hsaved hmtime]
    all_goals simp
  have hdated : (fs'.probe.checksMtime && fs'.mtime.any (fileChanged s'.dateModified)) = false ↔
      (decision.save = false → fs.probe.checksMtime = true → fs.mtime.isSome = true →
        (stored.getD {}).dateModified.isSome = true) := by
    rw [hprobe, hsame]
    rcases hmtime : fs.mtime with _ | mtime
    · simp
    · have hnone := dateModified_isNone_of_pass hafter (by rw [hmtime]; rfl)
      have hchanged : fileChanged s'.dateModified mtime = s'.dateModified.isNone := by
        rcases hsaved : s'.dateModified with _ | saved
        · rfl
        · exact hdrifted saved mtime hsaved hmtime
      rw [Option.any_some, hchanged]
      constructor
      · intro h hsave hchecks _
        by_contra hmodified
        rw [Bool.not_eq_true, Option.isSome_eq_false_iff] at hmodified
        rw [hchecks, hnone.mpr ⟨hsave, hmodified⟩] at h
        cases h
      · intro h
        by_contra hne
        obtain ⟨hchecks, hmodified⟩ := Bool.and_eq_true_iff.mp (Bool.not_eq_false _ ▸ hne)
        obtain ⟨hsave, hstored⟩ := hnone.mp hmodified
        have hsome := h hsave hchecks rfl
        rw [← Option.not_isNone, hstored] at hsome
        cases hsome
  have hlocal : localMetadataChanged s' fs' = false ↔
      ∀ file, fs.localMetadata = some file →
        ∃ saved, (if decision.save then some now else (stored.getD {}).dateLastSaved) = some saved ∧
          file.mtime - saved ≤ milliseconds file.format.toleranceMs := by
    rw [← dateLastSaved_of_pass hafter, localMetadataChanged, hsidecar]
    rcases fs.localMetadata with _ | file
    · simp
    · rcases s'.dateLastSaved with _ | saved <;> simp
  rw [planItemRefresh_idle_iff hmode, remoteImages_eq_none_iff hrefreshed, probeChanged_eq_none_iff,
    hdated, hmissing, hlocal, runAll, hrefreshed, hlater, Bool.or_false, Bool.false_or,
    Bool.or_eq_true, hrequires, hprobe]
  constructor
  · rintro ⟨himages, hprobe, hall, hlocal⟩
    exact
      { images := himages
        replaced := fun h => hall (.inl h)
        runTime := fun h h' => hall (.inr ⟨h, h'⟩)
        backfill := fun h => by
          by_contra hlocked
          rw [Bool.not_eq_true] at hlocked
          rw [(hlocal hlocked).2] at h
          cases h
        mediaInfo := fun h => (hprobe h).2.2
        externalFiles := fun h => (hprobe h).2.1
        dated := fun hsave hchecks => by
          have hkind : fs.probe ≠ .none := fun h => by
            rw [h] at hchecks
            cases hchecks
          exact (hprobe hkind).1 hsave hchecks
        localMetadata := fun file hfile hlocked => (hlocal hlocked).1 file hfile }
  · intro h
    refine ⟨h.images, fun hprobe => ⟨h.dated, h.externalFiles hprobe, h.mediaInfo hprobe⟩, ?_, ?_⟩
    · rintro (hreplace | ⟨hfolder, hticks⟩)
      · exact h.replaced hreplace
      · exact h.runTime hfolder hticks
    · intro hlocked
      refine ⟨fun file hfile => h.localMetadata file hfile hlocked, ?_⟩
      by_contra hback
      rw [h.backfill (Bool.not_eq_false _ ▸ hback)] at hlocked
      cases hlocked

/-! ### A file of which the probe finds nothing -/

def scan : RefreshRequest :=
  { options := { metadataRefreshMode := .default, imageRefreshMode := .default } }

def clip : FileFacts := { mtime := some 5, probe := .video true }

/-- The row of the file after its first refresh, with what the probe found. -/
def clipRow (runTimeTicks : Option ℤ) : StoredState :=
  { dateLastRefreshed := some 7, dateLastSaved := some 7, dateModified := some 5, runTimeTicks }

/-- The probe of a video ran, did not fail and found nothing: it is planned again. -/
theorem reprobed :
    afterPass none clip
        (decideSave (planItemRefresh none clip scan none 6 false) scan ⟨true, false⟩) 7 {} =
      some (clipRow none) ∧
    (planItemRefresh (some (clipRow none)) clip scan none 8 false).probe = true :=
  ⟨rfl, by decide⟩

theorem plan_again_idle_clip :
    (planItemRefresh (some (clipRow (some 9))) clip scan none 8 false).Idle ↔
      Settled none (clipRow (some 9)) clip clip scan
        (decideSave (planItemRefresh none clip scan none 6 false) scan ⟨true, false⟩) 7 false :=
  have hafter : afterPass none clip
      (decideSave (planItemRefresh none clip scan none 6 false) scan ⟨true, false⟩) 7
      { runTimeTicks := some 9 } = some (clipRow (some 9)) := rfl
  plan_again_idle_iff rfl rfl hafter rfl rfl

end Ferrofin.Refresh
