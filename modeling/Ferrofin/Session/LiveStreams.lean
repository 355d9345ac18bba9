import Ferrofin.Lib.Machine
import Ferrofin.Session.Holders

/-!
# Live streams of sessions

The calls of `session_manager.rs` that register and release the viewers of live streams, and what
holds of the holder maps over every sequence of them.
-/

namespace Ferrofin.Session

open Lib

structure ReleaseRecord where
  liveStreamId : String
  id : String
  outcome : Outcome
deriving DecidableEq

/-- The sessions by id, each with the live stream it plays (`now_playing_live_stream_id`), and the
holders. `releases` lists the releases so far, which the code does not keep. -/
structure World where
  sessions : KeyedMap String (Option String) := ∅
  holders : Holders := ∅
  releases : List ReleaseRecord := []

/-- What `PlaybackStartInfo`, `PlaybackProgressInfo` and `PlaybackStopInfo` report. -/
structure PlaybackInfo where
  sessionId : Option String
  liveStreamId : Option String
  playSessionId : Option String
deriving DecidableEq

namespace World

def closed (w : World) : List String :=
  (w.releases.filter fun r => r.outcome.needsClose).map ReleaseRecord.liveStreamId

def closeLiveStreamIfNeeded (w : World) (liveStreamId id : String) : World :=
  if liveStreamId = "" then w
  else
    let (holders, outcome) := w.holders.release liveStreamId id
    { w with holders := holders, releases := w.releases ++ [⟨liveStreamId, id, outcome⟩] }

def closeReported (w : World) (liveStreamId : Option String) (id : String) : World :=
  match liveStreamId with
  | some liveStreamId => w.closeLiveStreamIfNeeded liveStreamId id
  | none => w

/-- A playback start or progress: a report without a session the server has is refused; one whose
item cannot be looked up fails after the viewer is registered. -/
def report (w : World) (info : PlaybackInfo) (lookupFails : Bool) : World :=
  match info.sessionId with
  | none => w
  | some sessionId =>
    if (w.sessions.lookup sessionId).isSome then
      let holders :=
        match info.liveStreamId with
        | some liveStreamId =>
          w.holders.updateLiveStreamSessionMapping liveStreamId sessionId info.playSessionId
        | none => w.holders
      if lookupFails then { w with holders := holders }
      else { w with holders := holders, sessions := w.sessions.insert sessionId info.liveStreamId }
    else w

def onPlaybackStart (w : World) (info : PlaybackInfo) (lookupFails : Bool) : World :=
  w.report info lookupFails

def onPlaybackProgress (w : World) (info : PlaybackInfo) (lookupFails : Bool) : World :=
  w.report info lookupFails

/-- `on_playback_stopped`: a negative position leaves the session as it plays. -/
def onPlaybackStopped (w : World) (info : PlaybackInfo) (negative : Bool) : World :=
  match info.sessionId with
  | none => w
  | some sessionId =>
    if (w.sessions.lookup sessionId).isSome then
      let sessions := if negative then w.sessions else w.sessions.insert sessionId none
      { w with sessions := sessions }.closeReported info.liveStreamId sessionId
    else w

def reportSessionEnded (w : World) (sessionId : String) : World :=
  { w with sessions := w.sessions.erase sessionId }

def closeIfNeeded (w : World) (sessionId : String) : World :=
  (w.closeReported (w.sessions.lookup sessionId).join sessionId).reportSessionEnded sessionId

def upsertSession (w : World) (sessionId : String) : World :=
  if (w.sessions.lookup sessionId).isSome then w
  else { w with sessions := w.sessions.insert sessionId none }

end World

/-- The calls. `lookupFails` is the library's answer to a report, `negative` whether the position
of a stop is. -/
inductive Call
  | upsertSession (sessionId : String)
  | onPlaybackStart (info : PlaybackInfo) (lookupFails : Bool)
  | onPlaybackProgress (info : PlaybackInfo) (lookupFails : Bool)
  | onPlaybackStopped (info : PlaybackInfo) (negative : Bool)
  | closeIfNeeded (sessionId : String)
  | closeLiveStreamIfNeeded (liveStreamId id : String)
  | reportSessionEnded (sessionId : String)

namespace World

def apply (w : World) : Call → World
  | .upsertSession sessionId => w.upsertSession sessionId
  | .onPlaybackStart info lookupFails => w.onPlaybackStart info lookupFails
  | .onPlaybackProgress info lookupFails => w.onPlaybackProgress info lookupFails
  | .onPlaybackStopped info negative => w.onPlaybackStopped info negative
  | .closeIfNeeded sessionId => w.closeIfNeeded sessionId
  | .closeLiveStreamIfNeeded liveStreamId id => w.closeLiveStreamIfNeeded liveStreamId id
  | .reportSessionEnded sessionId => w.reportSessionEnded sessionId

/-- One call after another, from no session and no holder. -/
def calls : Machine World Call := ⟨{}, fun w call => some (w.apply call)⟩

/-! ## What a call does -/

/-- The viewer a report registers: stream, session and play session. -/
def registration (w : World) (info : PlaybackInfo) : Option (String × String × Option String) :=
  match info.sessionId, info.liveStreamId with
  | some sessionId, some liveStreamId =>
    if (w.sessions.lookup sessionId).isSome ∧ ¬ (liveStreamId = "" ∨ sessionId = "") then
      some (liveStreamId, sessionId, info.playSessionId)
    else none
  | _, _ => none

def registers (w : World) : Call → Option (String × String × Option String)
  | .onPlaybackStart info _ | .onPlaybackProgress info _ => w.registration info
  | _ => none

def namedRelease (liveStreamId : Option String) (id : String) : Option (String × String) :=
  (liveStreamId.filter (· ≠ "")).map fun liveStreamId => (liveStreamId, id)

def releasesOf (w : World) : Call → Option (String × String)
  | .onPlaybackStopped info _ =>
    match info.sessionId with
    | some sessionId =>
      if (w.sessions.lookup sessionId).isSome then namedRelease info.liveStreamId sessionId
      else none
    | none => none
  | .closeIfNeeded sessionId => namedRelease (w.sessions.lookup sessionId).join sessionId
  | .closeLiveStreamIfNeeded liveStreamId id => namedRelease (some liveStreamId) id
  | _ => none

variable {w w' : World} {owner : String → String}

/-- From `w` to `w'` a viewer was registered, or one released, or neither. -/
inductive Effect (w w' : World) :
    Option (String × String × Option String) → Option (String × String) → Prop
  | registered {live session : String} {play : Option String} :
      w'.holders =
        w.holders.insert live (((w.holders.lookup live).getD ∅).pair session play) →
      w'.releases = w.releases → live ≠ "" → session ≠ "" →
      Effect w w' (some (live, session, play)) none
  | released {live id : String} :
      w'.holders = (w.holders.release live id).1 →
      w'.releases = w.releases ++ [⟨live, id, (w.holders.release live id).2⟩] →
      Effect w w' none (some (live, id))
  | neither : w'.holders = w.holders → w'.releases = w.releases → Effect w w' none none

theorem Effect.congr {w'' : World} {r : Option (String × String × Option String)}
    {l : Option (String × String)} (h : Effect w w' r l) (hh : w''.holders = w'.holders)
    (hr : w''.releases = w'.releases) : Effect w w'' r l := by
  cases h with
  | registered hholders hreleases hlive hsession =>
    exact .registered (hh.trans hholders) (hr.trans hreleases) hlive hsession
  | released hholders hreleases => exact .released (hh.trans hholders) (hr.trans hreleases)
  | neither hholders hreleases => exact .neither (hh.trans hholders) (hr.trans hreleases)

theorem effect_closeReported {v : World} (hh : v.holders = w.holders)
    (hr : v.releases = w.releases) (liveStreamId : Option String) (id : String) :
    Effect w (v.closeReported liveStreamId id) none (namedRelease liveStreamId id) := by
  cases liveStreamId with
  | none => exact .neither hh hr
  | some live =>
    rw [closeReported, closeLiveStreamIfNeeded]
    by_cases hlive : live = ""
    · rw [if_pos hlive, hlive]
      exact .neither hh hr
    · have hnamed : namedRelease (some live) id = some (live, id) := by
        simp [namedRelease, hlive]
      rw [if_neg hlive, hnamed, hh, hr]
      exact .released rfl rfl

theorem effect_report (w : World) (info : PlaybackInfo) (lookupFails : Bool) :
    Effect w (w.report info lookupFails) (w.registration info) none := by
  rw [report, registration]
  cases info.sessionId with
  | none => exact .neither rfl rfl
  | some session =>
    by_cases hsession : (w.sessions.lookup session).isSome
    · cases info.liveStreamId with
      | none =>
        simp only [if_pos hsession]
        cases lookupFails <;> exact .neither rfl rfl
      | some live =>
        simp only [hsession, if_true, true_and, Holders.updateLiveStreamSessionMapping]
        by_cases hnamed : live = "" ∨ session = ""
        · simp only [hnamed, if_true, not_true_eq_false, if_false]
          cases lookupFails <;> exact .neither rfl rfl
        · obtain ⟨hlive, hsession'⟩ := not_or.mp hnamed
          simp only [hnamed, not_false_eq_true, if_true, if_false]
          cases lookupFails <;> exact .registered rfl rfl hlive hsession'
    · cases info.liveStreamId with
      | none =>
        simp only [hsession, Bool.false_eq_true, if_false]
        exact .neither rfl rfl
      | some live =>
        simp only [hsession, Bool.false_eq_true, false_and, if_false]
        exact .neither rfl rfl

/-- **What a call does** to the holders: it registers a viewer, or releases one, or neither. -/
theorem effect_apply (w : World) (call : Call) :
    Effect w (w.apply call) (w.registers call) (w.releasesOf call) := by
  cases call with
  | upsertSession session =>
    rw [apply, upsertSession]
    split <;> exact .neither rfl rfl
  | onPlaybackStart info fails => exact effect_report w info fails
  | onPlaybackProgress info fails => exact effect_report w info fails
  | onPlaybackStopped info negative =>
    simp only [apply, onPlaybackStopped, registers, releasesOf]
    cases info.sessionId with
    | none => exact .neither rfl rfl
    | some session =>
      by_cases hsession : (w.sessions.lookup session).isSome
      · simp only [if_pos hsession]
        refine effect_closeReported ?_ ?_ _ _ <;> rfl
      · simp only [if_neg hsession]
        exact .neither rfl rfl
  | closeIfNeeded session =>
    have heffect : Effect w (w.closeReported (w.sessions.lookup session).join session) none _ :=
      effect_closeReported rfl rfl _ session
    exact heffect.congr rfl rfl
  | closeLiveStreamIfNeeded live id =>
    exact effect_closeReported rfl rfl (some live) id
  | reportSessionEnded session => exact .neither rfl rfl

/-! ## The invariant -/

def Kept (owner : String → String) (holders : Holders) : Prop :=
  ∀ live mappings, holders.lookup live = some mappings →
    mappings.keys ≠ [] ∧ Paired owner mappings

/-- The ids a call registers belong to its session, and the play session is not the session. -/
def Distinct (owner : String → String) (w : World) (call : Call) : Prop :=
  ∀ live session play, w.registers call = some (live, session, play) →
    owner session = session ∧
      ∀ p, play = some p → p ≠ "" → owner p = session ∧ p ≠ session

theorem keys_ne_nil_of_lookup {mappings : Mappings} {k v : String}
    (h : mappings.lookup k = some v) : mappings.keys ≠ [] := by
  intro hnil
  have hk : k ∈ mappings.keys := AList.mem_keys.mpr (KeyedMap.mem_of_lookup h)
  rw [hnil] at hk
  cases hk

theorem lookup_pair_session {mappings : Mappings} {session : String} (play : Option String)
    (h : Paired owner mappings) (hs : session ≠ "")
    (hplay : ∀ p, play = some p → p ≠ "" → p ≠ session) :
    ∃ partner, (mappings.pair session play).lookup session = some partner := by
  cases hfilter : play.filter (· ≠ "") with
  | none =>
    rw [Mappings.pair, hfilter]
    simp only
    split
    · next hsome => exact Option.isSome_iff_exists.mp hsome
    · exact ⟨"", AList.lookup_insert _⟩
  | some p =>
    obtain ⟨hp, hne⟩ := Option.filter_eq_some_iff.mp hfilter
    have hne : p ≠ "" := of_decide_eq_true hne
    rw [hp]
    by_cases hsame : mappings.lookup session = some p
    · rw [Mappings.pair, filter_some hne]
      simp only [if_pos hsame]
      exact ⟨p, hsame⟩
    · refine ⟨p, ?_⟩
      rw [lookup_pair_some hne hsame, if_neg (hplay p hp hne).symm, if_neg, if_pos rfl]
      rintro ⟨hself, -⟩
      exact (h.owned _ _ hself hs).2.1 rfl

theorem paired_pair {mappings : Mappings} {session : String} {play : Option String}
    (h : Paired owner mappings) (hs : session ≠ "") (hos : owner session = session)
    (hplay : ∀ p, play = some p → p ≠ "" → owner p = session ∧ p ≠ session) :
    Paired owner (mappings.pair session play) := by
  cases hfilter : play.filter (· ≠ "") with
  | none => exact h.pairNone hs hos hfilter
  | some p =>
    obtain ⟨hp, hne⟩ := Option.filter_eq_some_iff.mp hfilter
    have hne : p ≠ "" := of_decide_eq_true hne
    rw [hp]
    exact h.pairSome hs hne hos (hplay p hp hne).1 (hplay p hp hne).2

theorem Kept.getD {holders : Holders} (h : Kept owner holders) (live : String) :
    Paired owner ((holders.lookup live).getD ∅) := by
  cases hlive : holders.lookup live with
  | none => exact .empty owner
  | some mappings => exact (h live mappings hlive).2

/-- **What a release finds.** -/
theorem release_cases {holders : Holders} (h : Kept owner holders) (live id : String) :
    (∃ mappings mappings' partner, holders.lookup live = some mappings ∧
      mappings.lookup id = some partner ∧ mappings.release id = some mappings' ∧
      (holders.release live id).2 = .removed ∧
      ∀ k, (holders.release live id).1.lookup k =
        if k = live then (if mappings'.keys = [] then none else some mappings')
        else holders.lookup k) ∨
    (∃ mappings, holders.lookup live = some mappings ∧ mappings.lookup id = none ∧
      holders.release live id = (holders, .stranger)) ∨
    (holders.lookup live = none ∧ holders.release live id = (holders, .unheld)) := by
  cases hlive : holders.lookup live with
  | none => exact .inr (.inr ⟨rfl, by simp only [Holders.release, hlive]⟩)
  | some mappings =>
    cases hid : mappings.lookup id with
    | none =>
      refine .inr (.inl ⟨mappings, rfl, hid, ?_⟩)
      have hrelease : mappings.release id = none := by rw [Mappings.release, hid, Option.map_none]
      simp only [Holders.release, hlive, hrelease, if_neg (h live mappings hlive).1]
    | some partner =>
      obtain ⟨mappings', hrelease⟩ : ∃ mappings', mappings.release id = some mappings' := by
        rw [Mappings.release, hid, Option.map_some]
        exact ⟨_, rfl⟩
      refine .inl ⟨mappings, mappings', partner, rfl, hid, hrelease, ?_, fun k => ?_⟩
      · simp only [Holders.release, hlive, hrelease]
        split <;> rfl
      · simp only [Holders.release, hlive, hrelease]
        by_cases hempty : mappings'.keys = []
        · simp only [if_pos hempty]
          exact KeyedMap.lookup_erase_eq _ _ _
        · simp only [if_neg hempty]
          exact KeyedMap.lookup_insert_eq _ _ _ _

theorem Kept.release {holders : Holders} (h : Kept owner holders) (live id : String) :
    Kept owner (holders.release live id).1 := by
  rcases release_cases h live id with
    ⟨mappings, mappings', partner, hlive, -, hrelease, -, hlookup⟩ | ⟨mappings, -, -, heq⟩ |
      ⟨-, heq⟩
  · intro k kept hk
    rw [hlookup] at hk
    split at hk
    · split at hk
      · cases hk
      · next hne =>
        cases hk
        exact ⟨hne, (h live mappings hlive).2.release hrelease⟩
    · exact h k kept hk
  · rwa [heq]
  · rwa [heq]

/-- **Every call keeps the holder maps.** -/
theorem Kept.apply (h : Kept owner w.holders) {call : Call} (hd : Distinct owner w call) :
    Kept owner (w.apply call).holders := by
  have heffect := effect_apply w call
  cases hr : w.registers call with
  | none =>
    rw [hr] at heffect
    cases hl : w.releasesOf call with
    | none =>
      rw [hl] at heffect
      cases heffect with
      | neither hholders _ => rwa [hholders]
    | some released =>
      rw [hl] at heffect
      cases heffect with
      | released hholders _ =>
        rw [hholders]
        exact h.release _ _
  | some registered =>
    obtain ⟨live, session, play⟩ := registered
    obtain ⟨hos, hplay⟩ := hd live session play hr
    rw [hr] at heffect
    generalize hl : w.releasesOf call = released at heffect
    cases heffect with
    | registered hholders _ _ hs =>
      intro k kept hk
      rw [hholders, KeyedMap.lookup_insert_eq] at hk
      split at hk
      · cases hk
        obtain ⟨partner, hpartner⟩ := lookup_pair_session play (h.getD live) hs
          fun p hp hne => (hplay p hp hne).2
        exact ⟨keys_ne_nil_of_lookup hpartner, paired_pair (h.getD live) hs hos hplay⟩
      · exact h k kept hk

theorem kept_of_reaches (hr : calls.Reaches (Distinct owner) w) : Kept owner w.holders := by
  refine hr.invariant (I := fun w => Kept owner w.holders) ?_ ?_
  · intro live mappings hlive
    cases hlive
  · intro w call w' h hd hs
    cases hs
    exact h.apply hd

/-! ## Releases -/

def Holds (w : World) (live id : String) : Prop :=
  ∃ mappings partner, w.holders.lookup live = some mappings ∧ mappings.lookup id = some partner

def Watches (owner : String → String) (w : World) (live session : String) : Prop :=
  ∃ id, w.Holds live id ∧ owner id = session

/-- How often releases under a session's ids closed a stream that had a holder. -/
def heldCloses (owner : String → String) (w : World) (live session : String) : Nat :=
  w.releases.countP fun r =>
    r.liveStreamId = live ∧ owner r.id = session ∧ r.outcome = .removed

def Registers (w : World) (live session : String) (call : Call) : Prop :=
  ∃ play, w.registers call = some (live, session, play)

theorem closed_append (w : World) (r : ReleaseRecord) :
    closed { w with releases := w.releases ++ [r] } =
      w.closed ++ if r.outcome.needsClose then [r.liveStreamId] else [] := by
  rw [closed, List.filter_append, List.map_append]
  congr 1
  by_cases h : r.outcome.needsClose <;> simp [h]

theorem closed_congr (h : w'.releases = w.releases) : w'.closed = w.closed := by
  rw [closed, closed, h]

/-- **Which calls close a stream**: the releases by a holder, and those of a stream that nobody
holds. -/
theorem closed_apply (h : Kept owner w.holders) (call : Call) :
    (∀ live id, w.releasesOf call = some (live, id) →
      (w.Holds live id ∨ w.holders.lookup live = none) →
      (w.apply call).closed = w.closed ++ [live]) ∧
    (∀ live id, w.releasesOf call = some (live, id) →
      ¬ (w.Holds live id ∨ w.holders.lookup live = none) →
      (w.apply call).closed = w.closed ∧ (w.apply call).holders = w.holders) ∧
    (w.releasesOf call = none → (w.apply call).closed = w.closed) := by
  have heffect := effect_apply w call
  refine ⟨fun live id hl hclose => ?_, fun live id hl hnot => ?_, fun hl => ?_⟩
  · rw [hl] at heffect
    generalize w.registers call = registered at heffect
    cases heffect with
    | released _ hreleases =>
      rw [closed_congr (w := { w with releases := _ }) hreleases, closed_append]
      rcases release_cases h live id with
        ⟨mappings, mappings', partner, hlive, hid, -, houtcome, -⟩ |
          ⟨mappings, hlive, hid, -⟩ | ⟨hlive, heq⟩
      · rw [houtcome]
        rfl
      · exfalso
        rcases hclose with ⟨held, partner, hheld, hpartner⟩ | hnone
        · cases hlive.symm.trans hheld
          rw [hid] at hpartner
          cases hpartner
        · rw [hlive] at hnone
          cases hnone
      · rw [heq]
        rfl
  · rw [hl] at heffect
    generalize w.registers call = registered at heffect
    cases heffect with
    | released hholders hreleases =>
      rw [closed_congr (w := { w with releases := _ }) hreleases, closed_append, hholders]
      rcases release_cases h live id with
        ⟨mappings, mappings', partner, hlive, hid, -, -, -⟩ | ⟨mappings, -, -, heq⟩ | ⟨hlive, -⟩
      · exact absurd (.inl ⟨mappings, partner, hlive, hid⟩) hnot
      · rw [heq]
        exact ⟨List.append_nil _, rfl⟩
      · exact absurd (.inr hlive) hnot
  · rw [hl] at heffect
    generalize w.registers call = registered at heffect
    cases heffect with
    | registered _ hreleases _ _ => exact closed_congr hreleases
    | neither _ hreleases => exact closed_congr hreleases

/-- An id of a session that another session's registration leaves was there before. -/
theorem holds_of_pair {mappings : Mappings} {session : String} {play : Option String}
    (hos : owner session = session)
    (hplay : ∀ p, play = some p → p ≠ "" → owner p = session ∧ p ≠ session) {k v : String}
    (hk : (mappings.pair session play).lookup k = some v) :
    owner k = session ∨ mappings.lookup k = some v := by
  cases hfilter : play.filter (· ≠ "") with
  | none =>
    rw [Mappings.pair, hfilter] at hk
    simp only at hk
    split at hk
    · exact .inr hk
    · rw [KeyedMap.lookup_insert_eq] at hk
      split at hk
      · next hks => exact .inl (hks ▸ hos)
      · exact .inr hk
  | some p =>
    obtain ⟨hp, hne⟩ := Option.filter_eq_some_iff.mp hfilter
    have hne : p ≠ "" := of_decide_eq_true hne
    rw [hp] at hk
    by_cases hsame : mappings.lookup session = some p
    · rw [Mappings.pair, filter_some hne] at hk
      simp only [if_pos hsame] at hk
      exact .inr hk
    · rcases lookup_pair_cases hne hsame hk with ⟨rfl, -⟩ | ⟨rfl, -⟩ | ⟨-, -, -, hold⟩
      · exact .inl (hplay k hp hne).1
      · exact .inl hos
      · exact .inr hold

theorem holds_of_release (h : Kept owner w.holders) {live id : String}
    (hholders : w'.holders = (w.holders.release live id).1) {live' k : String}
    (hk : w'.Holds live' k) : w.Holds live' k := by
  obtain ⟨held, v, hheld, hv⟩ := hk
  rw [hholders] at hheld
  rcases release_cases h live id with
    ⟨mappings, mappings', partner, hlive, hid, hrelease, -, hlookup⟩ | ⟨_, -, -, heq⟩ | ⟨-, heq⟩
  · rw [hlookup] at hheld
    split at hheld
    · next hsame =>
      split at hheld
      · cases hheld
      · cases hheld
        rw [lookup_release (h live mappings hlive).2 hid hrelease] at hv
        split at hv
        · cases hv
        · exact ⟨mappings, v, hsame ▸ hlive, hv⟩
    · exact ⟨held, v, hheld, hv⟩
  · rw [heq] at hheld
    exact ⟨held, v, hheld, hv⟩
  · rw [heq] at hheld
    exact ⟨held, v, hheld, hv⟩

/-- A session whose id is released no longer watches the stream: its other id goes with it. -/
theorem not_watches_of_release (h : Kept owner w.holders) {live id : String}
    (hholders : w'.holders = (w.holders.release live id).1) (hid : w.Holds live id) :
    ¬ w'.Watches owner live (owner id) := by
  rintro ⟨k, ⟨held, v, hheld, hv⟩, howner⟩
  obtain ⟨before, partner', hbefore, hpartner'⟩ := hid
  rw [hholders] at hheld
  rcases release_cases h live id with
    ⟨mappings, mappings', partner, hlive, hlookid, hrelease, -, hlookup⟩ |
      ⟨mappings, hlive, hnone, -⟩ | ⟨hnone, -⟩
  · rw [hlookup, if_pos rfl] at hheld
    split at hheld
    · cases hheld
    · cases hheld
      have hpaired := (h live mappings hlive).2
      rw [lookup_release hpaired hlookid hrelease] at hv
      split at hv
      · cases hv
      · next hother => exact hother (hpaired.one_pair hlookid hv howner.symm)
  · cases hlive.symm.trans hbefore
    rw [hnone] at hpartner'
    cases hpartner'
  · rw [hnone] at hbefore
    cases hbefore

theorem watches_of_registered {live session : String}
    {play : Option String} (hos : owner session = session)
    (hplay : ∀ p, play = some p → p ≠ "" → owner p = session ∧ p ≠ session)
    (hholders : w'.holders =
      w.holders.insert live (((w.holders.lookup live).getD ∅).pair session play))
    {live' session' : String} (hne : ¬ (live' = live ∧ session' = session))
    (hw : w'.Watches owner live' session') : w.Watches owner live' session' := by
  obtain ⟨k, ⟨held, v, hheld, hv⟩, howner⟩ := hw
  rw [hholders, KeyedMap.lookup_insert_eq] at hheld
  split at hheld
  · next hsame =>
    cases hheld
    rcases holds_of_pair hos hplay hv with hk | hold
    · exact absurd ⟨hsame, howner.symm.trans hk⟩ hne
    · cases hlive : w.holders.lookup live with
      | none =>
        rw [hlive] at hold
        cases hold
      | some mappings =>
        rw [hlive] at hold
        exact ⟨k, ⟨mappings, v, hsame ▸ hlive, hold⟩, howner⟩
  · exact ⟨k, ⟨held, v, hheld, hv⟩, howner⟩

theorem heldCloses_append (r : ReleaseRecord) (live session : String) :
    heldCloses owner { w with releases := w.releases ++ [r] } live session =
      w.heldCloses owner live session +
        if r.liveStreamId = live ∧ owner r.id = session ∧ r.outcome = .removed then 1 else 0 := by
  rw [heldCloses, List.countP_append, List.countP_singleton]
  simp only [decide_eq_true_eq]
  rfl

theorem heldCloses_congr (h : w'.releases = w.releases) (live session : String) :
    w'.heldCloses owner live session = w.heldCloses owner live session := by
  rw [heldCloses, heldCloses, h]

/-- **A viewer that is not registered again closes a held stream at most once**, and no longer
watches it after. -/
theorem heldCloses_step (h : Kept owner w.holders) {call : Call} (hd : Distinct owner w call)
    {live session : String} (hnot : ¬ w.Registers live session call) :
    ((w.apply call).heldCloses owner live session = w.heldCloses owner live session ∧
      ((w.apply call).Watches owner live session → w.Watches owner live session)) ∨
    ((w.apply call).heldCloses owner live session = w.heldCloses owner live session + 1 ∧
      w.Watches owner live session ∧ ¬ (w.apply call).Watches owner live session) := by
  have heffect := effect_apply w call
  cases hr : w.registers call with
  | some registered =>
    obtain ⟨live', session', play⟩ := registered
    obtain ⟨hos, hplay⟩ := hd live' session' play hr
    rw [hr] at heffect
    generalize w.releasesOf call = released at heffect
    cases heffect with
    | registered hholders hreleases _ _ =>
      refine .inl ⟨heldCloses_congr hreleases live session, watches_of_registered hos hplay
        hholders ?_⟩
      rintro ⟨rfl, rfl⟩
      exact hnot ⟨play, hr⟩
  | none =>
    rw [hr] at heffect
    cases hl : w.releasesOf call with
    | none =>
      rw [hl] at heffect
      cases heffect with
      | neither hholders hreleases =>
        refine .inl ⟨heldCloses_congr hreleases live session, ?_⟩
        rintro ⟨k, ⟨held, v, hheld, hv⟩, howner⟩
        exact ⟨k, ⟨held, v, hholders ▸ hheld, hv⟩, howner⟩
    | some released =>
      obtain ⟨live', id⟩ := released
      rw [hl] at heffect
      cases heffect with
      | released hholders hreleases =>
        rw [heldCloses_congr (w := { w with releases := _ }) hreleases, heldCloses_append]
        by_cases hcounts : live' = live ∧ owner id = session ∧
          (w.holders.release live' id).2 = .removed
        · obtain ⟨rfl, rfl, houtcome⟩ := hcounts
          rw [if_pos ⟨rfl, rfl, houtcome⟩]
          have hid : w.Holds live' id := by
            rcases release_cases h live' id with
              ⟨mappings, _, partner, hlive, hid, -⟩ | ⟨_, -, -, heq⟩ | ⟨-, heq⟩
            · exact ⟨mappings, partner, hlive, hid⟩
            · rw [heq] at houtcome
              cases houtcome
            · rw [heq] at houtcome
              cases houtcome
          exact .inr ⟨rfl, ⟨id, hid, rfl⟩, not_watches_of_release h hholders hid⟩
        · rw [if_neg hcounts]
          refine .inl ⟨rfl, ?_⟩
          rintro ⟨k, hk, howner⟩
          exact ⟨k, holds_of_release h hholders hk, howner⟩

/-- **Between two registrations of a viewer** its releases close the stream while somebody holds
it at most once. -/
theorem heldCloses_path {live session : String} (hr : calls.Reaches (Distinct owner) w)
    (hp : calls.Path (fun w call => Distinct owner w call ∧ ¬ w.Registers live session call)
      w w') :
    w'.heldCloses owner live session ≤ w.heldCloses owner live session + 1 := by
  -- once its releases closed the stream, the viewer no longer watches it
  have hinv : Kept owner w'.holders ∧
      (w'.heldCloses owner live session = w.heldCloses owner live session ∨
        (w'.heldCloses owner live session = w.heldCloses owner live session + 1 ∧
          ¬ w'.Watches owner live session)) := by
    refine hp.invariant (I := fun v => Kept owner v.holders ∧
      (v.heldCloses owner live session = w.heldCloses owner live session ∨
        (v.heldCloses owner live session = w.heldCloses owner live session + 1 ∧
          ¬ v.Watches owner live session))) ⟨kept_of_reaches hr, .inl rfl⟩ ?_
    rintro v call v' ⟨hkept, hcloses⟩ ⟨hd, hnot⟩ hs
    cases hs
    refine ⟨hkept.apply hd, ?_⟩
    rcases heldCloses_step hkept hd hnot with ⟨hsame, hwatches⟩ | ⟨hmore, hbefore, hafter⟩
    · rcases hcloses with heq | ⟨heq, hgone⟩
      · exact .inl (hsame.trans heq)
      · exact .inr ⟨hsame.trans heq, fun hw => hgone (hwatches hw)⟩
    · rcases hcloses with heq | ⟨-, hgone⟩
      · exact .inr ⟨hmore.trans (congrArg (· + 1) heq), hafter⟩
      · exact absurd hbefore hgone
  omega

/-! ## The holders of a live stream -/

/-- What the holder maps keep, which calls close a stream, and how often a viewer's do. -/
structure ViewersCounted (owner : String → String) (w : World) : Prop where
  present : ∀ live mappings, w.holders.lookup live = some mappings → mappings.keys ≠ []
  symmetric : ∀ live mappings, w.holders.lookup live = some mappings →
    ∀ a b, mappings.lookup a = some b → b ≠ "" → mappings.lookup b = some a
  onePair : ∀ live mappings, w.holders.lookup live = some mappings →
    ∀ a b a' b', mappings.lookup a = some b → mappings.lookup a' = some b' →
      owner a = owner a' → a' = a ∨ a' = b
  closes : ∀ call live id, w.releasesOf call = some (live, id) →
    (w.Holds live id ∨ w.holders.lookup live = none) →
    (w.apply call).closed = w.closed ++ [live]
  strangerClosesNothing : ∀ call live id, w.releasesOf call = some (live, id) →
    ¬ (w.Holds live id ∨ w.holders.lookup live = none) →
    (w.apply call).closed = w.closed ∧ (w.apply call).holders = w.holders
  onlyReleasesClose : ∀ call, w.releasesOf call = none → (w.apply call).closed = w.closed
  once : ∀ live session w',
    calls.Path (fun w call => Distinct owner w call ∧ ¬ w.Registers live session call) w w' →
    w'.heldCloses owner live session ≤ w.heldCloses owner live session + 1

/-- **The holders of live streams**: after every sequence of calls a holder map is inhabited and
symmetric, with one pair for each session; a stream is closed by every release of a holder and of a
stream without holders, and by no other call; and until a viewer is registered again its releases
close a stream that is held at most once. -/
theorem live_stream_holders (hr : calls.Reaches (Distinct owner) w) : ViewersCounted owner w := by
  have hkept := kept_of_reaches hr
  exact
    { present := fun live mappings hlive => (hkept live mappings hlive).1
      symmetric := fun live mappings hlive => (hkept live mappings hlive).2.symmetric
      onePair := fun live mappings hlive _ _ _ _ ha ha' howner =>
        (hkept live mappings hlive).2.one_pair ha ha' howner
      closes := fun call live id => (closed_apply hkept call).1 live id
      strangerClosesNothing := fun call live id => (closed_apply hkept call).2.1 live id
      onlyReleasesClose := fun call => (closed_apply hkept call).2.2
      once := fun _ _ _ hp => heldCloses_path hr hp }

instance (owner : String → String) (w : World) (call : Call) :
    Decidable (Distinct owner w call) :=
  decidable_of_iff
    (∀ r ∈ w.registers call, owner r.2.1 = r.2.1 ∧
      ∀ p ∈ r.2.2, p ≠ "" → owner p = r.2.1 ∧ p ≠ r.2.1)
    ⟨fun h live session play hr => h (live, session, play) hr,
      fun h r hr => h r.1 r.2.1 r.2.2 hr⟩

def twoViewers : List Call :=
  [.upsertSession "a", .upsertSession "b",
    .onPlaybackStart ⟨some "a", some "tv", some "p"⟩ false,
    .onPlaybackStart ⟨some "b", some "tv", some "q"⟩ false]

/-- The session of each id of `twoViewers`. -/
def viewerOf (id : String) : String := if id = "p" then "a" else if id = "q" then "b" else id

theorem live_stream_holders_two_viewers :
    ∃ w, calls.runWhile (Distinct viewerOf) {} twoViewers = some w ∧ ViewersCounted viewerOf w :=
  ⟨_, rfl, live_stream_holders (Machine.path_of_runWhile twoViewers rfl)⟩

def closesOf (owner : String → String) (w : World) (live session : String) : Nat :=
  w.releases.countP fun r =>
    r.liveStreamId = live ∧ owner r.id = session ∧ r.outcome.needsClose

/-- A stream is closed while a viewer holds it, when another one stops; and a viewer that stops
twice closes it twice. -/
theorem one_of_two_viewers_closes :
    (¬ ∀ owner w call live, calls.Reaches (Distinct owner) w → Distinct owner w call →
      ((w.apply call).closed = w.closed ++ [live] ↔
        (w.holders.lookup live).isSome ∧ (w.apply call).holders.lookup live = none)) ∧
    ¬ ∀ owner w w' live session, calls.Reaches (Distinct owner) w →
      calls.Path (fun w call => Distinct owner w call ∧ ¬ w.Registers live session call) w w' →
      w'.closesOf owner live session ≤ w.closesOf owner live session + 1 := by
  constructor
  · intro hlast
    obtain ⟨w, hw⟩ : ∃ w, calls.runWhile (Distinct viewerOf) {} twoViewers = some w :=
      Option.isSome_iff_exists.mp (by decide +kernel)
    have hleft := hlast viewerOf w (.onPlaybackStopped ⟨some "a", some "tv", some "p"⟩ false) "tv"
      (Machine.path_of_runWhile twoViewers hw) (by obtain rfl := Option.some.inj hw; decide)
    obtain rfl := Option.some.inj hw
    exact absurd (hleft.mp (by decide)).2 (by decide)
  · intro honce
    obtain ⟨w, hw⟩ : ∃ w, calls.runWhile (Distinct viewerOf) {} (twoViewers.take 3) = some w :=
      Option.isSome_iff_exists.mp (by decide +kernel)
    have hreach := Machine.path_of_runWhile _ hw
    obtain rfl := Option.some.inj hw
    let stop : Call := .onPlaybackStopped ⟨some "a", some "tv", some "p"⟩ false
    have htwice := honce viewerOf _ _ "tv" "a" hreach
      ((Machine.Path.refl.tail (a := stop) ⟨by decide, fun ⟨_, h⟩ => by cases h⟩ rfl).tail
        (a := stop) ⟨by decide, fun ⟨_, h⟩ => by cases h⟩ rfl)
    exact absurd htwice (by decide)

end World

end Ferrofin.Session
