import Ferrofin.Lib.KeyedMap

/-!
# The holders of a live stream

The map `active_live_stream_sessions` of `session_manager.rs` keeps for each live stream: it pairs
a session id with the play-session id it plays under, and back again, or with the empty text while
only the session is known.
-/

namespace Ferrofin.Session

open Lib

abbrev Mappings := KeyedMap String String

/-- `active_live_stream_sessions`: the holder map of each live stream, by `LiveStreamId`. -/
abbrev Holders := KeyedMap String Mappings

namespace Mappings

/-- The map without the play session that a session was paired with before. -/
def dropStale (mappings : Mappings) (stale : Option String) : Mappings :=
  match stale with
  | some stale => if stale ≠ "" then mappings.erase stale else mappings
  | none => mappings

/-- The pairing of `update_live_stream_session_mapping`. -/
def pair (mappings : Mappings) (sessionId : String) (playSessionId : Option String) : Mappings :=
  match playSessionId.filter (· ≠ "") with
  | some play =>
    if mappings.lookup sessionId = some play then mappings
    else
      (dropStale (mappings.insert sessionId play) (mappings.lookup sessionId)).insert play sessionId
  | none =>
    if (mappings.lookup sessionId).isSome then mappings else mappings.insert sessionId ""

/-- The release of `close_live_stream_if_needed`: an id that holds the stream is removed with its
partner; `none` when the id does not hold it. -/
def release (mappings : Mappings) (id : String) : Option Mappings :=
  (mappings.lookup id).map fun partner =>
    if partner ≠ "" then (mappings.erase id).erase partner else mappings.erase id

end Mappings

/-- What a release found: a holder, whose ids were removed; holders, but not this id; or no holder
at all. -/
inductive Outcome
  | removed
  | stranger
  | unheld
deriving DecidableEq

def Outcome.needsClose : Outcome → Bool
  | removed => true
  | stranger => false
  | unheld => true

namespace Holders

def updateLiveStreamSessionMapping (holders : Holders) (liveStreamId sessionId : String)
    (playSessionId : Option String) : Holders :=
  if liveStreamId = "" ∨ sessionId = "" then holders
  else
    holders.insert liveStreamId
      (((holders.lookup liveStreamId).getD ∅).pair sessionId playSessionId)

/-- The section of `close_live_stream_if_needed` under the holders' lock. -/
def release (holders : Holders) (liveStreamId id : String) : Holders × Outcome :=
  match holders.lookup liveStreamId with
  | some mappings =>
    match mappings.release id with
    | some mappings' =>
      if mappings'.keys = [] then (holders.erase liveStreamId, .removed)
      else (holders.insert liveStreamId mappings', .removed)
    | none =>
      if mappings.keys = [] then (holders.erase liveStreamId, .stranger)
      else (holders, .stranger)
  | none => (holders, .unheld)

end Holders

/-! ## Pairs -/

/-- The ids of a holder map come in pairs of a session and its play session, or the session
alone. `owner` names the session an id belongs to. -/
structure Paired (owner : String → String) (mappings : Mappings) : Prop where
  named : mappings.lookup "" = none
  symmetric : ∀ a b, mappings.lookup a = some b → b ≠ "" → mappings.lookup b = some a
  owned : ∀ a b, mappings.lookup a = some b → b ≠ "" →
    owner a = owner b ∧ a ≠ b ∧ (owner a = a ∨ owner b = b)
  alone : ∀ a, mappings.lookup a = some "" → owner a = a

variable {owner : String → String} {mappings : Mappings}

theorem Paired.empty (owner : String → String) : Paired owner ∅ where
  named := rfl
  symmetric a b h := by cases h
  owned a b h := by cases h
  alone a h := by cases h

theorem Paired.session (h : Paired owner mappings) {a b : String}
    (ha : mappings.lookup a = some b) :
    owner a = a ∨ (owner a = b ∧ mappings.lookup b = some a) := by
  by_cases hb : b = ""
  · exact .inl (h.alone a (hb ▸ ha))
  · obtain ⟨howner, -, hself | hself⟩ := h.owned a b ha hb
    · exact .inl hself
    · exact .inr ⟨howner.trans hself, h.symmetric a b ha hb⟩

/-- **A session holds a stream under one pair of ids**: an id of it is the other one or its
partner. -/
theorem Paired.one_pair (h : Paired owner mappings) {a a' b b' : String}
    (ha : mappings.lookup a = some b) (ha' : mappings.lookup a' = some b')
    (howner : owner a = owner a') : a' = a ∨ a' = b := by
  rcases h.session ha with hself | ⟨hpartner, hback⟩
  · rcases h.session ha' with hself' | ⟨hpartner', hback'⟩
    · exact .inl (hself'.symm.trans (howner.symm.trans hself))
    · have hb' : b' = a := hpartner'.symm.trans (howner.symm.trans hself)
      rw [hb', ha] at hback'
      exact .inr (Option.some.inj hback').symm
  · rcases h.session ha' with hself' | ⟨hpartner', hback'⟩
    · exact .inr (hself'.symm.trans (howner.symm.trans hpartner))
    · have hb' : b' = b := hpartner'.symm.trans (howner.symm.trans hpartner)
      rw [hb', hback] at hback'
      exact .inl (Option.some.inj hback').symm

theorem lookup_dropStale {stale : Option String} (k : String) :
    (mappings.dropStale stale).lookup k =
      if stale = some k ∧ k ≠ "" then none else mappings.lookup k := by
  cases stale with
  | none => simp [Mappings.dropStale]
  | some stale =>
    rw [Mappings.dropStale]
    split
    · next hne =>
      rw [KeyedMap.lookup_erase_eq]
      by_cases hk : k = stale
      · rw [if_pos hk, if_pos ⟨congrArg some hk.symm, hk ▸ hne⟩]
      · rw [if_neg hk, if_neg fun h => hk (Option.some.inj h.1).symm]
    · next hempty =>
      rw [if_neg]
      rintro ⟨hk, hne⟩
      exact hempty ((Option.some.inj hk) ▸ hne)

theorem filter_some {p : String} (hp : p ≠ "") : (some p).filter (· ≠ "") = some p := by
  simp [hp]

theorem lookup_pair_some {s p : String} (hp : p ≠ "") (hne : mappings.lookup s ≠ some p)
    (k : String) :
    (mappings.pair s (some p)).lookup k =
      if k = p then some s
      else if mappings.lookup s = some k ∧ k ≠ "" then none
      else if k = s then some p
      else mappings.lookup k := by
  rw [Mappings.pair, filter_some hp]
  simp only [if_neg hne]
  rw [KeyedMap.lookup_insert_eq, lookup_dropStale, KeyedMap.lookup_insert_eq]

/-- An entry after a registration is of the new pair, or is an old one of neither id and not of
the play session the new one replaces. -/
theorem lookup_pair_cases {s p : String} (hp : p ≠ "") (hne : mappings.lookup s ≠ some p)
    {a b : String} (hab : (mappings.pair s (some p)).lookup a = some b) :
    (a = p ∧ b = s) ∨ (a = s ∧ b = p) ∨
      (a ≠ p ∧ a ≠ s ∧ ¬ (mappings.lookup s = some a ∧ a ≠ "") ∧ mappings.lookup a = some b) := by
  rw [lookup_pair_some hp hne] at hab
  split at hab
  · next hap => exact .inl ⟨hap, (Option.some.inj hab).symm⟩
  · next hap =>
    split at hab
    · cases hab
    · next hstale =>
      split at hab
      · next has => exact .inr (.inl ⟨has, (Option.some.inj hab).symm⟩)
      · next has => exact .inr (.inr ⟨hap, has, hstale, hab⟩)

theorem Paired.pairSome (h : Paired owner mappings) {s p : String} (hs : s ≠ "") (hp : p ≠ "")
    (hos : owner s = s) (hop : owner p = s) (hps : p ≠ s) :
    Paired owner (mappings.pair s (some p)) := by
  by_cases hsame : mappings.lookup s = some p
  · have hkept : mappings.pair s (some p) = mappings := by
      rw [Mappings.pair, filter_some hp]
      exact if_pos hsame
    rwa [hkept]
  have hlookup := lookup_pair_some hp hsame
  refine ⟨?_, ?_, ?_, ?_⟩
  · rw [hlookup, if_neg (Ne.symm hp), if_neg (fun hstale => hstale.2 rfl), if_neg (Ne.symm hs)]
    exact h.named
  · intro a b hab hb
    rcases lookup_pair_cases hp hsame hab with ⟨rfl, rfl⟩ | ⟨rfl, rfl⟩ | ⟨hap, has, hstale, hold⟩
    · rw [hlookup, if_neg (Ne.symm hps), if_neg, if_pos rfl]
      rintro ⟨hself, -⟩
      exact (h.owned _ _ hself hs).2.1 rfl
    · rw [hlookup, if_pos rfl]
    · -- the partner of an old entry is an old entry
      have hback := h.symmetric a b hold hb
      obtain ⟨howner, -, hself⟩ := h.owned a b hold hb
      have hane : a ≠ "" := by
        rintro rfl
        rw [h.named] at hold
        cases hold
      have hbp : b ≠ p := by
        rintro rfl
        rcases hself with hself | hself
        · exact has (hself.symm.trans (howner.trans hop))
        · exact hps (hself.symm.trans hop)
      have hbs : b ≠ s := by
        rintro rfl
        exact hstale ⟨hback, hane⟩
      have hbstale : ¬ (mappings.lookup s = some b ∧ b ≠ "") := by
        rintro ⟨hsb, hbne⟩
        have hbs' := h.symmetric s b hsb hbne
        rw [hback] at hbs'
        exact has (Option.some.inj hbs')
      rw [hlookup, if_neg hbp, if_neg hbstale, if_neg hbs]
      exact hback
  · intro a b hab hb
    rcases lookup_pair_cases hp hsame hab with ⟨rfl, rfl⟩ | ⟨rfl, rfl⟩ | ⟨-, -, -, hold⟩
    · exact ⟨hop.trans hos.symm, hps, .inr hos⟩
    · exact ⟨hos.trans hop.symm, Ne.symm hps, .inl hos⟩
    · exact h.owned a b hold hb
  · intro a hab
    rcases lookup_pair_cases hp hsame hab with ⟨-, hempty⟩ | ⟨-, hempty⟩ | ⟨-, -, -, hold⟩
    · exact absurd hempty.symm hs
    · exact absurd hempty.symm hp
    · exact h.alone a hold

theorem Paired.pairNone (h : Paired owner mappings) {s : String} (hs : s ≠ "")
    (hos : owner s = s) {play : Option String} (hplay : play.filter (· ≠ "") = none) :
    Paired owner (mappings.pair s play) := by
  rw [Mappings.pair, hplay]
  simp only
  split
  · exact h
  · next hnone =>
    have hnone' : mappings.lookup s = none := Option.not_isSome_iff_eq_none.mp hnone
    refine ⟨?_, ?_, ?_, ?_⟩
    · rw [KeyedMap.lookup_insert_eq, if_neg (Ne.symm hs)]
      exact h.named
    · intro a b hab hb
      rw [KeyedMap.lookup_insert_eq] at hab ⊢
      split at hab
      · exact absurd (Option.some.inj hab).symm hb
      · next has =>
        have hback := h.symmetric a b hab hb
        rw [if_neg]
        · exact hback
        · rintro rfl
          rw [hnone'] at hback
          cases hback
    · intro a b hab hb
      rw [KeyedMap.lookup_insert_eq] at hab
      split at hab
      · exact absurd (Option.some.inj hab).symm hb
      · exact h.owned a b hab hb
    · intro a hab
      rw [KeyedMap.lookup_insert_eq] at hab
      split at hab
      · next has => rw [has, hos]
      · exact h.alone a hab

/-- What a release leaves, entry by entry: neither the id nor its partner. -/
theorem lookup_release (h : Paired owner mappings) {id partner : String}
    (hid : mappings.lookup id = some partner) {mappings' : Mappings}
    (hr : mappings.release id = some mappings') (k : String) :
    mappings'.lookup k = if k = id ∨ k = partner then none else mappings.lookup k := by
  rw [Mappings.release, hid, Option.map_some] at hr
  cases hr
  split
  · next hne =>
    rw [KeyedMap.lookup_erase_eq, KeyedMap.lookup_erase_eq]
    by_cases hk : k = id <;> by_cases hk' : k = partner <;> simp [hk, hk']
  · next hempty =>
    rw [KeyedMap.lookup_erase_eq]
    by_cases hk : k = id
    · simp [hk]
    · by_cases hk' : k = partner
      · rw [if_neg hk, if_pos (.inr hk'), hk', not_not.mp hempty, h.named]
      · simp [hk, hk']

theorem Paired.release (h : Paired owner mappings) {id : String} {mappings' : Mappings}
    (hr : mappings.release id = some mappings') : Paired owner mappings' := by
  obtain ⟨partner, hid, -⟩ := Option.map_eq_some_iff.mp hr
  have hlookup := lookup_release h hid hr
  have hold : ∀ a b, mappings'.lookup a = some b →
      ¬ (a = id ∨ a = partner) ∧ mappings.lookup a = some b := by
    intro a b hab
    rw [hlookup] at hab
    split at hab
    · cases hab
    · next hne => exact ⟨hne, hab⟩
  refine ⟨?_, ?_, ?_, ?_⟩
  · rw [hlookup]
    split
    · rfl
    · exact h.named
  · intro a b hab hb
    obtain ⟨hne, hab⟩ := hold a b hab
    have hback := h.symmetric a b hab hb
    rw [hlookup, if_neg]
    · exact hback
    · rintro (rfl | rfl)
      · rw [hid] at hback
        exact hne (.inr (Option.some.inj hback).symm)
      · have hid' := h.symmetric id _ hid hb
        rw [hback] at hid'
        exact hne (.inl (Option.some.inj hid'))
  · exact fun a b hab => h.owned a b (hold a b hab).2
  · exact fun a hab => h.alone a (hold a "" hab).2

end Ferrofin.Session
