import Ferrofin.Metadata.Rules
import Ferrofin.Util.Json

/-!
# The `Data` column

A row keeps several of its properties in the JSON of one column.  They merge key by key, each by
the rule of its key (`lookup_mergeObjects`), and the text of the column is left alone where no key
changes.

The text is read and written by a JSON library, `Json`.  Of the library is needed that it reads what
it has written; values of which that holds are `exact`.  (A float that was read inexactly need not
be.)
-/

namespace Ferrofin.Metadata

open Lib Util

structure Json (ω : Type*) where
  /-- The object that a text holds. -/
  parse : ω → Option Object
  /-- The text of an object. -/
  print : Object → ω
  /-- Values that are read as they were written. -/
  exact : Value → Prop
  /-- Arrays are written one element after another. -/
  exact_array : ∀ values, (∀ v ∈ values, ∃ array, v ∈ array ∧ exact (.array array)) →
    exact (.array values)
  parse_print : ∀ o : Object, (∀ key v, o.lookup key = some v → exact v) →
    ∃ o', parse (print o) = some o' ∧ ∀ key, o'.lookup key = o.lookup key

/-! ### The rules -/

def blobEmpty : Option Value → Bool
  | none | some .null => true
  | some (.string s) => s = []
  | some (.array values) => values = []
  | some _ => false

def elements (value : Option Value) : List Value := (value.bind Value.asArray).getD []

/-- The `Url` of a trailer. -/
def url (entry : Value) : Option Text := (entry.get "Url".toList).bind Value.asStr

def unionTrailers (target : Value) (source : Option Value) : Value :=
  .array (distinctBy url (elements (some target) ++ elements source))

inductive DataRule where
  | plain
  | trailers
  | nonBlankSource
  | presentSource
deriving DecidableEq

def DataRule.next (rule : DataRule) (incoming current : Option Value) (replace : Bool) :
    Option (Option Value) :=
  match rule with
  | plain => if replace || blobEmpty current then some incoming else none
  | trailers =>
    if replace || blobEmpty current then some incoming
    else some (some (unionTrailers (current.getD .null) incoming))
  | nonBlankSource =>
    if (replace || blobEmpty current) && (incoming.bind Value.asStr).any (trimChars · ≠ []) then
      some incoming
    else none
  | presentSource =>
    if blobEmpty incoming || !(replace || blobEmpty current) then none else some incoming

def DataRule.merge (rule : DataRule) : Rule (Option Value) := fun incoming current replace =>
  (rule.next incoming current replace).getD current

def dataRules : List (Text × DataRule) :=
  [("RemoteTrailers", .trailers), ("HomePageUrl", .plain), ("DisplayOrder", .nonBlankSource),
    ("Video3DFormat", .presentSource), ("AirTime", .plain), ("Status", .plain),
    ("AirDays", .plain), ("AirsBeforeSeasonNumber", .plain), ("AirsAfterSeasonNumber", .plain),
    ("AirsBeforeEpisodeNumber", .plain), ("IndexNumberEnd", .plain), ("CollectionName", .plain),
    ("TrailerTypes", .plain)].map fun e : String × DataRule => (e.1.toList, e.2)

/-! ### The merge -/

def setKey (out : Object) (key : Text) : Option Value → Object
  | some v => out.insert key v
  | none => out.erase key

def applyRule (src : Object) (replace : Bool) (out : Object) (e : Text × DataRule) : Object :=
  match e.2.next (src.lookup e.1) (out.lookup e.1) replace with
  | none => out
  | some next => setKey out e.1 next

def takeOther (replace : Bool) (out : Object) (e : Sigma fun _ : Text => Value) : Object :=
  if dataRules.any (·.1 = e.1) then out
  else if replace || blobEmpty (out.lookup e.1) then out.insert e.1 e.2
  else out

def mergeObjects (src out : Object) (replace : Bool) : Object :=
  src.entries.foldl (takeOther replace) (dataRules.foldl (applyRule src replace) out)

variable {ω : Type*} (json : Json ω)

def parseData (data : Option ω) : Object := (data.bind json.parse).getD ∅

def mergeDataBlob : Rule (Option ω) := fun source target replace =>
  let src := parseData json source
  let before := parseData json target
  let out := mergeObjects src before replace
  if sameEntries out before then target
  else if out.entries = [] ∧ target.isNone then none
  else some (json.print out)

/-! ### Keys -/

def ruleOf (key : Text) : Rule (Option Value) :=
  match dataRules.find? (·.1 = key) with
  | some e => e.2.merge
  | none => take blobEmpty Option.isSome

variable {src out : Object} {replace : Bool} {key : Text}

theorem lookup_setKey (out : Object) (key key' : Text) (v : Option Value) :
    (setKey out key v).lookup key' = if key' = key then v else out.lookup key' := by
  cases v with
  | none => exact KeyedMap.lookup_erase_eq out key key'
  | some v => exact KeyedMap.lookup_insert_eq out key key' v

theorem lookup_applyRule (e : Text × DataRule) :
    (applyRule src replace out e).lookup key =
      if key = e.1 then e.2.merge (src.lookup key) (out.lookup key) replace
      else out.lookup key := by
  rw [applyRule, DataRule.merge]
  by_cases hkey : key = e.1
  · rw [if_pos hkey, hkey]
    split
    · next hnext => rw [hnext, Option.getD_none]
    · next next hnext => rw [lookup_setKey, if_pos rfl, hnext, Option.getD_some]
  · rw [if_neg hkey]
    split
    · rfl
    · rw [lookup_setKey, if_neg hkey]

theorem lookup_applyRules {rules : List (Text × DataRule)} (h : (rules.map (·.1)).Nodup) :
    (rules.foldl (applyRule src replace) out).lookup key =
      match rules.find? (·.1 = key) with
      | some e => e.2.merge (src.lookup key) (out.lookup key) replace
      | none => out.lookup key := by
  induction rules generalizing out with
  | nil => rfl
  | cons e rules ih =>
    rw [List.map_cons, List.nodup_cons] at h
    rw [List.foldl_cons, ih h.2, lookup_applyRule, List.find?_cons]
    by_cases hkey : key = e.1
    · have hnone : rules.find? (·.1 = key) = none := by
        refine List.find?_eq_none.mpr fun e' he' heq => h.1 ?_
        rw [← hkey, ← of_decide_eq_true heq]
        exact List.mem_map_of_mem he'
      rw [hnone, decide_eq_true hkey.symm, if_pos hkey]
    · rw [decide_eq_false fun h => hkey h.symm, if_neg hkey]

theorem lookup_takeOther (e : Sigma fun _ : Text => Value) :
    (takeOther replace out e).lookup key =
      if key = e.1 ∧ dataRules.find? (·.1 = key) = none then
        take blobEmpty Option.isSome (some e.2) (out.lookup key) replace
      else out.lookup key := by
  have hany : dataRules.any (·.1 = e.1) = false ↔ dataRules.find? (·.1 = e.1) = none := by
    rw [List.find?_eq_none, List.any_eq_false]
  rw [takeOther]
  by_cases hkey : key = e.1
  · subst hkey
    rcases hrule : dataRules.any (·.1 = e.1)
    · rw [if_neg nofun, if_pos (And.intro rfl (hany.mp hrule)), take, Option.isSome_some,
        Bool.and_true]
      split
      · rw [KeyedMap.lookup_insert_eq, if_pos rfl]
      · rfl
    · have hsome : dataRules.find? (·.1 = e.1) ≠ none := fun h => by
        rw [hany.mpr h] at hrule
        cases hrule
      rw [if_pos rfl, if_neg fun h => hsome h.2]
  · have hother : ¬(key = e.1 ∧ dataRules.find? (·.1 = key) = none) := fun h => hkey h.1
    rw [if_neg hother]
    split
    · rfl
    · split
      · rw [KeyedMap.lookup_insert_eq, if_neg hkey]
      · rfl

theorem take_none (current : Option Value) (replace : Bool) :
    take blobEmpty Option.isSome none current replace = current := by
  rw [take, Option.isSome_none, Bool.and_false]
  rfl

theorem lookup_takeOthers {entries : List (Sigma fun _ : Text => Value)} (h : entries.NodupKeys) :
    (entries.foldl (takeOther replace) out).lookup key =
      if dataRules.find? (·.1 = key) = none then
        take blobEmpty Option.isSome (entries.dlookup key) (out.lookup key) replace
      else out.lookup key := by
  induction entries generalizing out with
  | nil =>
    rw [List.foldl_nil, List.dlookup_nil, take_none, ite_self]
  | cons e entries ih =>
    obtain ⟨hnew, htail⟩ := List.nodupKeys_cons.mp h
    rw [List.foldl_cons, ih htail, lookup_takeOther]
    by_cases hkey : key = e.1
    · subst hkey
      rw [List.dlookup_eq_none.mpr hnew, List.dlookup_cons_eq, take_none]
      by_cases hrule : dataRules.find? (·.1 = e.1) = none
      · rw [if_pos hrule, if_pos hrule, if_pos (And.intro rfl hrule)]
      · rw [if_neg hrule, if_neg hrule, if_neg fun h => hrule h.2]
    · have hother : ¬(key = e.1 ∧ dataRules.find? (·.1 = key) = none) := fun h => hkey h.1
      rw [if_neg hother, List.dlookup_cons_ne _ _ hkey]

theorem lookup_mergeObjects (src out : Object) (replace : Bool) (key : Text) :
    (mergeObjects src out replace).lookup key =
      ruleOf key (src.lookup key) (out.lookup key) replace := by
  have hkeys : (dataRules.map (·.1)).Nodup := by decide
  rw [mergeObjects, lookup_takeOthers src.nodupKeys, lookup_applyRules hkeys, ruleOf]
  rcases hrule : dataRules.find? (·.1 = key) with _ | e
  · rw [if_pos hrule, hrule]
    rfl
  · rw [if_neg (by rw [hrule]; nofun), hrule]

/-! ### Rules of keys -/

theorem merge_plain : DataRule.plain.merge = take blobEmpty fun _ => true := by
  funext incoming current replace
  simp only [DataRule.merge, DataRule.next, take, Bool.and_true]
  split <;> rfl

def nonBlankString (value : Option Value) : Bool := (value.bind Value.asStr).any (trimChars · ≠ [])

theorem merge_nonBlankSource : DataRule.nonBlankSource.merge = take blobEmpty nonBlankString := by
  funext incoming current replace
  rw [DataRule.merge, DataRule.next, take, nonBlankString]
  split <;> rfl

theorem merge_presentSource :
    DataRule.presentSource.merge = take blobEmpty fun value => !blobEmpty value := by
  funext incoming current replace
  rw [DataRule.merge, DataRule.next, take]
  cases blobEmpty incoming <;> cases replace || blobEmpty current <;> rfl

theorem merge_trailers (incoming current : Option Value) (replace : Bool) :
    DataRule.trailers.merge incoming current replace =
      if replace || blobEmpty current then incoming
      else some (unionTrailers (current.getD .null) incoming) := by
  rw [DataRule.merge, DataRule.next]
  split <;> rfl

/-! ### Texts -/

section Texts

variable {json} {source target : Option ω}

/-- All values of the column are read as they were written. -/
def Exact (json : Json ω) (data : Option ω) : Prop :=
  ∀ key v, (parseData json data).lookup key = some v → json.exact v

theorem lookup_parseData_print (h : ∀ key v, out.lookup key = some v → json.exact v) (key : Text) :
    (parseData json (some (json.print out))).lookup key = out.lookup key := by
  obtain ⟨out', hparse, hlookup⟩ := json.parse_print out h
  rw [parseData, Option.bind_some, hparse, Option.getD_some, hlookup]

theorem exact_of_mem_elements {value : Option Value} (h : ∀ v, value = some v → json.exact v)
    {v : Value} (hv : v ∈ elements value) : ∃ array, v ∈ array ∧ json.exact (.array array) := by
  rcases value with _ | _ | _ | _ | _ | array | _
  case some.array => exact ⟨array, hv, h _ rfl⟩
  all_goals cases hv

theorem exact_ruleOf {incoming current : Option Value}
    (hincoming : ∀ v, incoming = some v → json.exact v)
    (hcurrent : ∀ v, current = some v → json.exact v) {v : Value}
    (h : ruleOf key incoming current replace = some v) : json.exact v := by
  have hunion : ∀ target, current = some target →
      json.exact (unionTrailers target incoming) := fun target htarget => by
    refine json.exact_array _ fun v hv => ?_
    rcases List.mem_append.mp (mem_of_mem_distinctFrom hv) with hv | hv
    · exact exact_of_mem_elements (htarget ▸ hcurrent) hv
    · exact exact_of_mem_elements hincoming hv
  have htake : ∀ empty usable, take empty usable incoming current replace = some v →
      json.exact v := fun empty usable h => by
    rw [take] at h
    split at h
    · exact hincoming v h
    · exact hcurrent v h
  rw [ruleOf] at h
  rcases hrule : dataRules.find? (·.1 = key) with _ | e <;> rw [hrule] at h
  · exact htake _ _ h
  · obtain ⟨name, rule⟩ := e
    change rule.merge incoming current replace = some v at h
    cases rule with
    | plain => rw [merge_plain] at h; exact htake _ _ h
    | nonBlankSource => rw [merge_nonBlankSource] at h; exact htake _ _ h
    | presentSource => rw [merge_presentSource] at h; exact htake _ _ h
    | trailers =>
      rw [merge_trailers] at h
      split at h
      · exact hincoming v h
      · next hempty =>
        rcases current with _ | target
        · exact absurd (Bool.or_true replace) hempty
        · cases h
          exact hunion target rfl

theorem exact_mergeObjects {src : Object} (hsrc : ∀ key v, src.lookup key = some v → json.exact v)
    (hout : ∀ key v, out.lookup key = some v → json.exact v) :
    ∀ key v, (mergeObjects src out replace).lookup key = some v → json.exact v := by
  intro key v h
  rw [lookup_mergeObjects] at h
  exact exact_ruleOf (hsrc key) (hout key) h

/-- The merge writes the merged objects, or the text has their keys already. -/
theorem parseData_mergeDataBlob (json : Json ω) (source target : Option ω) (replace : Bool) :
    let out := mergeObjects (parseData json source) (parseData json target) replace
    (∀ key, (parseData json (mergeDataBlob json source target replace)).lookup key =
      out.lookup key) ∨
    mergeDataBlob json source target replace = some (json.print out) := by
  rw [mergeDataBlob]
  split
  · next hsame => exact .inl fun key => (sameEntries_iff.mp hsame key).symm
  · split
    · next hnil =>
      have hout : mergeObjects (parseData json source) (parseData json target) replace = ∅ :=
        AList.ext hnil.1
      refine .inl fun key => ?_
      rw [hout]
      rfl
    · exact .inr rfl

theorem lookup_mergeDataBlob (hsource : Exact json source) (htarget : Exact json target)
    (replace : Bool) (key : Text) :
    (parseData json (mergeDataBlob json source target replace)).lookup key =
      ruleOf key ((parseData json source).lookup key) ((parseData json target).lookup key)
        replace := by
  rw [← lookup_mergeObjects]
  rcases parseData_mergeDataBlob json source target replace with h | h
  · exact h key
  · rw [h]
    exact lookup_parseData_print (exact_mergeObjects hsource htarget) key

theorem Exact.mergeDataBlob (hsource : Exact json source) (htarget : Exact json target)
    (replace : Bool) : Exact json (mergeDataBlob json source target replace) := by
  intro key v h
  rw [lookup_mergeDataBlob hsource htarget] at h
  exact exact_ruleOf (hsource key) (htarget key) h

theorem mergeDataBlob_eq_target_iff (hsource : Exact json source) (htarget : Exact json target) :
    Ferrofin.Metadata.mergeDataBlob json source target replace = target ↔
      ∀ key, ruleOf key ((parseData json source).lookup key) ((parseData json target).lookup key)
        replace = (parseData json target).lookup key := by
  constructor
  · intro h key
    rw [← lookup_mergeDataBlob hsource htarget, h]
  · intro h
    have hsame : sameEntries (mergeObjects (parseData json source) (parseData json target) replace)
        (parseData json target) = true :=
      sameEntries_iff.mpr fun key => by rw [lookup_mergeObjects, h]
    exact if_pos hsame

end Texts

/-! ### Keys settle -/

section Trailers

def trailersUnion (target source : Option Value) : Option Value :=
  some (unionTrailers (target.getD .null) source)

variable {target source found stored : Option Value}

theorem elements_trailersUnion (target source : Option Value) :
    elements (trailersUnion target source) =
      distinctBy url (elements target ++ elements source) := by
  have htarget : elements (some (target.getD .null)) = elements target := by
    cases target <;> rfl
  rw [← htarget]
  rfl

theorem trailersUnion_eq_iff {target' source' : Option Value} :
    trailersUnion target source = trailersUnion target' source' ↔
      elements (trailersUnion target source) = elements (trailersUnion target' source') := by
  constructor
  · exact congrArg elements
  · intro h
    exact congrArg (fun values => some (Value.array values)) h

theorem elements_trailersUnion_eq_nil :
    elements (trailersUnion target source) = [] ↔ elements target = [] ∧ elements source = [] := by
  rw [elements_trailersUnion, ← List.append_eq_nil_iff, ← List.map_eq_nil_iff (f := url),
    ← List.map_eq_nil_iff (f := url) (l := elements target ++ elements source)]
  simp only [List.eq_nil_iff_forall_not_mem, mem_map_distinctBy]

theorem blobEmpty_trailersUnion (target source : Option Value) :
    blobEmpty (trailersUnion target source) =
      decide (elements target = [] ∧ elements source = []) := by
  rw [← decide_eq_decide.mpr elements_trailersUnion_eq_nil]
  rfl

theorem trailersUnion_of_nil (htarget : elements target = []) (hsource : elements source = []) :
    trailersUnion target source = some (.array []) :=
  congrArg (fun values => some (Value.array values))
    (elements_trailersUnion_eq_nil.mpr ⟨htarget, hsource⟩)

/-- A union takes nothing of which it has the `Url`s. -/
theorem trailersUnion_of_subset {x y : Option Value}
    (hsub : ∀ v ∈ elements x, url v ∈ (elements (trailersUnion target source)).map url)
    (hy : elements y = elements x) :
    trailersUnion (trailersUnion target source) y = trailersUnion target source := by
  rw [trailersUnion_eq_iff, elements_trailersUnion, hy, distinctBy_append_of_subset hsub,
    distinctBy_eq_self_iff, elements_trailersUnion]
  exact nodup_distinctBy

theorem trailersUnion_left (target source : Option Value) :
    trailersUnion (trailersUnion target source) source = trailersUnion target source := by
  refine trailersUnion_of_subset (fun v hv => ?_) rfl
  rw [elements_trailersUnion, mem_map_distinctBy]
  exact List.mem_map_of_mem (List.mem_append_right _ hv)

theorem trailersUnion_self (target source : Option Value) :
    trailersUnion (trailersUnion target source) (trailersUnion target source) =
      trailersUnion target source :=
  trailersUnion_of_subset (fun _ => List.mem_map_of_mem) rfl

theorem trailersUnion_trailersUnion (target source : Option Value) :
    trailersUnion target (trailersUnion target source) = trailersUnion target source := by
  rw [trailersUnion_eq_iff, elements_trailersUnion, elements_trailersUnion,
    distinctBy_append_distinctBy]

theorem trailersUnion_left_union (target source : Option Value) :
    trailersUnion (trailersUnion target (trailersUnion source target))
        (trailersUnion source (trailersUnion target (trailersUnion source target))) =
      trailersUnion target (trailersUnion source target) := by
  refine trailersUnion_of_subset (fun v hv => ?_) rfl
  have hkey := List.mem_map_of_mem (f := url) hv
  simp only [elements_trailersUnion, mem_map_distinctBy, List.map_append, List.mem_append] at hkey ⊢
  tauto

/-- Trailers that only fill are found as a union would write them. -/
def TrailersSettle (found stored : Option Value) : Prop :=
  (blobEmpty stored = true → blobEmpty found = false → trailersUnion found found = found) ∧
  (blobEmpty stored = false → elements stored = [] → elements found = [] →
    found = some (.array []))

/-- Trailers settle but where they only fill, or come to something that is no list. -/
theorem refresh_trailers_again_iff {keep replace : Bool} :
    refresh DataRule.trailers.merge keep replace found
        (refresh DataRule.trailers.merge keep replace found stored) =
      refresh DataRule.trailers.merge keep replace found stored ↔
    (keep = false → replace = false → TrailersSettle found stored) := by
  have hrule : DataRule.trailers.merge = fun incoming current replace =>
      if replace || blobEmpty current then incoming else trailersUnion current incoming := by
    funext incoming current replace
    exact merge_trailers incoming current replace
  rw [hrule]
  unfold refresh TrailersSettle
  by_cases hf : elements found = [] <;> by_cases hs : elements stored = [] <;>
    rcases hfe : blobEmpty found <;> rcases hse : blobEmpty stored <;> cases keep <;>
    cases replace <;>
    simp [hf, hs, hfe, hse, blobEmpty_trailersUnion, trailersUnion_left, trailersUnion_self,
      trailersUnion_trailersUnion, trailersUnion_left_union, elements_trailersUnion_eq_nil]
  -- what is left comes to an empty list
  all_goals simp [hf, hs, trailersUnion_of_nil, show elements (some (.array [])) = [] from rfl]

theorem ruleOf_remoteTrailers : ruleOf "RemoteTrailers".toList = DataRule.trailers.merge := rfl

theorem settles_ruleOf (h : key ≠ "RemoteTrailers".toList) : Settles (ruleOf key) := by
  have hmerge : ∀ rule : DataRule, rule ≠ .trailers → Settles rule.merge := fun rule hrule => by
    cases rule with
    | plain => rw [merge_plain]; exact settles_take _ _
    | trailers => exact absurd rfl hrule
    | nonBlankSource => rw [merge_nonBlankSource]; exact settles_take _ _
    | presentSource => rw [merge_presentSource]; exact settles_take _ _
  have hrules : ∀ e ∈ dataRules, e.2 = .trailers → e.1 = "RemoteTrailers".toList := by decide
  rw [ruleOf]
  rcases hrule : dataRules.find? (·.1 = key) with _ | e <;> rw [hrule]
  · exact settles_take _ _
  · have hkey : e.1 = key := by simpa using List.find?_some hrule
    refine hmerge e.2 fun htrailers => h ?_
    rw [← hkey]
    exact hrules e (List.mem_of_find?_eq_some hrule) htrailers

end Trailers

section Refresh

variable {json} {found stored : Option ω} {keep : Bool}

theorem exact_refresh (hfound : Exact json found) (hstored : Exact json stored)
    (keep replace : Bool) :
    Exact json (refresh (mergeDataBlob json) keep replace found stored) := by
  unfold refresh
  cases keep
  · exact hfound.mergeDataBlob hstored replace
  · exact (hstored.mergeDataBlob hfound false).mergeDataBlob hstored replace

theorem lookup_refresh (hfound : Exact json found) (hstored : Exact json stored)
    (keep replace : Bool) (key : Text) :
    (parseData json (refresh (mergeDataBlob json) keep replace found stored)).lookup key =
      refresh (ruleOf key) keep replace ((parseData json found).lookup key)
        ((parseData json stored).lookup key) := by
  unfold refresh
  cases keep
  · exact lookup_mergeDataBlob hfound hstored replace key
  · rw [if_pos rfl, if_pos rfl, lookup_mergeDataBlob (hstored.mergeDataBlob hfound false) hstored,
      lookup_mergeDataBlob hstored hfound]

theorem refresh_mergeDataBlob_again_iff (hfound : Exact json found) (hstored : Exact json stored) :
    refresh (mergeDataBlob json) keep replace found
        (refresh (mergeDataBlob json) keep replace found stored) =
      refresh (mergeDataBlob json) keep replace found stored ↔
    (keep = false → replace = false →
      TrailersSettle ((parseData json found).lookup "RemoteTrailers".toList)
        ((parseData json stored).lookup "RemoteTrailers".toList)) := by
  have hagain : refresh (mergeDataBlob json) keep replace found
        (refresh (mergeDataBlob json) keep replace found stored) =
      refresh (mergeDataBlob json) keep replace found stored ↔
      ∀ key, refresh (ruleOf key) keep replace ((parseData json found).lookup key)
        (refresh (ruleOf key) keep replace ((parseData json found).lookup key)
          ((parseData json stored).lookup key)) =
        refresh (ruleOf key) keep replace ((parseData json found).lookup key)
          ((parseData json stored).lookup key) := by
    have hexact := exact_refresh hfound hstored keep replace
    have hlookup := lookup_refresh hfound hstored keep replace
    generalize refresh (mergeDataBlob json) keep replace found stored = merged at hexact hlookup
    simp only [← hlookup]
    unfold refresh
    cases keep
    · exact mergeDataBlob_eq_target_iff hfound hexact
    · rw [if_pos rfl, mergeDataBlob_eq_target_iff (hexact.mergeDataBlob hfound false) hexact]
      simp only [lookup_mergeDataBlob hexact hfound, if_true]
  rw [hagain, ← refresh_trailers_again_iff, ← ruleOf_remoteTrailers]
  constructor
  · intro h
    exact h _
  · intro h key
    by_cases hkey : key = "RemoteTrailers".toList
    · rw [hkey]
      exact h
    · exact settles_ruleOf hkey ..

end Refresh

end Ferrofin.Metadata
