import Ferrofin.Lib.Upsert
import Ferrofin.Metadata.Rules
import Ferrofin.Util.Decimal
import Ferrofin.Util.Search

/-!
# External ids

An item's ids are a list of providers and values.  `mergeProviderIds` takes the ids of a source
that are valid for their provider: they replace the target's, or only those that are not valid; in
the end what is not valid is dropped.  Names are compared without ASCII case, and validity does not
look at case either.

A merge that was made already changes nothing (`settles_mergeProviderIds`), for names that are
there twice too: of these the first one is looked at, and those of the source count in their order.
-/

namespace Ferrofin.Metadata

open Lib Util
open List (filter_cons_of_pos mem_cons_of_mem mem_cons_self mem_filter)

/-! ### Valid ids -/

/-- `char::to_digit(16)`. -/
def hexDigit (c : Char) : Option ℕ :=
  if c.isDigit then some (c.toNat - '0'.toNat)
  else if 'a' ≤ c ∧ c ≤ 'f' then some (c.toNat - 'a'.toNat + 10)
  else if 'A' ≤ c ∧ c ≤ 'F' then some (c.toNat - 'A'.toNat + 10)
  else none

/-- The number that hexadecimal digits write, if they are such. -/
def fromHex (s : Text) : Option ℕ :=
  s.foldlM (fun n c => (hexDigit c).map (16 * n + ·)) 0

def guidHex (s : Text) : Option ℕ :=
  let s := if s.head? = some '+' then s.tail else s
  let s := if s.head? = some '0' ∧ (s.tail.head? = some 'x' ∨ s.tail.head? = some 'X') then s.drop 2
    else s
  let significant := s.dropWhile (· = '0')
  if significant.length ≤ 8 then fromHex significant else none

def guidN (s : Text) : Option ℕ := if s.length = 32 then fromHex s else none

def fromFields (first second third tail : ℕ) : ℕ :=
  ((first * 2 ^ 16 + second) * 2 ^ 16 + third) * 2 ^ 64 + tail

def guidD (s : Text) : Option ℕ :=
  if s.length = 36 ∧ [8, 13, 18, 23].all fun i => s[i]? = some '-' then do
    let first ← guidHex (s.take 8)
    let second ← guidHex ((s.drop 9).take 4)
    let third ← guidHex ((s.drop 14).take 4)
    let fourth ← guidHex ((s.drop 19).take 4)
    let last ← fromHex (s.drop 24)
    return fromFields first second third (fourth * 2 ^ 48 + last)
  else none

def guidWrapped (s : Text) (close : Char) : Option ℕ :=
  if s.length = 38 ∧ s[37]? = some close then guidD ((s.drop 1).take 36) else none

def guidComponent (part : Text) : Option ℕ :=
  if part.head? = some '0' ∧ (part.tail.head? = some 'x' ∨ part.tail.head? = some 'X') ∧
      part.drop 2 ≠ [] then guidHex (part.drop 2)
  else none

/-- A byte of `guid_x`. -/
def guidByte (part : Text) : Option ℕ := (guidComponent part).filter (· < 256)

def guidX (s : Text) : Option ℕ :=
  let s := s.filter (!isWhitespace ·)
  if s.head? = some '{' ∧ ['}', '}'].isSuffixOf s.tail then
    match (s.tail.take (s.tail.length - 2)).splitOn ',' with
    | [first, second, third, byte, b₁, b₂, b₃, b₄, b₅, b₆, b₇] => do
      if byte.head? = some '{' then
        let tail ← [byte.tail, b₁, b₂, b₃, b₄, b₅, b₆, b₇].foldlM
          (fun n part => (guidByte part).map (256 * n + ·)) 0
        return fromFields (← guidComponent first) ((← guidComponent second) % 2 ^ 16)
          ((← guidComponent third) % 2 ^ 16) tail
      else none
    | _ => none
  else none

def parseGuid (value : Text) : Option ℕ :=
  let s := trimChars value
  if s.length < 32 then none
  else if s.head? = some '(' then guidWrapped s ')'
  else if s.head? = some '{' then if s[9]? = some '-' then guidWrapped s '}' else guidX s
  else if s[8]? = some '-' then guidD s
  else guidN s

def isPositiveNumber (value : Text) : Bool :=
  value.all Char.isDigit && (parseInt 32 value).any (0 < ·)

def isImdbId (value : Text) : Bool :=
  let digits :=
    if ["tt", "nm", "co", "ev", "ch", "ni"].any fun p => sameIgnoreAsciiCase (value.take 2) p.toList
    then value.drop 2 else value
  digits ≠ [] && digits.all Char.isDigit

def numberProviders : List String := ["Tmdb", "TmdbCollection", "AudioDbArtist", "AudioDbAlbum"]

def guidProviders : List String :=
  ["MusicBrainzAlbum", "MusicBrainzAlbumArtist", "MusicBrainzArtist", "MusicBrainzReleaseGroup",
    "MusicBrainzRecording", "MusicBrainzTrack"]

def isValidProviderId (name value : Text) : Bool :=
  let is (known : String) := sameIgnoreAsciiCase name known.toList
  if trimChars name = [] ∨ trimChars value = [] then false
  else if is "Imdb" then isImdbId value
  else if numberProviders.any is then isPositiveNumber value
  else if guidProviders.any is then (parseGuid value).isSome
  else true

/-! ### Names -/

def lowerName (name : Text) : Text := name.map Char.toLower

theorem isWhitespace_toLower (c : Char) : isWhitespace c.toLower = isWhitespace c := by
  have hupper : ∀ n < 26, isWhitespace (Char.ofNat (65 + n)).toLower =
      isWhitespace (Char.ofNat (65 + n)) := by decide
  by_cases hc : c.val ≥ 'A'.val ∧ c.val ≤ 'Z'.val
  · have hlo : 65 ≤ c.toNat := hc.1
    have hhi : c.toNat ≤ 90 := hc.2
    have heq : Char.ofNat (65 + (c.toNat - 65)) = c := by
      rw [Nat.add_sub_cancel' hlo, Char.ofNat_toNat]
    rw [← heq]
    exact hupper _ (by omega)
  · delta Char.toLower
    rw [dif_neg hc]

theorem trimChars_eq_nil_iff {s : Text} : trimChars s = [] ↔ ∀ c ∈ s, isWhitespace c = true := by
  constructor
  · intro h c hc
    obtain ⟨front, back, heq, hfront, hback⟩ := trimChars_eq s
    rw [heq, h, List.append_nil, List.mem_append] at hc
    exact hc.elim (List.all_eq_true.mp hfront c) (List.all_eq_true.mp hback c)
  · intro h
    rw [trimChars, List.dropWhile_eq_nil_iff.mpr h]
    rfl

theorem isValidProviderId_congr {name name' : Text} (h : lowerName name = lowerName name')
    (value : Text) : isValidProviderId name value = isValidProviderId name' value := by
  have hsame : ∀ known : Text, sameIgnoreAsciiCase name known = sameIgnoreAsciiCase name' known :=
    fun known => by
      rw [sameIgnoreAsciiCase, sameIgnoreAsciiCase]
      exact congrArg (· == _) h
  have hblank : trimChars name = [] ↔ trimChars name' = [] := by
    have hlower : ∀ s : Text, trimChars s = [] ↔ ∀ c ∈ lowerName s, isWhitespace c = true :=
      fun s => by simp [trimChars_eq_nil_iff, lowerName, isWhitespace_toLower]
    rw [hlower, hlower, h]
  simp only [isValidProviderId, hsame, hblank]

/-! ### The merge -/

def validEntry (e : Text × Text) : Bool := isValidProviderId e.1 e.2

def mergeProviderIds : Rule (List (Text × Text)) := fun source target replace =>
  (source.foldl (fun out e =>
    if validEntry e then upsert lowerName (fun x => replace || !validEntry x) out e else out)
    target).filter validEntry

variable {source target out : List (Text × Text)} {e x : Text × Text} {replace : Bool}
  {c : Text}

theorem mergeProviderIds_eq (source target : List (Text × Text)) (replace : Bool) :
    mergeProviderIds source target replace =
      (upsertAll lowerName (fun x => replace || !validEntry x) (source.filter validEntry)
        target).filter validEntry := by
  rw [mergeProviderIds, upsertAll, List.foldl_filter]

theorem validEntry_mergeProviderIds (h : e ∈ mergeProviderIds source target replace) :
    validEntry e = true := (mem_filter.mp h).2

theorem ofKey_filter (l : List (Text × Text)) :
    ofKey (entryClass lowerName) c (l.filter validEntry) =
      (ofKey (entryClass lowerName) c l).filter validEntry := by
  rw [ofKey, ofKey, List.filter_filter, List.filter_filter]
  exact List.filter_congr fun e _ => Bool.and_comm ..

theorem ofKey_mergeProviderIds (source target : List (Text × Text)) (replace : Bool) (c : Text) :
    ofKey (entryClass lowerName) c (mergeProviderIds source target replace) =
      mergeProviderIds (ofKey (entryClass lowerName) c source)
        (ofKey (entryClass lowerName) c target) replace := by
  rw [mergeProviderIds_eq, ofKey_filter, ofKey_upsertAll, ofKey_filter, mergeProviderIds_eq]

theorem ofKey_refresh (keep replace : Bool) (found stored : List (Text × Text)) (c : Text) :
    ofKey (entryClass lowerName) c (refresh mergeProviderIds keep replace found stored) =
      refresh mergeProviderIds keep replace (ofKey (entryClass lowerName) c found)
        (ofKey (entryClass lowerName) c stored) := by
  rw [refresh, ofKey_mergeProviderIds, refresh]
  cases keep
  · rfl
  · rw [if_pos rfl, if_pos rfl, ofKey_mergeProviderIds]

def OfClass (c : Text) (l : List (Text × Text)) : Prop := ∀ e ∈ l, entryClass lowerName e = c

theorem ofClass_ofKey (c : Text) (l : List (Text × Text)) :
    OfClass c (ofKey (entryClass lowerName) c l) := fun _ he =>
  of_decide_eq_true (mem_filter.mp he).2

theorem OfClass.filter (h : OfClass c source) (p : Text × Text → Bool) :
    OfClass c (source.filter p) := fun e he => h e (mem_filter.mp he).1

theorem validEntry_of_class (hx : entryClass lowerName x = c) (he : entryClass lowerName e = c) :
    validEntry (x.1, e.2) = validEntry e := isValidProviderId_congr (hx.trans he.symm) e.2

/-! ### The ids of one name -/

section OneName

variable (hsource : OfClass c source)

include hsource

theorem fill_nil : mergeProviderIds source [] false = (source.filter validEntry).head?.toList := by
  rw [mergeProviderIds_eq]
  rcases hvalid : source.filter validEntry with _ | ⟨e, rest⟩
  · rfl
  · have hclass := hsource.filter validEntry
    have he : validEntry e = true :=
      (mem_filter.mp (hvalid ▸ mem_cons_self : e ∈ source.filter validEntry)).2
    rw [hvalid] at hclass
    rw [upsertAll_cons, show upsert lowerName _ [] e = [e] from rfl,
      upsertAll_keep (by rw [he]; rfl) (hclass e mem_cons_self)
        fun e' he' => hclass e' (mem_cons_of_mem _ he')]
    exact filter_cons_of_pos he

theorem fill_valid (hx : entryClass lowerName x = c) (hvalid : validEntry x = true)
    (target : List (Text × Text)) :
    mergeProviderIds source (x :: target) false = x :: target.filter validEntry := by
  rw [mergeProviderIds_eq, upsertAll_keep (by rw [hvalid]; rfl) hx (hsource.filter validEntry),
    filter_cons_of_pos hvalid]

theorem fill_invalid (hx : entryClass lowerName x = c) (hvalid : validEntry x = false)
    (target : List (Text × Text)) :
    mergeProviderIds source (x :: target) false =
      ((source.filter validEntry).head?.map fun e => (x.1, e.2)).toList ++
        target.filter validEntry := by
  rw [mergeProviderIds_eq]
  have hclass := hsource.filter validEntry
  rcases hfilter : source.filter validEntry with _ | ⟨e, rest⟩
  · exact List.filter_cons_of_neg (by rw [hvalid]; nofun)
  · have he : validEntry e = true :=
      (mem_filter.mp (hfilter ▸ mem_cons_self : e ∈ source.filter validEntry)).2
    rw [hfilter] at hclass
    have heclass := hclass e mem_cons_self
    have hnew : validEntry (x.1, e.2) = true := (validEntry_of_class hx heclass).trans he
    rw [upsertAll_cons, upsert_cons_pos (hx.trans heclass.symm), if_pos (by rw [hvalid]; rfl),
      upsertAll_keep (x := (x.1, e.2)) (by rw [hnew]; rfl) hx
        fun e' he' => hclass e' (mem_cons_of_mem _ he'), filter_cons_of_pos hnew]
    rfl

theorem replace_cons (hx : entryClass lowerName x = c) (target : List (Text × Text)) :
    mergeProviderIds source (x :: target) true =
      match (source.filter validEntry).getLast? with
      | none => (x :: target).filter validEntry
      | some e => (x.1, e.2) :: target.filter validEntry := by
  have hrep : ∀ x : Text × Text, (true || !validEntry x) = true := fun _ => rfl
  rw [mergeProviderIds_eq, upsertAll_replace hrep hx (hsource.filter validEntry)]
  rcases hlast : (source.filter validEntry).getLast? with _ | e
  · rfl
  · have hmem := List.mem_of_getLast? hlast
    have hnew : validEntry (x.1, e.2) = true :=
      (validEntry_of_class hx (hsource.filter validEntry e hmem)).trans (mem_filter.mp hmem).2
    exact filter_cons_of_pos hnew

theorem replace_nil : mergeProviderIds source [] true =
    match (source.filter validEntry).head?, (source.filter validEntry).getLast? with
    | some e, some l => [(e.1, l.2)]
    | _, _ => [] := by
  have hrep : ∀ x : Text × Text, (true || !validEntry x) = true := fun _ => rfl
  have hclass := hsource.filter validEntry
  rcases hfilter : source.filter validEntry with _ | ⟨e, rest⟩
  · rw [mergeProviderIds_eq, hfilter]
    rfl
  · have he : validEntry e = true :=
      (mem_filter.mp (hfilter ▸ mem_cons_self : e ∈ source.filter validEntry)).2
    rw [hfilter] at hclass
    have heclass := hclass e mem_cons_self
    have hrest : OfClass c rest := fun e' he' => hclass e' (mem_cons_of_mem _ he')
    rw [mergeProviderIds_eq, hfilter, upsertAll_cons, show upsert lowerName _ [] e = [e] from rfl,
      upsertAll_replace hrep heclass hrest, List.getLast?_cons, List.head?_cons]
    rcases hlast : rest.getLast? with _ | l
    · exact filter_cons_of_pos he
    · have hl : l ∈ e :: rest := mem_cons_of_mem _ (List.mem_of_getLast? hlast)
      have hlvalid : validEntry l = true :=
        (mem_filter.mp (hfilter ▸ hl : l ∈ source.filter validEntry)).2
      exact filter_cons_of_pos ((validEntry_of_class heclass (hclass l hl)).trans hlvalid)

theorem filter_eq_nil_of_merge (replace : Bool)
    (h : mergeProviderIds source target replace = []) (htarget : OfClass c target) :
    source.filter validEntry = [] := by
  by_contra hne
  obtain ⟨e, rest, hfilter⟩ := List.exists_cons_of_ne_nil hne
  obtain ⟨l, hlast⟩ : ∃ l, (source.filter validEntry).getLast? = some l := by
    rw [hfilter]
    exact ⟨_, List.getLast?_eq_some_getLast (List.cons_ne_nil e rest)⟩
  rcases target with _ | ⟨x, target⟩ <;> cases replace
  · rw [fill_nil hsource, hfilter] at h
    cases h
  · rw [replace_nil hsource, hlast, hfilter] at h
    cases h
  · have hx := htarget x mem_cons_self
    rcases hvalid : validEntry x
    · rw [fill_invalid hsource hx hvalid, hfilter] at h
      cases h
    · rw [fill_valid hsource hx hvalid] at h
      cases h
  · rw [replace_cons hsource (htarget x mem_cons_self), hlast] at h
    cases h

end OneName

theorem OfClass.merge (hsource : OfClass c source) (htarget : OfClass c target) (replace : Bool) :
    OfClass c (mergeProviderIds source target replace) := by
  rw [mergeProviderIds_eq]
  refine OfClass.filter ?_ _
  have hall : ∀ (l out : List (Text × Text)), OfClass c l → OfClass c out →
      OfClass c (upsertAll lowerName (fun x => replace || !validEntry x) l out) := by
    intro l
    induction l with
    | nil => exact fun out _ hout => hout
    | cons e l ih =>
      intro out hl hout
      refine ih _ (fun e' he' => hl e' (mem_cons_of_mem _ he')) ?_
      exact forall_mem_upsert hout (hl e mem_cons_self)
        fun x hx => hx.trans (hl e mem_cons_self)
  exact hall _ _ (hsource.filter validEntry) htarget

theorem merge_fill_of_valid (hsource : OfClass c source) (htarget : OfClass c target)
    (hvalid : ∀ x ∈ target, validEntry x = true)
    (hne : target = [] → source.filter validEntry = []) :
    mergeProviderIds source target false = target := by
  rcases target with _ | ⟨x, target⟩
  · rw [fill_nil hsource, hne rfl]
    rfl
  · rw [fill_valid hsource (htarget x mem_cons_self) (hvalid x mem_cons_self),
      List.filter_eq_self.mpr fun e he => hvalid e (mem_cons_of_mem _ he)]

theorem merge_of_filter_eq_nil (h : source.filter validEntry = []) (target : List (Text × Text))
    (replace : Bool) : mergeProviderIds source target replace = target.filter validEntry := by
  rw [mergeProviderIds_eq, h]
  rfl

theorem filter_mergeProviderIds (source target : List (Text × Text)) (replace : Bool) :
    (mergeProviderIds source target replace).filter validEntry =
      mergeProviderIds source target replace :=
  List.filter_eq_self.mpr fun _ => validEntry_mergeProviderIds

def lastValue (l : List (Text × Text)) : Option Text := (l.filter validEntry).getLast?.map (·.2)

theorem lastValue_eq_none : lastValue source = none ↔ source.filter validEntry = [] := by
  rw [lastValue, Option.map_eq_none_iff, List.getLast?_eq_none_iff]

theorem head?_replace (hsource : OfClass c source) (htarget : OfClass c target) {v : Text}
    (h : lastValue source = some v) :
    ∃ name rest, mergeProviderIds source target true = (name, v) :: rest ∧
      rest.filter validEntry = rest := by
  obtain ⟨l, hl, rfl⟩ := Option.map_eq_some_iff.mp h
  rcases target with _ | ⟨x, target⟩
  · obtain ⟨e, rest, hfilter⟩ := List.exists_cons_of_ne_nil
      (List.ne_nil_of_mem (List.mem_of_getLast? hl))
    refine ⟨e.1, [], ?_, rfl⟩
    rw [replace_nil hsource, hl, hfilter]
    rfl
  · refine ⟨x.1, target.filter validEntry, ?_, ?_⟩
    · rw [replace_cons hsource (htarget x mem_cons_self), hl]
    · rw [List.filter_filter]
      simp only [Bool.and_self]

theorem replace_again {source' : List (Text × Text)} (hsource : OfClass c source)
    (hsource' : OfClass c source') (htarget : OfClass c target)
    (h : lastValue source' = lastValue source) :
    mergeProviderIds source' (mergeProviderIds source target true) true =
      mergeProviderIds source target true := by
  rcases hlast : lastValue source with _ | v
  · rw [merge_of_filter_eq_nil (lastValue_eq_none.mp (h.trans hlast)), filter_mergeProviderIds]
  · obtain ⟨name, rest, hmerge, hrest⟩ := head?_replace hsource htarget hlast
    have hclass := OfClass.merge hsource htarget true
    rw [hmerge] at hclass ⊢
    obtain ⟨l, hl, rfl⟩ := Option.map_eq_some_iff.mp (h.trans hlast)
    rw [replace_cons hsource' (hclass _ mem_cons_self), hl, hrest]

theorem lastValue_fill_again {found stored : List (Text × Text)} (hfound : OfClass c found)
    (hstored : OfClass c stored) :
    lastValue (mergeProviderIds
        (mergeProviderIds (mergeProviderIds stored found false) stored true) found false) =
      lastValue (mergeProviderIds stored found false) := by
  have hfill := OfClass.merge hstored hfound false
  have hmerge := OfClass.merge hfill hstored true
  rcases hlast : lastValue (mergeProviderIds stored found false) with _ | v
  · have hnil := lastValue_eq_none.mp hlast
    rw [filter_mergeProviderIds] at hnil
    have hs := filter_eq_nil_of_merge hstored false hnil hfound
    rw [merge_of_filter_eq_nil hs] at hnil
    rw [lastValue_eq_none, filter_mergeProviderIds, merge_of_filter_eq_nil ?_, hnil]
    rw [filter_mergeProviderIds, merge_of_filter_eq_nil ?_, hs]
    rw [filter_mergeProviderIds, merge_of_filter_eq_nil hs, hnil]
  obtain ⟨name, rest, heq, -⟩ := head?_replace hfill hstored hlast
  have hvalid : validEntry (name, v) = true :=
    validEntry_mergeProviderIds (heq ▸ mem_cons_self)
  have hhead : ((mergeProviderIds (mergeProviderIds stored found false) stored true).filter
      validEntry).head? = some (name, v) := by rw [filter_mergeProviderIds, heq]; rfl
  rw [lastValue, filter_mergeProviderIds] at hlast ⊢
  rcases found with _ | ⟨y, found⟩
  · rw [fill_nil hmerge, hhead]
    rfl
  have hy := hfound y mem_cons_self
  rcases hyvalid : validEntry y
  · rw [fill_invalid hstored hy hyvalid] at hlast
    rw [fill_invalid hmerge hy hyvalid, hhead]
    rcases hrest : found.filter validEntry with _ | ⟨z, zs⟩
    · rfl
    · rw [hrest, List.getLast?_append_of_ne_nil _ (List.cons_ne_nil z zs)] at hlast
      rw [List.getLast?_append_of_ne_nil _ (List.cons_ne_nil z zs), hlast]
  · rw [fill_valid hstored hy hyvalid] at hlast
    rw [fill_valid hmerge hy hyvalid, hlast]

theorem refresh_again_ofClass {found stored : List (Text × Text)} (hfound : OfClass c found)
    (hstored : OfClass c stored) (keep replace : Bool) :
    refresh mergeProviderIds keep replace found
        (refresh mergeProviderIds keep replace found stored) =
      refresh mergeProviderIds keep replace found stored := by
  have hfill := OfClass.merge hstored hfound false
  cases keep <;> cases replace
  · exact merge_fill_of_valid hfound (hfound.merge hstored false)
      (fun _ => validEntry_mergeProviderIds)
      fun hnil => filter_eq_nil_of_merge hfound false hnil hstored
  · exact replace_again hfound hfound hstored rfl
  · have hmerge := OfClass.merge hfill hstored false
    refine merge_fill_of_valid (OfClass.merge hmerge hfound false) hmerge
      (fun _ => validEntry_mergeProviderIds) fun hnil => ?_
    change mergeProviderIds (mergeProviderIds stored found false) stored false = [] at hnil
    change (mergeProviderIds (mergeProviderIds (mergeProviderIds stored found false) stored false)
      found false).filter validEntry = []
    have hf := filter_eq_nil_of_merge hfill false hnil hstored
    rw [filter_mergeProviderIds] at hf
    rw [hnil, filter_mergeProviderIds, merge_of_filter_eq_nil rfl,
      ← merge_of_filter_eq_nil (filter_eq_nil_of_merge hstored false hf hfound), hf]
  · exact replace_again hfill (OfClass.merge (OfClass.merge hfill hstored true) hfound false)
      hstored (lastValue_fill_again hfound hstored)

/-! ### All ids -/

theorem map_entryClass_merge (hvalid : ∀ x ∈ target, validEntry x = true)
    (h : ∀ e ∈ source.filter validEntry,
      entryClass lowerName e ∈ target.map (entryClass lowerName)) :
    (mergeProviderIds source target replace).map (entryClass lowerName) =
      target.map (entryClass lowerName) := by
  rw [mergeProviderIds_eq, List.filter_eq_self.mpr, map_upsertAll h]
  have hall : ∀ (l out : List (Text × Text)), (∀ e ∈ l, validEntry e = true) →
      (∀ e ∈ out, validEntry e = true) →
      ∀ e ∈ upsertAll lowerName (fun x => replace || !validEntry x) l out, validEntry e = true := by
    intro l
    induction l with
    | nil => exact fun out _ hout => hout
    | cons e l ih =>
      intro out hl hout
      refine ih _ (fun e' he' => hl e' (mem_cons_of_mem _ he')) ?_
      refine forall_mem_upsert hout (hl e mem_cons_self) fun x hx => ?_
      exact (validEntry_of_class hx rfl).trans (hl e mem_cons_self)
  exact hall _ _ (fun e he => (mem_filter.mp he).2) hvalid

theorem settles_mergeProviderIds : Settles mergeProviderIds := by
  intro keep replace found stored
  have hclass : ∀ c, ofKey (entryClass lowerName) c (refresh mergeProviderIds keep replace found
      (refresh mergeProviderIds keep replace found stored)) =
      ofKey (entryClass lowerName) c (refresh mergeProviderIds keep replace found stored) :=
    fun c => by
      rw [ofKey_refresh, ofKey_refresh]
      exact refresh_again_ofClass (ofClass_ofKey c found) (ofClass_ofKey c stored) keep replace
  refine eq_of_ofKey_eq ?_ hclass
  refine map_entryClass_merge (fun _ => validEntry_mergeProviderIds) fun e he => ?_
  -- a valid id comes out under its name, and what comes out was there
  by_contra hnew
  have hnil : ofKey (entryClass lowerName) (entryClass lowerName e)
      (refresh mergeProviderIds keep replace found stored) = [] := by
    refine List.filter_eq_nil_iff.mpr fun x hx hkey => hnew ?_
    exact List.mem_map.mpr ⟨x, hx, of_decide_eq_true hkey⟩
  have hmerge := hclass (entryClass lowerName e)
  rw [hnil, refresh, ofKey_mergeProviderIds] at hmerge
  have hfilter := filter_eq_nil_of_merge (ofClass_ofKey _ _) replace hmerge (ofClass_ofKey _ _)
  rw [← ofKey_filter] at hfilter
  have hmem : e ∈ ofKey (entryClass lowerName) (entryClass lowerName e)
      (List.filter validEntry _) :=
    mem_filter.mpr ⟨he, decide_eq_true rfl⟩
  rw [hfilter] at hmem
  cases hmem

end Ferrofin.Metadata
