import Ferrofin.Lib.Cut
import Ferrofin.Lib.Fallible

/-!
# The text of a password hash

A password hash is written `$id`, and after it its parameters, its salt and its hash, each a segment
of its own when it is there (`PasswordHash.toString`).  `PasswordHash.parse` tells the segments
apart by what they contain and by their number.
-/

namespace Ferrofin.Cryptography

open Lib

inductive CryptoError where
  | argument (message : String)
  | format (message : String)
deriving DecidableEq

/-! ### Hexadecimal digits -/

def hexVal (c : Char) : Except CryptoError UInt8 :=
  if '0' ≤ c ∧ c ≤ '9' then .ok (.ofNat (c.toNat - 48))
  else if 'a' ≤ c ∧ c ≤ 'f' then .ok (.ofNat (c.toNat - 97 + 10))
  else if 'A' ≤ c ∧ c ≤ 'F' then .ok (.ofNat (c.toNat - 65 + 10))
  else .error (.format "The input is not a valid hex string")

/-- `from_hex_string`; the bytes of a character that is not ASCII are no digits. -/
def fromHexString : List Char → Except CryptoError (List UInt8)
  | [] => .ok []
  | hi :: lo :: rest =>
    match hexVal hi, hexVal lo, fromHexString rest with
    | .ok hi, .ok lo, .ok out => .ok ((hi <<< 4 ||| lo) :: out)
    | _, _, _ => .error (.format "The input is not a valid hex string")
  | [_] => .error (.format "The input is not a valid hex string")

/-- A digit of `format!("{:X}")`. -/
def hexDigit (n : Nat) : Char := if n < 10 then .ofNat (48 + n) else .ofNat (55 + n)

def toHexString (bytes : List UInt8) : List Char :=
  bytes.flatMap fun b => [hexDigit (b.toNat / 16), hexDigit (b.toNat % 16)]

theorem hexVal_hexDigit : ∀ n < 16, hexVal (hexDigit n) = .ok (.ofNat n) := by decide

theorem or_nibbles : ∀ hi < 16, ∀ lo < 16,
    UInt8.ofNat hi <<< 4 ||| UInt8.ofNat lo = UInt8.ofNat (16 * hi + lo) := by decide

theorem nibbles (b : UInt8) :
    UInt8.ofNat (b.toNat / 16) <<< 4 ||| UInt8.ofNat (b.toNat % 16) = b := by
  have hb := b.toNat_lt
  rw [or_nibbles _ (by omega) _ (by omega), Nat.div_add_mod, UInt8.ofNat_toNat]

theorem fromHexString_toHexString (bytes : List UInt8) :
    fromHexString (toHexString bytes) = .ok bytes := by
  induction bytes with
  | nil => rfl
  | cons b bytes ih =>
    have hb := b.toNat_lt
    have hhi := hexVal_hexDigit (b.toNat / 16) (by omega)
    have hlo := hexVal_hexDigit (b.toNat % 16) (by omega)
    show fromHexString (_ :: _ :: toHexString bytes) = _
    rw [fromHexString, hhi, hlo, ih]
    simp only [nibbles]

theorem hexDigit_ne : ∀ n < 16, hexDigit n ≠ '$' ∧ hexDigit n ≠ '=' := by decide

theorem notMem_toHexString (bytes : List UInt8) :
    '$' ∉ toHexString bytes ∧ '=' ∉ toHexString bytes := by
  have hmem : ∀ c ∈ toHexString bytes, c ≠ '$' ∧ c ≠ '=' := by
    intro c hc
    obtain ⟨b, -, hb⟩ := List.mem_flatMap.mp hc
    have hlt := b.toNat_lt
    rcases List.mem_pair.mp hb with rfl | rfl
    · exact hexDigit_ne _ (by omega)
    · exact hexDigit_ne _ (by omega)
  exact ⟨fun h => (hmem _ h).1 rfl, fun h => (hmem _ h).2 rfl⟩

theorem toHexString_eq_nil {bytes : List UInt8} : toHexString bytes = [] ↔ bytes = [] := by
  cases bytes <;> simp [toHexString]

/-! ### The value and its text -/

structure PasswordHash where
  id : List Char
  parameters : List (List Char × List Char)
  salt : List UInt8
  hash : List UInt8
  idNonempty : id ≠ []
deriving DecidableEq

namespace PasswordHash

def new (id : List Char) (hash salt : List UInt8) (parameters : List (List Char × List Char)) :
    Except CryptoError PasswordHash :=
  if h : id = [] then .error (.argument "id") else .ok ⟨id, parameters, salt, hash, h⟩

def withHash (id : List Char) (hash : List UInt8) : Except CryptoError PasswordHash :=
  new id hash [] []

/-- One parameter of `parse`. -/
def parseParameter (parameter : List Char) : Except CryptoError (List Char × List Char) :=
  match cut '=' parameter with
  | (key, some value) =>
    if key ≠ [] ∧ value ≠ [] then .ok (key, value)
    else .error (.format "Malformed parameter in password hash string")
  | (_, none) => .error (.format "Malformed parameter in password hash string")

/-- The loop of `parse` over the parameters. -/
def parseParameters (span : List Char) : Except CryptoError (List (List Char × List Char)) :=
  (pieces ',' span).mapM parseParameter

def parseSaltAndHash (id : List Char) (parameters : List (List Char × List Char))
    (segments : List Char) : Except CryptoError PasswordHash :=
  match cut '$' segments with
  | ([], some _) => .error (.format "Hash string contains an empty segment")
  | (_, none) => do
    let hash ← fromHexString segments
    new id hash [] parameters
  | (first, some second) => do
    let salt ← fromHexString first
    if (cut '$' second).2.isSome then
      .error (.format "Hash string contains too many segments")
    else if second = [] then .error (.format "Hash segment is empty")
    else do
      let hash ← fromHexString second
      new id hash salt parameters

def parse (hashString : List Char) : Except CryptoError PasswordHash :=
  match hashString with
  | [] => .error (.argument "String can't be empty")
  | '$' :: hashString =>
    match cut '$' hashString with
    | ([], _) => .error (.format "Hash string must contain a valid id")
    | (id, none) => withHash id []
    | (id, some segments) =>
      let (first, rest) := cut '$' segments
      if '=' ∈ first then do
        let parameters ← parseParameters first
        match rest with
        | none => new id [] [] parameters
        | some segments => parseSaltAndHash id parameters segments
      else parseSaltAndHash id [] segments
  | _ => .error (.format "Hash string must start with a $")

/-- `serialize_parameters`: the last comma is taken back. -/
def serializeParameters (parameters : List (List Char × List Char)) : List Char :=
  if parameters = [] then []
  else '$' :: (parameters.flatMap fun p => p.1 ++ '=' :: p.2 ++ [',']).dropLast

def toString (h : PasswordHash) : List Char :=
  '$' :: h.id ++ serializeParameters h.parameters ++
    (if h.salt = [] then [] else '$' :: toHexString h.salt) ++
    (if h.hash = [] then [] else '$' :: toHexString h.hash)

/-! ### What is read -/

/-- A parameter that is read as it was written. -/
structure Parameter (p : List Char × List Char) : Prop where
  keyNonempty : p.1 ≠ []
  valueNonempty : p.2 ≠ []
  keyPlain : '$' ∉ p.1 ∧ ',' ∉ p.1 ∧ '=' ∉ p.1
  valuePlain : '$' ∉ p.2 ∧ ',' ∉ p.2

/-- A value whose segments can be told apart: its salt is not alone. -/
structure Canonical (h : PasswordHash) : Prop where
  idPlain : '$' ∉ h.id
  parameters : ∀ p ∈ h.parameters, Parameter p
  salted : h.salt = [] ∨ h.hash ≠ []

theorem new_eq_ok {id : List Char} {hash salt : List UInt8}
    {parameters : List (List Char × List Char)} {h : PasswordHash} :
    new id hash salt parameters = .ok h ↔
      h.id = id ∧ h.parameters = parameters ∧ h.salt = salt ∧ h.hash = hash := by
  unfold new
  split
  · next hid =>
    constructor
    · rintro ⟨⟩
    · rintro ⟨rfl, -⟩
      exact absurd hid h.idNonempty
  · constructor
    · rintro ⟨⟩
      exact ⟨rfl, rfl, rfl, rfl⟩
    · rintro ⟨rfl, rfl, rfl, rfl⟩
      rfl

variable {span rest : List Char} {ps : List (List Char × List Char)}
  {p : List Char × List Char}

def text (p : List Char × List Char) : List Char := p.1 ++ '=' :: p.2

theorem text_ne_nil : text p ≠ [] := by simp [text]

theorem Parameter.notMem_text (h : Parameter p) : '$' ∉ text p ∧ ',' ∉ text p := by
  obtain ⟨-, -, hkey, hvalue⟩ := h
  simp [text, hkey, hvalue]

theorem parseParameter_eq_ok {parameter : List Char} :
    parseParameter parameter = .ok p ↔
      parameter = text p ∧ '=' ∉ p.1 ∧ p.1 ≠ [] ∧ p.2 ≠ [] := by
  obtain ⟨key, value⟩ := p
  rcases hcut : cut '=' parameter with ⟨before, _ | after⟩
  · rw [parseParameter, hcut]
    constructor
    · rintro ⟨⟩
    · rintro ⟨rfl, hkey, -⟩
      rw [text, cut_append hkey] at hcut
      cases hcut
  · rw [parseParameter, hcut]
    constructor
    · intro h
      obtain ⟨hparameter, hbefore⟩ := cut_eq_some.mp hcut
      by_cases hne : before ≠ [] ∧ after ≠ []
      · cases (if_pos hne).symm.trans h
        exact ⟨hparameter, hbefore, hne⟩
      · cases (if_neg hne).symm.trans h
    · rintro ⟨rfl, hkey, hne⟩
      rw [text, cut_append hkey] at hcut
      cases hcut
      exact if_pos hne

theorem parameter_of_parseParameters (hspan : '$' ∉ span) (h : parseParameters span = .ok ps)
    (hp : p ∈ ps) : Parameter p := by
  obtain ⟨parameter, hpiece, hparse⟩ := exists_of_mem_mapM h hp
  obtain ⟨hcomma, hmem⟩ := mem_of_mem_pieces hpiece
  obtain ⟨rfl, hequals, hkey, hvalue⟩ := parseParameter_eq_ok.mp hparse
  have hdollar : '$' ∉ text p := fun hd => hspan (hmem _ hd)
  simp only [text, List.mem_append, List.mem_cons, not_or] at hdollar hcomma
  exact ⟨hkey, hvalue, ⟨hdollar.1, hcomma.1, hequals⟩, hdollar.2.2, hcomma.2.2⟩

theorem parseParameter_text (h : Parameter p) : parseParameter (text p) = .ok p :=
  parseParameter_eq_ok.mpr ⟨rfl, h.keyPlain.2.2, h.keyNonempty, h.valueNonempty⟩

def texts (ps : List (List Char × List Char)) : List Char :=
  ((ps.map text).flatMap fun parameter => parameter ++ [',']).dropLast

theorem parseParameters_texts (h : ∀ p ∈ ps, Parameter p) :
    parseParameters (texts ps) = .ok ps := by
  have hpieces : pieces ',' (texts ps) = ps.map text := by
    refine pieces_flatMap fun parameter hparameter => ?_
    obtain ⟨p, hp, rfl⟩ := List.mem_map.mp hparameter
    exact ⟨text_ne_nil, (h p hp).notMem_text.2⟩
  rw [parseParameters, hpieces]
  clear hpieces
  induction ps with
  | nil => rfl
  | cons p ps ih =>
    rw [List.map_cons, List.mapM_cons, parseParameter_text (h p (List.mem_cons_self ..)),
      ih fun q hq => h q (List.mem_cons_of_mem p hq)]
    rfl

theorem serializeParameters_eq (hps : ps ≠ []) : serializeParameters ps = '$' :: texts ps := by
  rw [serializeParameters, if_neg hps, texts, List.flatMap_map]
  simp only [text, List.append_assoc, List.cons_append]

theorem texts_cons (p : List Char × List Char) (ps : List (List Char × List Char)) :
    texts (p :: ps) = text p ++ if ps = [] then [] else ',' :: texts ps := by
  cases ps with
  | nil => simp [texts]
  | cons q ps =>
    have hlast : ((q :: ps).map text).flatMap (fun parameter => parameter ++ [',']) ≠ [] := by simp
    rw [if_neg (List.cons_ne_nil q ps), texts, List.map_cons, List.flatMap_cons,
      List.dropLast_append_of_ne_nil hlast, List.append_assoc]
    rfl

theorem notMem_texts (h : ∀ p ∈ ps, Parameter p) : '$' ∉ texts ps := by
  intro hd
  obtain ⟨parameter, hparameter, hd⟩ := List.mem_flatMap.mp (List.dropLast_subset _ hd)
  obtain ⟨p, hp, rfl⟩ := List.mem_map.mp hparameter
  have hplain := (h p hp).notMem_text.1
  rcases List.mem_append.mp hd with hd | hd
  · exact hplain hd
  · cases List.mem_singleton.mp hd

theorem mem_texts (hps : ps ≠ []) : '=' ∈ texts ps := by
  obtain ⟨p, ps, rfl⟩ := List.exists_cons_of_ne_nil hps
  rw [texts_cons]
  exact List.mem_append_left _ (by simp [text])

/-! ### Round trips -/

def segments (salt hash : List UInt8) : List Char :=
  if salt = [] then toHexString hash else toHexString salt ++ '$' :: toHexString hash

variable {salt hash : List UInt8} {id : List Char}

theorem parseSaltAndHash_segments (hhash : hash ≠ []) :
    parseSaltAndHash id ps (segments salt hash) = new id hash salt ps := by
  have hplain := (notMem_toHexString hash).1
  unfold segments
  split
  · next hsalt =>
    simp only [parseSaltAndHash, cut_of_notMem hplain, fromHexString_toHexString, hsalt]
    rfl
  · next hsalt =>
    have hcut := cut_append (notMem_toHexString salt).1 (toHexString hash)
    have hne : toHexString hash ≠ [] := fun h => hhash (toHexString_eq_nil.mp h)
    rw [parseSaltAndHash, hcut]
    split
    · next heq => exact absurd (toHexString_eq_nil.mp (Prod.mk.inj heq).1) hsalt
    · next heq => cases (Prod.mk.inj heq).2
    · next first second hfirst heq =>
      obtain ⟨rfl, hsecond⟩ := Prod.mk.inj heq
      obtain rfl := Option.some.inj hsecond
      simp only [fromHexString_toHexString, cut_of_notMem hplain, if_neg hne]
      rfl

theorem notMem_cut_segments : '=' ∉ (cut '$' (segments salt hash)).1 := by
  unfold segments
  split
  · rw [cut_of_notMem (notMem_toHexString hash).1]
    exact (notMem_toHexString hash).2
  · rw [cut_append (notMem_toHexString salt).1]
    exact (notMem_toHexString salt).2

theorem toString_eq (h : PasswordHash) (hsalted : h.salt = [] ∨ h.hash ≠ []) :
    h.toString = '$' :: (h.id ++ ((if h.parameters = [] then [] else '$' :: texts h.parameters) ++
      if h.hash = [] then [] else '$' :: segments h.salt h.hash)) := by
  have hps : serializeParameters h.parameters =
      if h.parameters = [] then [] else '$' :: texts h.parameters := by
    split
    · next hnil => rw [serializeParameters, if_pos hnil]
    · next hne => rw [serializeParameters_eq hne]
  have hsegments : (if h.salt = [] then [] else '$' :: toHexString h.salt) ++
      (if h.hash = [] then [] else '$' :: toHexString h.hash) =
        if h.hash = [] then [] else '$' :: segments h.salt h.hash := by
    by_cases hhash : h.hash = []
    · have hsalt := hsalted.resolve_right (not_not_intro hhash)
      rw [if_pos hsalt, if_pos hhash, if_pos hhash, List.append_nil]
    · by_cases hsalt : h.salt = []
      · rw [if_pos hsalt, if_neg hhash, if_neg hhash, segments, if_pos hsalt, List.nil_append]
      · rw [if_neg hsalt, if_neg hhash, if_neg hhash, segments, if_neg hsalt, List.cons_append]
  rw [toString, hps, List.append_assoc, List.append_assoc, hsegments]
  rfl

theorem parse_id_segments (hid : '$' ∉ id) (hne : id ≠ []) (segments : List Char) :
    parse ('$' :: (id ++ '$' :: segments)) =
      if '=' ∈ (cut '$' segments).1 then do
        let parameters ← parseParameters (cut '$' segments).1
        match (cut '$' segments).2 with
        | none => new id [] [] parameters
        | some segments => parseSaltAndHash id parameters segments
      else parseSaltAndHash id [] segments := by
  rw [parse, cut_append hid]
  split
  · next heq => exact absurd (Prod.mk.inj heq).1 hne
  · next heq => cases (Prod.mk.inj heq).2
  · next heq =>
    obtain ⟨rfl, hsegments⟩ := Prod.mk.inj heq
    obtain rfl := Option.some.inj hsegments
    rfl

theorem parse_id (hid : '$' ∉ id) (hne : id ≠ []) : parse ('$' :: id) = withHash id [] := by
  rw [parse, cut_of_notMem hid]
  split
  · next heq => exact absurd (Prod.mk.inj heq).1 hne
  · next heq => rw [(Prod.mk.inj heq).1]
  · next heq => cases (Prod.mk.inj heq).2

theorem parse_toString {h : PasswordHash} (hcanonical : Canonical h) :
    parse h.toString = .ok h := by
  obtain ⟨hid, hparameters, hsalted⟩ := hcanonical
  rw [toString_eq h hsalted]
  by_cases hps : h.parameters = []
  · by_cases hhash : h.hash = []
    · have hsalt := hsalted.resolve_right (not_not_intro hhash)
      rw [if_pos hps, if_pos hhash, List.nil_append, List.append_nil, parse_id hid h.idNonempty]
      exact new_eq_ok.mpr ⟨rfl, hps, hsalt, hhash⟩
    · rw [if_pos hps, if_neg hhash, List.nil_append, parse_id_segments hid h.idNonempty,
        if_neg notMem_cut_segments, parseSaltAndHash_segments hhash]
      exact new_eq_ok.mpr ⟨rfl, hps, rfl, rfl⟩
  · have htexts := notMem_texts hparameters
    rw [if_neg hps, List.cons_append, parse_id_segments hid h.idNonempty]
    by_cases hhash : h.hash = []
    · have hsalt := hsalted.resolve_right (not_not_intro hhash)
      rw [if_pos hhash, List.append_nil, cut_of_notMem htexts, if_pos (mem_texts hps),
        parseParameters_texts hparameters]
      exact new_eq_ok.mpr ⟨rfl, rfl, hsalt, hhash⟩
    · rw [if_neg hhash, cut_append htexts, if_pos (mem_texts hps),
        parseParameters_texts hparameters]
      exact (parseSaltAndHash_segments hhash).trans (new_eq_ok.mpr ⟨rfl, rfl, rfl, rfl⟩)

theorem fromHexString_ne_nil {s : List Char} {bytes : List UInt8} (hs : s ≠ [])
    (h : fromHexString s = .ok bytes) : bytes ≠ [] := by
  rintro rfl
  cases s with
  | nil => exact hs rfl
  | cons a s =>
    cases s with
    | nil => cases h
    | cons b s =>
      rw [fromHexString] at h
      split at h
      · cases h
      · cases h

theorem salted_of_parseSaltAndHash {s : List Char} {h : PasswordHash}
    (hparse : parseSaltAndHash id ps s = .ok h) :
    h.id = id ∧ h.parameters = ps ∧ (h.salt = [] ∨ h.hash ≠ []) := by
  unfold parseSaltAndHash at hparse
  split at hparse
  · cases hparse
  · obtain ⟨hash, -, hnew⟩ := bind_eq_ok.mp hparse
    obtain ⟨hid, hps, hsalt, -⟩ := new_eq_ok.mp hnew
    exact ⟨hid, hps, .inl hsalt⟩
  · obtain ⟨salt, -, hparse⟩ := bind_eq_ok.mp hparse
    split at hparse
    · cases hparse
    split at hparse
    · cases hparse
    next hsecond =>
    obtain ⟨hash, hhash, hnew⟩ := bind_eq_ok.mp hparse
    obtain ⟨hid, hps, -, hhash'⟩ := new_eq_ok.mp hnew
    exact ⟨hid, hps, .inr (hhash' ▸ fromHexString_ne_nil hsecond hhash)⟩

theorem canonical_of_parse {s : List Char} {h : PasswordHash} (hparse : parse s = .ok h) :
    Canonical h := by
  unfold parse at hparse
  split at hparse
  · cases hparse
  · next text =>
    split at hparse
    · cases hparse
    · next id hcut =>
      obtain ⟨hid, hps, hsalt, -⟩ := new_eq_ok.mp hparse
      exact ⟨hid ▸ (cut_eq_none.mp hcut).2, fun p hp => (by rw [hps] at hp; cases hp), .inl hsalt⟩
    · next id segments _ hcut =>
      have hplain : '$' ∉ id := (cut_eq_some.mp hcut).2
      rcases hfirst : cut '$' segments with ⟨first, rest⟩
      have hfirstPlain : '$' ∉ first := by
        cases rest with
        | none => exact (cut_eq_none.mp hfirst).2
        | some rest => exact (cut_eq_some.mp hfirst).2
      simp only [hfirst] at hparse
      split at hparse
      · obtain ⟨ps, hps, hparse⟩ := bind_eq_ok.mp hparse
        have hparameters : ∀ p ∈ ps, Parameter p :=
          fun p hp => parameter_of_parseParameters hfirstPlain hps hp
        cases rest with
        | none =>
          obtain ⟨hid, hps', hsalt, -⟩ := new_eq_ok.mp hparse
          exact ⟨hid ▸ hplain, hps' ▸ hparameters, .inl hsalt⟩
        | some rest =>
          obtain ⟨hid, hps', hsalted⟩ := salted_of_parseSaltAndHash hparse
          exact ⟨hid ▸ hplain, hps' ▸ hparameters, hsalted⟩
      · obtain ⟨hid, hps, hsalted⟩ := salted_of_parseSaltAndHash hparse
        exact ⟨hid ▸ hplain, fun p hp => (by rw [hps] at hp; cases hp), hsalted⟩
  · cases hparse

structure NoSeparators (h : PasswordHash) : Prop where
  id : '$' ∉ h.id ∧ ',' ∉ h.id ∧ '=' ∉ h.id
  keys : ∀ p ∈ h.parameters, '$' ∉ p.1 ∧ ',' ∉ p.1 ∧ '=' ∉ p.1
  values : ∀ p ∈ h.parameters, '$' ∉ p.2 ∧ ',' ∉ p.2 ∧ '=' ∉ p.2

/-- A value whose salt is not alone, and whose keys and values are not empty. -/
structure Complete (h : PasswordHash) : Prop where
  salted : h.salt = [] ∨ h.hash ≠ []
  nonempty : ∀ p ∈ h.parameters, p.1 ≠ [] ∧ p.2 ≠ []

/-- **Round trips**: a value is read as it was written exactly when it is complete, and what is read
of any text is written and read again as it is. -/
theorem password_hash_round_trip :
    (∀ h : PasswordHash, NoSeparators h → (parse h.toString = .ok h ↔ Complete h)) ∧
      ∀ s h, parse s = .ok h → parse h.toString = .ok h := by
  refine ⟨fun h hplain => ⟨fun hparse => ?_, fun hcomplete => ?_⟩, fun s h hparse => ?_⟩
  · have hcanonical := canonical_of_parse hparse
    exact ⟨hcanonical.salted, fun p hp =>
      ⟨(hcanonical.parameters p hp).keyNonempty, (hcanonical.parameters p hp).valueNonempty⟩⟩
  · refine parse_toString ⟨hplain.id.1, fun p hp => ?_, hcomplete.salted⟩
    obtain ⟨hkey, hvalue⟩ := hcomplete.nonempty p hp
    exact ⟨hkey, hvalue, hplain.keys p hp, (hplain.values p hp).1, (hplain.values p hp).2.1⟩
  · exact parse_toString (canonical_of_parse hparse)

/-- A salt alone is read as a hash. -/
theorem salt_alone_is_hash :
    ∃ h : PasswordHash, NoSeparators h ∧ h.toString = "$x$0102".toList ∧
      ∃ h', parse h.toString = .ok h' ∧ h'.hash = h.salt ∧ h' ≠ h := by
  refine ⟨⟨['x'], [], [1, 2], [], List.cons_ne_nil _ _⟩, ⟨by decide, nofun, nofun⟩, by decide,
    ⟨['x'], [], [], [1, 2], List.cons_ne_nil _ _⟩, by rfl, rfl, by decide⟩

end PasswordHash

end Ferrofin.Cryptography
