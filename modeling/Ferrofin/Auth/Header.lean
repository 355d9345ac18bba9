import Mathlib.Data.List.Chain
import Ferrofin.Lib.ByteSlices
import Ferrofin.Util.Search
import Ferrofin.Util.UrlDecode

/-!
# The authorization header

`parse_authorization_header`: a scheme and the parts `Key="value"`, read by a scan over the bytes
that carries a key, the offset where a value starts and a flag for quotes from byte to byte.
-/

namespace Ferrofin.Auth

open Lib Util
open List (append_assoc append_nil cons_append cons_ne_nil map_cons mem_cons mem_cons_of_mem
  mem_cons_self nil_append nodup_cons)

inductive Field where
  | deviceId
  | device
  | client
  | version
  | token
  deriving DecidableEq

namespace Field

def key : Field → List Char
  | deviceId => ['D', 'e', 'v', 'i', 'c', 'e', 'I', 'd']
  | device => ['D', 'e', 'v', 'i', 'c', 'e']
  | client => ['C', 'l', 'i', 'e', 'n', 't']
  | version => ['V', 'e', 'r', 's', 'i', 'o', 'n']
  | token => ['T', 'o', 'k', 'e', 'n']

def ofKey (key : List Char) : Option Field :=
  [deviceId, device, client, version, token].find? fun f => f.key = key

theorem ofKey_nil : ofKey [] = none := by decide

theorem ofKey_key (f : Field) : ofKey f.key = some f := by
  cases f <;> decide

end Field

structure AuthorizationParts where
  deviceId : Option (List Char) := none
  device : Option (List Char) := none
  client : Option (List Char) := none
  version : Option (List Char) := none
  token : Option (List Char) := none
  deriving DecidableEq

namespace AuthorizationParts

def get (p : AuthorizationParts) : Field → Option (List Char)
  | .deviceId => p.deviceId
  | .device => p.device
  | .client => p.client
  | .version => p.version
  | .token => p.token

/-- The value of a raw text: decoded, without the quotes around it. -/
def valueOf (raw : List Char) : List Char := urlDecode (trimMatches (· = '"') raw)

def set (p : AuthorizationParts) (key raw : List Char) : AuthorizationParts :=
  match Field.ofKey key with
  | some .deviceId => { p with deviceId := some (valueOf raw) }
  | some .device => { p with device := some (valueOf raw) }
  | some .client => { p with client := some (valueOf raw) }
  | some .version => { p with version := some (valueOf raw) }
  | some .token => { p with token := some (valueOf raw) }
  | none => p

theorem get_set (p : AuthorizationParts) (key raw : List Char) (f : Field) :
    (p.set key raw).get f =
      if Field.ofKey key = some f then some (valueOf raw) else p.get f := by
  unfold set
  cases Field.ofKey key with
  | none => rfl
  | some g => cases g <;> cases f <;> rfl

end AuthorizationParts

/-! ### The scan -/

/-- What `parse_parts` keeps from byte to byte. -/
structure Scan where
  escaped : Bool := false
  start : Nat := 0
  key : List Char := []
  result : AuthorizationParts := {}

namespace Scan

/-- The body of the loop, at a byte and its offset; a slice that breaks a character panics. -/
def step (header : List Char) (w : Scan) (i : Nat) (token : UInt8) : Option Scan :=
  if token = 0x22 then some { w with escaped := !w.escaped }
  else if token = 0x2C ∧ w.escaped = false then
    if w.start < i then
      (sliceBytes header w.start i).map fun raw =>
        { w with result := w.result.set w.key raw, key := [], start := i + 1 }
    else some { w with start := i + 1 }
  else if token = 0x3D ∧ w.escaped = false then
    (sliceBytes header w.start i).map fun raw => { w with key := trimChars raw, start := i + 1 }
  else some w

def run (header : List Char) : Nat → List UInt8 → Scan → Option Scan
  | _, [], w => some w
  | i, token :: bytes, w => (w.step header i token).bind (run header (i + 1) bytes)

def finish (header : List Char) (w : Scan) : Option AuthorizationParts :=
  if w.start < (asBytes header).length then
    (sliceBytes header w.start (asBytes header).length).map (w.result.set w.key)
  else some w.result

end Scan

def parseParts (header : List Char) : Option AuthorizationParts :=
  (Scan.run header 0 (asBytes header) {}).bind (Scan.finish header)

/-- `parse_authorization_header`; the outer `none` is a panic. -/
def parseAuthorizationHeader (header : List Char) (legacy : Bool) :
    Option (Option AuthorizationParts) :=
  match splitOnce [' '] header with
  | none => some none
  | some (scheme, rest) =>
    if sameIgnoreAsciiCase scheme "MediaBrowser".toList ∨
        legacy ∧ sameIgnoreAsciiCase scheme "Emby".toList then
      (parseParts rest).map some
    else some none

/-! ### Character by character -/

/-- What `set` is called with for the rest of a text, with the characters since the start. -/
def setsFrom (escaped : Bool) (key pending : List Char) :
    List Char → List (List Char × List Char)
  | [] => if pending = [] then [] else [(key, pending)]
  | c :: s =>
    if c = '"' then setsFrom (!escaped) key (pending ++ [c]) s
    else if c = ',' ∧ escaped = false then
      if pending = [] then setsFrom false key [] s
      else (key, pending) :: setsFrom false [] [] s
    else if c = '=' ∧ escaped = false then setsFrom false (trimChars pending) [] s
    else setsFrom escaped key (pending ++ [c]) s

/-- The fields after some calls of `set`. -/
def setAll (p : AuthorizationParts) (calls : List (List Char × List Char)) : AuthorizationParts :=
  calls.foldl (fun p call => p.set call.1 call.2) p

theorem length_asBytes (s : List Char) : (asBytes s).length = utf8Len s := by
  induction s with
  | nil => rfl
  | cons c s ih =>
    rw [asBytes, List.flatMap_cons, List.length_append, utf8Len_cons, ← ih,
      String.length_utf8EncodeChar]
    rfl

theorem sliceBytes_append (a b c : List Char) :
    sliceBytes (a ++ (b ++ c)) (utf8Len a) (utf8Len (a ++ b)) = some b := by
  have hle : utf8Len a ≤ utf8Len (a ++ b) := by rw [utf8Len_append]; omega
  rw [sliceBytes, if_pos hle, ← append_assoc, cutBytes_utf8Len, Option.bind_some,
    cutBytes_utf8Len]
  rfl

theorem Scan.run_plain {header : List Char} {bytes : List UInt8}
    (h : ∀ b ∈ bytes, b ≠ 0x22 ∧ b ≠ 0x2C ∧ b ≠ 0x3D) (i : Nat) (rest : List UInt8) (w : Scan) :
    Scan.run header i (bytes ++ rest) w = Scan.run header (i + bytes.length) rest w := by
  induction bytes generalizing i with
  | nil => rfl
  | cons b bytes ih =>
    obtain ⟨hquote, hcomma, hequals⟩ := h b (mem_cons_self ..)
    have hstep : w.step header i b = some w := by
      rw [step, if_neg hquote, if_neg fun h => hcomma h.1, if_neg fun h => hequals h.1]
    rw [cons_append, run, hstep, Option.bind_some,
      ih fun b' hb => h b' (mem_cons_of_mem _ hb), List.length_cons]
    congr 1
    omega

theorem encodeChar_unseen {c : Char} (hquote : c ≠ '"') (hcomma : c ≠ ',') (hequals : c ≠ '=')
    {b : UInt8} (hb : b ∈ String.utf8EncodeChar c) : b ≠ 0x22 ∧ b ≠ 0x2C ∧ b ≠ 0x3D := by
  refine ⟨?_, ?_, ?_⟩
  · rintro rfl
    exact hquote (Char.toNat_inj.mp (toNat_of_mem_encodeChar hb (by decide)))
  · rintro rfl
    exact hcomma (Char.toNat_inj.mp (toNat_of_mem_encodeChar hb (by decide)))
  · rintro rfl
    exact hequals (Char.toNat_inj.mp (toNat_of_mem_encodeChar hb (by decide)))

/-- A comma and an equals sign, where `pending` stands between the start and the offset. -/
theorem Scan.step_comma {header pending : List Char} {w : Scan} {i : Nat}
    (hescaped : w.escaped = false) (hslice : sliceBytes header w.start i = some pending)
    (hpending : w.start < i ↔ pending ≠ []) :
    w.step header i 0x2C = some (if pending = [] then { w with start := i + 1 }
      else { w with result := w.result.set w.key pending, key := [], start := i + 1 }) := by
  rw [step, if_neg (by decide), if_pos ⟨rfl, hescaped⟩, hslice]
  by_cases h : pending = []
  · rw [if_pos h, if_neg fun hlt => hpending.mp hlt h]
  · rw [if_neg h, if_pos (hpending.mpr h)]
    rfl

theorem Scan.step_equals {header pending : List Char} {w : Scan} {i : Nat}
    (hescaped : w.escaped = false) (hslice : sliceBytes header w.start i = some pending) :
    w.step header i 0x3D = some { w with key := trimChars pending, start := i + 1 } := by
  rw [step, if_neg (by decide), if_neg fun h => absurd h.1 (by decide), if_pos ⟨rfl, hescaped⟩,
    hslice]
  rfl

theorem Scan.step_escaped {header : List Char} {w : Scan} {i : Nat} {token : UInt8}
    (hescaped : w.escaped = true) (hquote : token ≠ 0x22) : w.step header i token = some w := by
  rw [step, if_neg hquote, if_neg fun h => absurd h.2 (by simp [hescaped]),
    if_neg fun h => absurd h.2 (by simp [hescaped])]

theorem Scan.run_cons {header : List Char} {c : Char} {b : UInt8}
    (hb : String.utf8EncodeChar c = [b]) (i : Nat) (s : List Char) (w : Scan) :
    Scan.run header i (asBytes (c :: s)) w =
      (w.step header i b).bind (Scan.run header (i + 1) (asBytes s)) := by
  rw [asBytes, List.flatMap_cons, hb]
  rfl

theorem utf8Len_lt_iff (front pending : List Char) :
    utf8Len front < utf8Len (front ++ pending) ↔ pending ≠ [] := by
  cases pending with
  | nil => simp
  | cons c pending =>
    have hpos := c.utf8Size_pos
    rw [utf8Len_append, utf8Len_cons]
    exact iff_of_true (by omega) (cons_ne_nil _ _)

theorem Scan.finish_eq {front pending : List Char} {w : Scan} (hstart : w.start = utf8Len front) :
    w.finish (front ++ pending) =
      some (if pending = [] then w.result else w.result.set w.key pending) := by
  have hslice := sliceBytes_append front pending []
  rw [append_nil] at hslice
  rw [finish, length_asBytes, hstart, hslice]
  by_cases h : pending = []
  · rw [if_pos h, if_neg fun hlt => (utf8Len_lt_iff front pending).mp hlt h]
  · rw [if_neg h, if_pos ((utf8Len_lt_iff front pending).mpr h)]
    rfl

/-- Past what was read (`front` before the start, `pending` since), the scan of the bytes is the
reading of the characters. -/
theorem Scan.run_eq {header : List Char} (s : List Char) {front pending : List Char} {w : Scan}
    (hheader : header = front ++ (pending ++ s)) (hstart : w.start = utf8Len front) :
    (Scan.run header (utf8Len (front ++ pending)) (asBytes s) w).bind (Scan.finish header) =
      some (setAll w.result (setsFrom w.escaped w.key pending s)) := by
  induction s generalizing front pending w with
  | nil =>
    rw [append_nil] at hheader
    rw [asBytes, List.flatMap_nil, run, Option.bind_some, hheader, finish_eq hstart, setsFrom]
    split <;> rfl
  | cons c s ih =>
    have hslice := sliceBytes_append front pending (c :: s)
    rw [← hheader, ← hstart] at hslice
    have hpending := utf8Len_lt_iff front pending
    rw [← hstart] at hpending
    have hlength (x : List Char) : utf8Len (x ++ [c]) = utf8Len x + c.utf8Size := by
      rw [utf8Len_append, utf8Len_cons, utf8Len_nil]
      omega
    -- either the character is pending too, or the next one is where a value starts
    have hpend (w' : Scan) (hstart' : w'.start = utf8Len front) :=
      ih (w := w') (show header = front ++ ((pending ++ [c]) ++ s) by simp [hheader]) hstart'
    have hpass (w' : Scan) (hstart' : w'.start = utf8Len (front ++ (pending ++ [c]))) :=
      ih (w := w') (show header = (front ++ (pending ++ [c])) ++ ([] ++ s) by simp [hheader])
        hstart'
    simp only [append_nil, ← append_assoc, hlength] at hpend hpass
    rw [setsFrom]
    by_cases hquote : c = '"'
    · subst hquote
      rw [run_cons (b := 0x22) rfl]
      exact hpend { w with escaped := !w.escaped } hstart
    rw [if_neg hquote]
    by_cases hcomma : c = ','
    · subst hcomma
      rw [run_cons (b := 0x2C) rfl]
      cases hescaped : w.escaped with
      | true =>
        rw [step_escaped hescaped (by decide), if_neg (by simp), if_neg (by simp), ← hescaped]
        exact hpend w hstart
      | false =>
        rw [if_pos ⟨rfl, rfl⟩, step_comma hescaped hslice hpending, ← hescaped]
        by_cases h : pending = []
        · rw [if_pos h, if_pos h]
          exact hpass { w with start := utf8Len (front ++ pending) + 1 } rfl
        · rw [if_neg h, if_neg h]
          exact hpass { w with
            result := w.result.set w.key pending, key := []
            start := utf8Len (front ++ pending) + 1 } rfl
    rw [if_neg fun h => hcomma h.1]
    by_cases hequals : c = '='
    · subst hequals
      rw [run_cons (b := 0x3D) rfl]
      cases hescaped : w.escaped with
      | true =>
        rw [step_escaped hescaped (by decide), if_neg (by simp), ← hescaped]
        exact hpend w hstart
      | false =>
        rw [step_equals hescaped hslice, if_pos ⟨rfl, rfl⟩, ← hescaped]
        exact hpass { w with
          key := trimChars pending, start := utf8Len (front ++ pending) + 1 } rfl
    have hbytes : asBytes (c :: s) = String.utf8EncodeChar c ++ asBytes s := rfl
    rw [if_neg fun h => hequals h.1, hbytes,
      run_plain fun _ => encodeChar_unseen hquote hcomma hequals, String.length_utf8EncodeChar]
    exact hpend w hstart

theorem parseParts_eq_setsFrom (header : List Char) :
    parseParts header = some (setAll {} (setsFrom false [] [] header)) :=
  @Scan.run_eq header header [] [] {} rfl rfl

/-! ### Part by part -/

/-- The parts of a text: it is cut at the commas outside quotes. -/
def partsFrom (escaped : Bool) : List Char → List (List Char)
  | [] => [[]]
  | c :: s =>
    if c = '"' then (partsFrom (!escaped) s).modifyHead (c :: ·)
    else if c = ',' ∧ escaped = false then [] :: partsFrom false s
    else (partsFrom escaped s).modifyHead (c :: ·)

/-- The key and the raw value of the rest of a part, with the key written in it so far. -/
def readFrom (escaped : Bool) (own : Option (List Char)) (pending : List Char) :
    List Char → Option (List Char) × List Char
  | [] => (own, pending)
  | c :: s =>
    if c = '"' then readFrom (!escaped) own (pending ++ [c]) s
    else if c = '=' ∧ escaped = false then readFrom false (some (trimChars pending)) [] s
    else readFrom escaped own (pending ++ [c]) s

/-- The key that is written in a part, and what stands behind it. -/
def readPart (part : List Char) : Option (List Char) × List Char := readFrom false none [] part

/-- A call of `set`: the part whose text is stored, and the key that it is stored for. -/
structure Store where
  part : List Char
  key : List Char

/-- What is stored, of some parts that are read with a key left by those before. -/
def stores (key : List Char) : List (List Char) → List Store
  | [] => []
  | part :: parts =>
    if (readPart part).2 = [] then stores ((readPart part).1.getD key) parts
    else ⟨part, (readPart part).1.getD key⟩ :: stores [] parts

def Store.call (store : Store) : List Char × List Char := (store.key, (readPart store.part).2)

theorem partsFrom_ne_nil (escaped : Bool) (s : List Char) : partsFrom escaped s ≠ [] := by
  induction s generalizing escaped with
  | nil => exact cons_ne_nil _ _
  | cons c s ih =>
    rw [partsFrom]
    split
    · rw [Ne, List.modifyHead_eq_nil_iff]
      exact ih _
    split
    · exact cons_ne_nil _ _
    · rw [Ne, List.modifyHead_eq_nil_iff]
      exact ih _

def closeWith (key : List Char) (read : Option (List Char) × List Char)
    (parts : List (List Char)) : List (List Char × List Char) :=
  if read.2 = [] then (stores (read.1.getD key) parts).map Store.call
  else (read.1.getD key, read.2) :: (stores [] parts).map Store.call

theorem closeWith_readPart (key part : List Char) (parts : List (List Char)) :
    closeWith key (readPart part) parts = (stores key (part :: parts)).map Store.call := by
  rw [closeWith, stores]
  split <;> rfl

/-- In the middle of a part: the key in force is the one written in it, or else the one left. -/
theorem setsFrom_eq {escaped : Bool} {s part : List Char} {parts : List (List Char)}
    (h : partsFrom escaped s = part :: parts) (key : List Char) (own : Option (List Char))
    (pending : List Char) :
    setsFrom escaped (own.getD key) pending s =
      closeWith key (readFrom escaped own pending part) parts := by
  induction s generalizing escaped part parts key own pending with
  | nil =>
    obtain ⟨rfl, rfl⟩ := List.cons.inj h
    rw [setsFrom, readFrom, closeWith]
    rfl
  | cons c s ih =>
    rw [partsFrom] at h
    by_cases hquote : c = '"'
    · obtain ⟨part', parts', hs⟩ := List.exists_cons_of_ne_nil (partsFrom_ne_nil (!escaped) s)
      rw [if_pos hquote, hs] at h
      obtain ⟨rfl, rfl⟩ := List.cons.inj h
      rw [setsFrom, if_pos hquote, readFrom, if_pos hquote]
      exact ih hs key own _
    rw [if_neg hquote] at h
    by_cases hcomma : c = ',' ∧ escaped = false
    · -- the part ends, and the next one starts
      obtain ⟨part', parts', hs⟩ := List.exists_cons_of_ne_nil (partsFrom_ne_nil false s)
      rw [if_pos hcomma] at h
      obtain ⟨rfl, rfl⟩ := List.cons.inj h
      have hnext (key' : List Char) : setsFrom false key' [] s =
          (stores key' (partsFrom false s)).map Store.call := by
        rw [hs, ← closeWith_readPart]
        exact ih hs key' none []
      rw [setsFrom, if_neg hquote, if_pos hcomma, hnext, hnext, readFrom, closeWith]
    rw [if_neg hcomma] at h
    obtain ⟨part', parts', hs⟩ := List.exists_cons_of_ne_nil (partsFrom_ne_nil escaped s)
    rw [hs] at h
    obtain ⟨rfl, rfl⟩ := List.cons.inj h
    rw [setsFrom, if_neg hquote, if_neg hcomma, readFrom, if_neg hquote]
    by_cases hequals : c = '=' ∧ escaped = false
    · rw [if_pos hequals, if_pos hequals]
      rw [hequals.2] at hs
      exact ih hs key (some (trimChars pending)) []
    · rw [if_neg hequals, if_neg hequals]
      exact ih hs key own _

/-- **The scan reads part by part**: it breaks no character. -/
theorem parseParts_eq (header : List Char) :
    parseParts header = some (setAll {} ((stores [] (partsFrom false header)).map Store.call)) := by
  obtain ⟨part, parts, hs⟩ := List.exists_cons_of_ne_nil (partsFrom_ne_nil false header)
  rw [parseParts_eq_setsFrom, hs, ← closeWith_readPart]
  exact congrArg _ (congrArg _ (setsFrom_eq hs [] none []))

theorem parseAuthorizationHeader_total (header : List Char) (legacy : Bool) :
    ∃ parts, parseAuthorizationHeader header legacy = some parts := by
  unfold parseAuthorizationHeader
  split
  · exact ⟨none, rfl⟩
  · split
    · rw [parseParts_eq]
      exact ⟨_, rfl⟩
    · exact ⟨none, rfl⟩

/-! ### Whether a key is left for another part -/

/-- No text is ever stored in a field whose key is written in another part. -/
def KeepsApart (header : List Char) : Prop :=
  ∀ store ∈ stores [] (partsFrom false header),
    Field.ofKey store.key ≠ none → (readPart store.part).1 = some store.key

def Dangling (part : List Char) : Prop :=
  ∃ key, readPart part = (some key, []) ∧ Field.ofKey key ≠ none

def Keyless (part : List Char) : Prop := (readPart part).1 = none

theorem readFrom_keyless {escaped : Bool} {own : Option (List Char)} {pending s : List Char}
    (h : (readFrom escaped own pending s).1 = none) :
    own = none ∧ (readFrom escaped own pending s).2 = pending ++ s := by
  induction s generalizing escaped own pending with
  | nil => exact ⟨h, (append_nil _).symm⟩
  | cons c s ih =>
    rw [readFrom] at h ⊢
    have hmore : pending ++ c :: s = pending ++ [c] ++ s := by rw [append_assoc]; rfl
    by_cases hquote : c = '"'
    · rw [if_pos hquote] at h ⊢
      rw [hmore]
      exact ih h
    rw [if_neg hquote] at h ⊢
    by_cases hequals : c = '=' ∧ escaped = false
    · rw [if_pos hequals] at h
      cases (ih h).1
    · rw [if_neg hequals] at h ⊢
      rw [hmore]
      exact ih h

theorem Keyless.read {part : List Char} (h : Keyless part) : readPart part = (none, part) :=
  Prod.ext h (readFrom_keyless h).2

theorem stores_filter (key : List Char) (parts : List (List Char)) :
    stores key (parts.filter (· ≠ [])) = stores key parts := by
  induction parts generalizing key with
  | nil => rfl
  | cons part parts ih =>
    by_cases hpart : part = []
    · subst hpart
      have hempty : stores key ([] :: parts) = stores key parts := rfl
      rw [List.filter_cons_of_neg (by simp), ih, hempty]
    · rw [List.filter_cons_of_pos (by simpa using hpart), stores, stores, ih, ih]

theorem keepsApart_iff_chain {parts : List (List Char)} (hparts : ∀ part ∈ parts, part ≠ [])
    (key : List Char) :
    (∀ store ∈ stores key parts,
      Field.ofKey store.key ≠ none → (readPart store.part).1 = some store.key) ↔
      (∀ next, parts.head? = some next → Field.ofKey key ≠ none → ¬ Keyless next) ∧
        parts.IsChain fun part next => Dangling part → ¬ Keyless next := by
  induction parts generalizing key with
  | nil => exact ⟨fun _ => ⟨nofun, List.isChain_nil⟩, fun _ => nofun⟩
  | cons part parts ih =>
    have hrest (key' : List Char) := ih (fun p hp => hparts p (mem_cons_of_mem _ hp)) key'
    have hpart := hparts part (mem_cons_self ..)
    rw [stores, List.isChain_cons]
    simp only [List.head?_cons, Option.some.injEq, forall_eq', Option.mem_def]
    cases hown : (readPart part).1 with
    | none =>
      have hread := Keyless.read hown
      have hdangling : ¬ Dangling part := by
        rintro ⟨key', hkey', -⟩
        rw [hkey'] at hread
        cases (Prod.mk.inj hread).1
      have hraw : ¬ (readPart part).2 = [] := by rw [hread]; exact hpart
      rw [if_neg hraw, List.forall_mem_cons, hrest]
      simp [Field.ofKey_nil, hown, Keyless, hdangling]
    | some key' =>
      by_cases hraw : (readPart part).2 = []
      · have hdangling : Dangling part ↔ Field.ofKey key' ≠ none := by
          constructor
          · rintro ⟨key'', hkey'', hfield⟩
            rw [hkey''] at hown
            rwa [← Option.some.inj hown]
          · exact fun h => ⟨key', Prod.ext hown hraw, h⟩
        rw [if_pos hraw, Option.getD_some, hrest]
        simp [hown, Keyless, hdangling]
      · have hdangling : ¬ Dangling part := by
          rintro ⟨key'', hkey'', -⟩
          exact hraw (congrArg Prod.snd hkey'')
        rw [if_neg hraw, List.forall_mem_cons, hrest]
        simp [Field.ofKey_nil, hown, Keyless, hdangling]

/-- **When every text stays with its own key**: among the parts that are not empty, none that has
the key of a field and no value stands right before one without a key. -/
theorem keepsApart_iff (header : List Char) :
    KeepsApart header ↔ ((partsFrom false header).filter (· ≠ [])).IsChain
      fun part next => Dangling part → ¬ Keyless next := by
  rw [KeepsApart, ← stores_filter, keepsApart_iff_chain fun part hpart => by
    simpa using (List.mem_filter.mp hpart).2]
  simp [Field.ofKey_nil]

/-! ### Reading back -/

/-- A part `Key="value"` as it is written, with the blanks on either side. -/
structure Entry where
  before : List Char
  key : List Char
  encoded : List Char
  value : List Char
  after : List Char

namespace Entry

def text (e : Entry) : List Char :=
  e.before ++ (e.key ++ '=' :: '"' :: (e.encoded ++ '"' :: e.after))

/-- The field that a part is for, if its key is known. -/
def field (e : Entry) : Option Field := Field.ofKey (trimChars e.key)

/-- The key and the encoded value hold no quote, the key nothing that ends it; the value of a
field is encoded, all of it, parts of it, or nothing. -/
structure Written (e : Entry) : Prop where
  before : e.before.all isWhitespace = true
  key : ∀ c ∈ e.key, c ≠ '"' ∧ c ≠ ',' ∧ c ≠ '='
  quote : '"' ∉ e.encoded
  encoded : e.field ≠ none → Encodes e.encoded e.value
  after : e.after.all isWhitespace = true

end Entry

def joined (entries : List Entry) : List Char := [','].intercalate (entries.map Entry.text)

def ReadsBack (entries : List Entry) (p : AuthorizationParts) : Prop :=
  ∀ f, p.get f = (entries.find? fun e => e.field = some f).map Entry.value

theorem partsFrom_plain {x : List Char} (h : ∀ c ∈ x, c ≠ '"' ∧ c ≠ ',') (s : List Char) :
    partsFrom false (x ++ s) = (partsFrom false s).modifyHead (x ++ ·) := by
  induction x with
  | nil => cases hs : partsFrom false s <;> simp [hs]
  | cons c x ih =>
    obtain ⟨hquote, hcomma⟩ := h c (mem_cons_self ..)
    rw [cons_append, partsFrom, if_neg hquote, if_neg fun h => hcomma h.1,
      ih fun d hd => h d (mem_cons_of_mem _ hd), List.modifyHead_modifyHead]
    rfl

theorem partsFrom_quoted {x : List Char} (h : '"' ∉ x) (s : List Char) :
    partsFrom true (x ++ '"' :: s) = (partsFrom false s).modifyHead (x ++ '"' :: ·) := by
  induction x with
  | nil => rw [nil_append, partsFrom, if_pos rfl]; rfl
  | cons c x ih =>
    rw [mem_cons, not_or] at h
    rw [cons_append, partsFrom, if_neg (Ne.symm h.1), if_neg (by simp), ih h.2,
      List.modifyHead_modifyHead]
    rfl

theorem readFrom_plain {x : List Char} (h : ∀ c ∈ x, c ≠ '"' ∧ c ≠ '=')
    (own : Option (List Char)) (pending s : List Char) :
    readFrom false own pending (x ++ s) = readFrom false own (pending ++ x) s := by
  induction x generalizing pending with
  | nil => simp
  | cons c x ih =>
    obtain ⟨hquote, hequals⟩ := h c (mem_cons_self ..)
    rw [cons_append, readFrom, if_neg hquote, if_neg fun h => hequals h.1,
      ih fun d hd => h d (mem_cons_of_mem _ hd), append_assoc]
    rfl

theorem readFrom_quoted {x : List Char} (h : '"' ∉ x) (own : Option (List Char))
    (pending s : List Char) :
    readFrom true own pending (x ++ '"' :: s) = readFrom false own (pending ++ (x ++ ['"'])) s := by
  induction x generalizing pending with
  | nil => rw [nil_append, readFrom, if_pos rfl]; rfl
  | cons c x ih =>
    rw [mem_cons, not_or] at h
    rw [cons_append, readFrom, if_neg (Ne.symm h.1), if_neg (by simp), ih h.2,
      append_assoc]
    rfl

theorem ne_of_isWhitespace {s : List Char} (h : s.all isWhitespace = true) {c : Char}
    (hc : c ∈ s) : c ≠ '"' ∧ c ≠ ',' ∧ c ≠ '=' := by
  have hwhite := List.all_eq_true.mp h c hc
  refine ⟨?_, ?_, ?_⟩ <;>
  · rintro rfl
    exact absurd hwhite (by decide)

theorem dropWhile_quote {x : List Char} (h : '"' ∉ x) : x.dropWhile (· = '"') = x := by
  cases x with
  | nil => rfl
  | cons c x =>
    rw [mem_cons, not_or] at h
    rw [List.dropWhile_cons_of_neg (by simpa using Ne.symm h.1)]

theorem trimMatches_quoted {x : List Char} (h : '"' ∉ x) :
    trimMatches (· = '"') ('"' :: (x ++ ['"'])) = x := by
  rw [trimMatches, List.dropWhile_cons_of_pos (by simp)]
  cases x with
  | nil => rfl
  | cons c x =>
    have hc : c ≠ '"' := fun hc => h (hc ▸ mem_cons_self ..)
    have hreverse : '"' ∉ (c :: x).reverse := fun hmem => h (List.mem_reverse.mp hmem)
    rw [cons_append, List.dropWhile_cons_of_neg (by simpa using hc), ← cons_append,
      List.reverse_append, List.reverse_singleton, List.singleton_append,
      List.dropWhile_cons_of_pos (by simp), dropWhile_quote hreverse, List.reverse_reverse]

theorem trimMatches_blank {x after : List Char} (h : '"' ∉ x) (hne : after ≠ [])
    (hafter : after.all isWhitespace = true) :
    trimMatches (· = '"') ('"' :: (x ++ '"' :: after)) =
      if x = [] then after else x ++ '"' :: after := by
  have hquote : '"' ∉ after := fun hc => (ne_of_isWhitespace hafter hc).1 rfl
  have hreverse : '"' ∉ after.reverse := fun hmem => hquote (List.mem_reverse.mp hmem)
  rw [trimMatches, List.dropWhile_cons_of_pos (by simp)]
  cases x with
  | nil =>
    rw [if_pos rfl, nil_append, List.dropWhile_cons_of_pos (by simp), dropWhile_quote hquote,
      dropWhile_quote hreverse, List.reverse_reverse]
  | cons c x =>
    have hc : c ≠ '"' := fun hc => h (hc ▸ mem_cons_self ..)
    obtain ⟨d, rest, hd⟩ := List.exists_cons_of_ne_nil (List.reverse_ne_nil_iff.mpr hne)
    have hd' : d ≠ '"' := by
      rintro rfl
      rw [hd] at hreverse
      exact hreverse (mem_cons_self ..)
    have hback : ((c :: x) ++ '"' :: after).reverse =
        d :: (rest ++ '"' :: (c :: x).reverse) := by
      rw [List.reverse_append, List.reverse_cons, hd]
      simp
    rw [if_neg (cons_ne_nil _ _), cons_append,
      List.dropWhile_cons_of_neg (by simpa using hc), ← cons_append, hback,
      List.dropWhile_cons_of_neg (by simpa using hd'), ← hback, List.reverse_reverse]

namespace Entry

variable {e : Entry}

theorem Written.partsFrom (h : e.Written) (s : List Char) :
    partsFrom false (e.text ++ s) = (partsFrom false s).modifyHead (e.text ++ ·) := by
  have hbefore := partsFrom_plain fun c hc =>
    ⟨(ne_of_isWhitespace h.before hc).1, (ne_of_isWhitespace h.before hc).2.1⟩
  have hkey := partsFrom_plain fun c hc => ⟨(h.key c hc).1, (h.key c hc).2.1⟩
  have hafter := partsFrom_plain fun c hc =>
    ⟨(ne_of_isWhitespace h.after hc).1, (ne_of_isWhitespace h.after hc).2.1⟩
  have hvalue : Auth.partsFrom false ('=' :: '"' :: (e.encoded ++ '"' :: (e.after ++ s))) =
      (Auth.partsFrom false s).modifyHead fun t =>
        '=' :: '"' :: (e.encoded ++ '"' :: (e.after ++ t)) := by
    rw [Auth.partsFrom, if_neg (by decide), if_neg (by decide), Auth.partsFrom, if_pos rfl,
      Bool.not_false, partsFrom_quoted h.quote, hafter]
    simp only [List.modifyHead_modifyHead]
    rfl
  rw [text]
  simp only [append_assoc, cons_append]
  rw [hbefore, hkey, hvalue]
  simp only [List.modifyHead_modifyHead]
  rfl

theorem trimChars_blanks {before : List Char} (h : before.all isWhitespace = true)
    (key : List Char) : trimChars (before ++ key) = trimChars key := by
  rw [trimChars, List.dropWhile_append_of_pos (List.all_eq_true.mp h)]
  rfl

theorem Written.read (h : e.Written) :
    readPart e.text = (some (trimChars e.key), '"' :: (e.encoded ++ '"' :: e.after)) := by
  have hbefore := readFrom_plain fun c hc =>
    ⟨(ne_of_isWhitespace h.before hc).1, (ne_of_isWhitespace h.before hc).2.2⟩
  have hkey := readFrom_plain fun c hc => ⟨(h.key c hc).1, (h.key c hc).2.2⟩
  have hafter := readFrom_plain fun c hc =>
    ⟨(ne_of_isWhitespace h.after hc).1, (ne_of_isWhitespace h.after hc).2.2⟩
  have hend := hafter (some (trimChars e.key)) ('"' :: (e.encoded ++ ['"'])) []
  rw [append_nil] at hend
  rw [readPart, text, hbefore, hkey, readFrom, if_neg (by decide), if_pos ⟨rfl, rfl⟩,
    nil_append, trimChars_blanks h.before, readFrom, if_pos rfl, Bool.not_false,
    readFrom_quoted h.quote]
  refine hend.trans ?_
  rw [readFrom]
  simp

theorem Written.valueOf (h : e.Written) (hfield : e.field ≠ none) :
    AuthorizationParts.valueOf (readPart e.text).2 = e.value ↔ e.after = [] := by
  rw [h.read, AuthorizationParts.valueOf]
  have hencoded := h.encoded hfield
  by_cases hafter : e.after = []
  · rw [hafter, trimMatches_quoted h.quote, urlDecode_of_encodes hencoded]
    exact iff_of_true rfl rfl
  · -- the blanks are kept, and mostly the closing quote
    have hkept : ∀ c : Char, isWhitespace c = false → c ∉ e.after := fun c hc hmem =>
      Bool.false_ne_true (hc.symm.trans (List.all_eq_true.mp h.after c hmem))
    have hblanks : Encodes e.after e.after := .refl (hkept _ (by decide)) (hkept _ (by decide))
    refine iff_of_false (fun heq => ?_) hafter
    rw [trimMatches_blank h.quote hafter h.after] at heq
    split at heq
    · next hempty =>
      have hvalue := urlDecode_of_encodes hencoded
      rw [hempty] at hvalue
      rw [urlDecode_of_encodes hblanks, ← hvalue] at heq
      exact hafter heq
    · rw [urlDecode_of_encodes (hencoded.append (.plain (by decide) (by decide) hblanks))] at heq
      have hlength := congrArg List.length heq
      simp at hlength

end Entry

theorem partsFrom_joined {entries : List Entry} (hne : entries ≠ [])
    (hwritten : ∀ e ∈ entries, e.Written) :
    partsFrom false (joined entries) = entries.map Entry.text := by
  induction entries with
  | nil => exact absurd rfl hne
  | cons e entries ih =>
    have he := hwritten e (mem_cons_self ..)
    cases entries with
    | nil =>
      have h := he.partsFrom []
      rw [append_nil] at h
      rw [joined, map_cons, List.map_nil, List.intercalate_singleton, h]
      simp [partsFrom]
    | cons e' entries =>
      have hjoined : joined (e :: e' :: entries) =
          e.text ++ ',' :: joined (e' :: entries) := by
        simp [joined, List.intercalate]
      rw [hjoined, he.partsFrom, partsFrom, if_neg (by decide), if_pos ⟨rfl, rfl⟩,
        ih (cons_ne_nil _ _) fun e hmem => hwritten e (mem_cons_of_mem _ hmem)]
      simp

theorem stores_text {entries : List Entry} (hwritten : ∀ e ∈ entries, e.Written)
    (key : List Char) :
    (stores key (entries.map Entry.text)).map Store.call =
      entries.map fun e => (trimChars e.key, (readPart e.text).2) := by
  induction entries generalizing key with
  | nil => rfl
  | cons e entries ih =>
    have hread := (hwritten e (mem_cons_self ..)).read
    have hraw : (readPart e.text).2 ≠ [] := by rw [hread]; exact cons_ne_nil _ _
    rw [map_cons, stores, if_neg hraw, map_cons, map_cons,
      ih fun e hmem => hwritten e (mem_cons_of_mem _ hmem), Store.call, hread]
    rfl

theorem parseParts_joined {entries : List Entry} (hwritten : ∀ e ∈ entries, e.Written) :
    parseParts (joined entries) = some (setAll {}
      (entries.map fun e => (trimChars e.key, (readPart e.text).2))) := by
  rw [parseParts_eq]
  cases entries with
  | nil => rfl
  | cons e entries => rw [partsFrom_joined (cons_ne_nil _ _) hwritten, stores_text hwritten]

theorem get_setAll {entries : List Entry}
    (hnodup : (entries.filterMap Entry.field).Nodup) (p : AuthorizationParts) (f : Field) :
    (setAll p (entries.map fun e => (trimChars e.key, (readPart e.text).2))).get f =
      ((entries.find? fun e => e.field = some f).map fun e =>
        AuthorizationParts.valueOf (readPart e.text).2).or (p.get f) := by
  induction entries generalizing p with
  | nil => rfl
  | cons e entries ih =>
    have hfield : Field.ofKey (trimChars e.key) = e.field := rfl
    have htail : (entries.filterMap Entry.field).Nodup := by
      rw [List.filterMap_cons] at hnodup
      split at hnodup
      · exact hnodup
      · exact (nodup_cons.mp hnodup).2
    have hstep : setAll p ((e :: entries).map fun e => (trimChars e.key, (readPart e.text).2)) =
        setAll (p.set (trimChars e.key) (readPart e.text).2)
          (entries.map fun e => (trimChars e.key, (readPart e.text).2)) := rfl
    rw [hstep, ih htail, AuthorizationParts.get_set, hfield, List.find?_cons]
    by_cases he : e.field = some f
    · have hnone : entries.find? (fun e => e.field = some f) = none := by
        rw [List.filterMap_cons_some he] at hnodup
        refine List.find?_eq_none.mpr fun e' he' hf => ?_
        exact (nodup_cons.mp hnodup).1
          (List.mem_filterMap.mpr ⟨e', he', of_decide_eq_true hf⟩)
      simp [he, hnone]
    · simp [he]

theorem find?_field {entries : List Entry} (hnodup : (entries.filterMap Entry.field).Nodup)
    {e : Entry} (he : e ∈ entries) {f : Field} (hf : e.field = some f) :
    entries.find? (fun e => e.field = some f) = some e := by
  induction entries with
  | nil => cases he
  | cons e' entries ih =>
    rcases mem_cons.mp he with rfl | he
    · exact List.find?_cons_of_pos (by simpa using hf)
    · by_cases hf' : e'.field = some f
      · rw [List.filterMap_cons_some hf'] at hnodup
        exact absurd (List.mem_filterMap.mpr ⟨e, he, hf⟩) (nodup_cons.mp hnodup).1
      · rw [List.find?_cons_of_neg (by simpa using hf')]
        refine ih ?_ he
        rw [List.filterMap_cons] at hnodup
        split at hnodup
        · exact hnodup
        · exact (nodup_cons.mp hnodup).2

/-- **When the fields come back**: every value is followed by the comma at once. -/
theorem readsBack_iff {entries : List Entry} (hwritten : ∀ e ∈ entries, e.Written)
    (hnodup : (entries.filterMap Entry.field).Nodup) :
    (∃ p, parseParts (joined entries) = some p ∧ ReadsBack entries p) ↔
      ∀ e ∈ entries, e.field ≠ none → e.after = [] := by
  rw [parseParts_joined hwritten]
  simp only [Option.some.injEq, exists_eq_left', ReadsBack]
  have hget (f : Field) := get_setAll hnodup {} f
  have hempty (f : Field) : ({} : AuthorizationParts).get f = none := by cases f <;> rfl
  simp only [hempty, Option.or_none] at hget
  constructor
  · intro hback e he hfield
    obtain ⟨f, hf⟩ := Option.ne_none_iff_exists'.mp hfield
    have hvalue := (hget f).symm.trans (hback f)
    rw [find?_field hnodup he hf, Option.map_some, Option.map_some, Option.some.injEq] at hvalue
    exact ((hwritten e he).valueOf hfield).mp hvalue
  · intro hafter f
    rw [hget]
    cases hfind : entries.find? fun e => e.field = some f with
    | none => rfl
    | some e =>
      have he := List.mem_of_find?_eq_some hfind
      have hfield : e.field ≠ none := by
        have hf := List.find?_some (p := fun e : Entry => decide (e.field = some f)) hfind
        rw [of_decide_eq_true hf]
        exact nofun
      rw [Option.map_some, Option.map_some,
        ((hwritten e he).valueOf hfield).mpr (hafter e he hfield)]

def IsScheme (scheme : List Char) (legacy : Bool) : Prop :=
  ' ' ∉ scheme ∧ (sameIgnoreAsciiCase scheme "MediaBrowser".toList = true ∨
    legacy = true ∧ sameIgnoreAsciiCase scheme "Emby".toList = true)

theorem parseAuthorizationHeader_eq {scheme : List Char} {legacy : Bool}
    (hscheme : IsScheme scheme legacy) (rest : List Char) :
    parseAuthorizationHeader (scheme ++ ' ' :: rest) legacy = (parseParts rest).map some := by
  have hsplit : splitOnce [' '] (scheme ++ ' ' :: rest) = some (scheme, rest) := by
    have h := @splitOnce_append _ [] _ hscheme.1 rest
    rwa [append_assoc] at h
  rw [parseAuthorizationHeader, hsplit]
  exact if_pos hscheme.2

/-- **When the fields of a header are kept apart**: no header stops the program; every text stays
with the key of its part as long as no part with the key of a field and no value stands right
before one without a key, empty parts aside; and the fields that are written come back as long as
no blanks stand between the closing quote of one and the comma. -/
theorem authorization_header (header : List Char) (legacy : Bool) :
    (∃ parts, parseAuthorizationHeader header legacy = some parts) ∧
      (∀ scheme rest, splitOnce [' '] header = some (scheme, rest) →
        (KeepsApart rest ↔ ((partsFrom false rest).filter (· ≠ [])).IsChain
          fun part next => Dangling part → ¬ Keyless next)) ∧
      ∀ scheme entries, IsScheme scheme legacy → header = scheme ++ ' ' :: joined entries →
        (∀ e ∈ entries, e.Written) → (entries.filterMap Entry.field).Nodup →
        ((∃ p, parseAuthorizationHeader header legacy = some (some p) ∧ ReadsBack entries p) ↔
          ∀ e ∈ entries, e.field ≠ none → e.after = []) := by
  refine ⟨parseAuthorizationHeader_total header legacy, fun _ rest _ => keepsApart_iff rest, ?_⟩
  rintro scheme entries hscheme rfl hwritten hnodup
  rw [parseAuthorizationHeader_eq hscheme, ← readsBack_iff hwritten hnodup]
  simp only [Option.map_eq_some_iff, Option.some.injEq, exists_eq_right]

/-- A client's name with a comma in quotes, and a key that is not known. -/
def clientEntries : List Entry :=
  [{ before := [], key := ['C', 'l', 'i', 'e', 'n', 't'], encoded := ['T', 'V', ',', '2']
     value := ['T', 'V', ',', '2'], after := [] },
    { before := [' '], key := ['T', 'h', 'e', 'm', 'e'], encoded := ['d'], value := ['d'],
      after := [' '] }]

theorem authorization_header_client :
    ∃ p, parseAuthorizationHeader ("MediaBrowser".toList ++ ' ' :: joined clientEntries) false =
      some (some p) ∧ ReadsBack clientEntries p := by
  have hscheme : IsScheme "MediaBrowser".toList false := ⟨by decide, .inl (by decide)⟩
  refine ((authorization_header _ false).2.2 _ _ hscheme rfl ?_ (by decide)).mpr ?_
  · intro e he
    rcases List.mem_pair.mp he with rfl | rfl
    · exact ⟨rfl, by simp, by decide, fun _ => .refl (by decide) (by decide), rfl⟩
    · exact ⟨rfl, by simp, by decide, fun _ => .refl (by decide) (by decide), rfl⟩
  · intro e he hfield
    rcases List.mem_pair.mp he with rfl | rfl
    · rfl
    · exact absurd rfl hfield

/-- The key of a token without a value takes the text of the next part. -/
theorem token_from_another_part :
    parseAuthorizationHeader "MediaBrowser Token=,foo".toList false =
        some (some { token := some ['f', 'o', 'o'] }) ∧
      ¬ KeepsApart ['T', 'o', 'k', 'e', 'n', '=', ',', 'f', 'o', 'o'] := by
  refine ⟨by decide +kernel, fun h => ?_⟩
  have hstores : stores [] (partsFrom false ['T', 'o', 'k', 'e', 'n', '=', ',', 'f', 'o', 'o']) =
      [⟨['f', 'o', 'o'], ['T', 'o', 'k', 'e', 'n']⟩] := rfl
  have hkey := h ⟨['f', 'o', 'o'], ['T', 'o', 'k', 'e', 'n']⟩
    (hstores ▸ List.mem_singleton.mpr rfl) (by decide)
  cases hkey

end Ferrofin.Auth
