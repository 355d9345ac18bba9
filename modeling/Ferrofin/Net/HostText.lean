import Ferrofin.Lib.ByteSlices
import Ferrofin.Net.NetUtils
import Ferrofin.Util.Decimal

/-!
# Bracketed hosts

`try_parse_host_with` as it cuts its text: by bytes, and with a range that excludes its end, so that
a bracketed host loses the byte before its `]`.
-/

namespace Ferrofin.Net

open Lib Util

variable (resolver : HostResolver)

/-- The part of `try_parse_host_with` that reads a host without brackets. -/
def plainHost (ipv4 ipv6 : Bool) (host : List Char) : Option (List IpAddr) :=
  let hosts := host.splitOn ':'
  if hosts.length ≤ 2 then
    let first := hosts.headD []
    (resolver.lookup (String.ofList first)).or <|
      (parseIp (first.takeWhile (· ≠ '/'))).bind fun address =>
        if familyRefused address ipv4 ipv6 then none else some [address]
  else if hosts.length ≤ 9 then (parseIp (host.takeWhile (· ≠ '/'))).map ([·])
  else none

/-- `try_parse_host_with`, or `none` when a slice stops the program. -/
def sliceHost : Nat → Bool → Bool → List Char → Option (Option (List IpAddr))
  | 0, _, _, _ => some none
  | fuel + 1, ipv4, ipv6, host =>
    let host := trimChars host
    if host = [] then some none
    else if host.head? = some '[' then
      match findByte ']' host with
      | some i =>
        if i < 2 then some none
        else
          match sliceBytes host 1 (i - 1) with
          | some inner => sliceHost fuel true false inner
          | none => none
      | none => some none
    else some (plainHost resolver ipv4 ipv6 host)

/-- `try_parse_host_with` of a text, or `none` when a slice stops the program. -/
def sliceHostWith (host : List Char) (ipv4 ipv6 : Bool) : Option (Option (List IpAddr)) :=
  sliceHost resolver (host.length + 1) ipv4 ipv6 host

/-- The slice between the brackets ends inside a character. -/
def CutsCharacter (host : List Char) : Prop :=
  ∃ inner c after, trimChars host = '[' :: (inner ++ c :: ']' :: after) ∧ ']' ∉ inner ++ [c] ∧
    c.utf8Size ≠ 1

variable {resolver} {fuel : Nat} {ipv4 ipv6 : Bool} {host inner after : List Char} {c : Char}

theorem tryParseHost_eq_plainHost (hne : trimChars host ≠ [])
    (h : (trimChars host).head? ≠ some '[') :
    tryParseHost resolver (fuel + 1) ipv4 ipv6 host =
      plainHost resolver ipv4 ipv6 (trimChars host) := by
  rw [tryParseHost]
  split
  · next hnil => exact absurd hnil hne
  · next rest hrest => exact absurd (by rw [hrest]; rfl) h
  · rfl

theorem sliceHost_of_notBracketed (h : (trimChars host).head? ≠ some '[') :
    sliceHost resolver (fuel + 1) ipv4 ipv6 host =
      some (tryParseHost resolver (fuel + 1) ipv4 ipv6 host) := by
  rw [sliceHost]
  by_cases hne : trimChars host = []
  · rw [if_pos hne, tryParseHost, hne]
  · rw [if_neg hne, if_neg h, tryParseHost_eq_plainHost hne h]

theorem takeWhile_close (hclose : ']' ∉ inner) (after : List Char) :
    (inner ++ ']' :: after).takeWhile (· ≠ ']') = inner := by
  rw [List.takeWhile_append_of_pos, List.takeWhile_cons_of_neg (by decide), List.append_nil]
  intro d hd
  exact decide_eq_true fun h => hclose (h ▸ hd)

theorem findByte_close (hclose : ']' ∉ inner) (after : List Char) :
    findByte ']' ('[' :: (inner ++ ']' :: after)) = some (1 + utf8Len inner) := by
  have hmem : ']' ∈ '[' :: (inner ++ ']' :: after) := by simp
  rw [findByte, if_pos hmem, List.takeWhile_cons_of_pos (by decide), takeWhile_close hclose,
    utf8Len_cons]
  rfl

/-- A bracketed host is read again without its brackets and the byte before the second. -/
theorem sliceHost_bracketed (hhost : trimChars host = '[' :: (inner ++ c :: ']' :: after))
    (hclose : ']' ∉ inner ++ [c]) :
    sliceHost resolver (fuel + 1) ipv4 ipv6 host =
      if c.utf8Size = 1 then sliceHost resolver fuel true false inner else none := by
  have hpos := c.utf8Size_pos
  have hfind := findByte_close hclose after
  rw [List.append_assoc, List.singleton_append, ← hhost] at hfind
  have htwo : ¬ 1 + utf8Len (inner ++ [c]) < 2 := by
    simp only [utf8Len_append, utf8Len_cons, utf8Len_nil]
    omega
  have hslice := sliceBytes_brackets (c := c) (d := '[') (e := ']') rfl inner after
  rw [← hhost] at hslice
  have hne : trimChars host ≠ [] := by
    rw [hhost]
    exact List.cons_ne_nil _ _
  have hopen : (trimChars host).head? = some '[' := by
    rw [hhost]
    rfl
  rw [sliceHost]
  simp only [if_neg hne, if_pos hopen, hfind, if_neg htwo, hslice]
  by_cases hc : c.utf8Size = 1
  · rw [if_pos hc, if_pos hc]
  · rw [if_neg hc, if_neg hc]

theorem tryParseHost_bracketed (hhost : trimChars host = '[' :: (inner ++ c :: ']' :: after))
    (hclose : ']' ∉ inner ++ [c]) :
    tryParseHost resolver (fuel + 1) ipv4 ipv6 host =
      tryParseHost resolver fuel true false inner := by
  have htake := takeWhile_close hclose after
  rw [List.append_assoc, List.singleton_append] at htake
  rw [tryParseHost, hhost]
  simp only [htake]
  rw [if_pos (by simp), if_neg (by simp), List.dropLast_concat]

theorem notMem_trimChars {d : Char} (h : d ∉ host) : d ∉ trimChars host := by
  intro hd
  rw [trimChars, List.mem_reverse] at hd
  exact h ((List.dropWhile_sublist _).subset
    (List.mem_reverse.mp ((List.dropWhile_sublist _).subset hd)))

theorem sliceHost_of_notMem (htrim : ']' ∉ trimChars host) :
    sliceHost resolver fuel ipv4 ipv6 host = some (tryParseHost resolver fuel ipv4 ipv6 host) := by
  cases fuel with
  | zero => rfl
  | succ fuel =>
    by_cases hopen : (trimChars host).head? = some '['
    · obtain ⟨rest, hrest⟩ := List.head?_eq_some_iff.mp hopen
      have hfind : findByte ']' (trimChars host) = none := if_neg htrim
      have hne : trimChars host ≠ [] := by simp [hrest]
      rw [sliceHost]
      simp only [if_neg hne, if_pos hopen, hfind]
      rw [tryParseHost, hrest]
      rw [hrest, List.mem_cons, not_or] at htrim
      simp only [if_neg htrim.2]
    · exact sliceHost_of_notBracketed hopen

/-- A bracketed host is empty between its brackets, or has a last character there. -/
theorem bracketed_cases (host : List Char) :
    (trimChars host).head? ≠ some '[' ∨ ']' ∉ trimChars host ∨
      (∃ after, trimChars host = '[' :: ']' :: after) ∨
      ∃ inner c after, trimChars host = '[' :: (inner ++ c :: ']' :: after) ∧
        ']' ∉ inner ++ [c] := by
  by_cases hopen : (trimChars host).head? = some '['
  · obtain ⟨rest, hrest⟩ := List.head?_eq_some_iff.mp hopen
    by_cases hmem : ']' ∈ rest
    · obtain ⟨inner, after, hinner, hclose⟩ := List.eq_append_cons_of_mem hmem
      rcases List.eq_nil_or_concat inner with rfl | ⟨init, c, rfl⟩
      · exact .inr (.inr (.inl ⟨after, by rw [hrest, hinner]; rfl⟩))
      · refine .inr (.inr (.inr ⟨init, c, after, ?_, ?_⟩))
        · rw [hrest, hinner, List.concat_eq_append, List.append_assoc]
          rfl
        · rwa [List.concat_eq_append] at hclose
    · refine .inr (.inl ?_)
      rw [hrest, List.mem_cons, not_or]
      exact ⟨by decide, hmem⟩
  · exact .inl hopen

theorem sliceHost_eq (hnot : ¬ CutsCharacter host) :
    sliceHost resolver (fuel + 1) ipv4 ipv6 host =
      some (tryParseHost resolver (fuel + 1) ipv4 ipv6 host) := by
  rcases bracketed_cases host with hopen | hclose | ⟨after, hempty⟩ |
    ⟨inner, c, after, hhost, hclose⟩
  · exact sliceHost_of_notBracketed hopen
  · exact sliceHost_of_notMem hclose
  · have hfind : findByte ']' ('[' :: ']' :: after) = some 1 :=
      findByte_close List.not_mem_nil after
    rw [sliceHost, tryParseHost, hempty]
    simp only [hfind]
    rfl
  · have hone : c.utf8Size = 1 := by
      by_contra hc
      exact hnot ⟨inner, c, after, hhost, hclose, hc⟩
    have hinner : ']' ∉ inner := fun h => hclose (List.mem_append_left _ h)
    rw [sliceHost_bracketed hhost hclose, if_pos hone, tryParseHost_bracketed hhost hclose,
      sliceHost_of_notMem (notMem_trimChars hinner)]

theorem sliceHostWith_ne_none :
    sliceHostWith resolver host ipv4 ipv6 ≠ none ↔ ¬ CutsCharacter host := by
  constructor
  · rintro hgoes ⟨inner, c, after, hhost, hclose, hc⟩
    exact hgoes (by rw [sliceHostWith, sliceHost_bracketed hhost hclose, if_neg hc])
  · intro hnot
    rw [sliceHostWith, sliceHost_eq hnot]
    exact Option.some_ne_none _

/-! ### Bracketed addresses -/

variable {a port : List Char} {bits : BitVec 128}

theorem trimChars_of_not_isWhitespace (h : ∀ c ∈ host, isWhitespace c = false) :
    trimChars host = host := by
  have htrim := trim_of_not_isWhitespace (s := String.ofList host) (by simpa using h)
  have hchars := toList_trim (String.ofList host)
  rw [htrim, String.toList_ofList] at hchars
  exact hchars.symm

theorem IsAddressChar.range (h : IsAddressChar c) :
    (48 ≤ c.toNat ∧ c.toNat ≤ 58) ∨ (97 ≤ c.toNat ∧ c.toNat ≤ 122) ∨
      (65 ≤ c.toNat ∧ c.toNat ≤ 90) ∨ c.toNat = 46 := by
  rcases h with hdigit | rfl | rfl
  · rw [toDigit] at hdigit
    split at hdigit
    · omega
    split at hdigit
    · omega
    split at hdigit
    · omega
    · cases hdigit
  · exact .inl (by decide)
  · exact .inr (.inr (.inr (by decide)))

/-- The characters of an address are one byte each, and none is one that a host is cut at. -/
theorem IsAddressChar.plain (h : IsAddressChar c) :
    c.utf8Size = 1 ∧ c ≠ '[' ∧ c ≠ ']' ∧ c ≠ '/' ∧ c ≠ '%' := by
  have hrange := h.range
  have hne : ∀ d : Char, d.toNat = 91 ∨ d.toNat = 93 ∨ d.toNat = 47 ∨ d.toNat = 37 → c ≠ d := by
    rintro d hd rfl
    omega
  refine ⟨?_, hne _ (by decide), hne _ (by decide), hne _ (by decide), hne _ (by decide)⟩
  rw [Char.utf8Size_eq_one_iff, UInt32.le_iff_toNat_le]
  show c.toNat ≤ 127
  omega

theorem splitOn_length (s : List Char) : (s.splitOn ':').length = s.count ':' + 1 := by
  induction s with
  | nil => rfl
  | cons c s ih =>
    rw [List.splitOn_cons_eq_if_modifyHead, List.count_cons]
    split
    · rw [List.length_cons, ih]
    · rw [List.length_modifyHead, ih, Nat.add_zero]

theorem headD_splitOn (s : List Char) : (s.splitOn ':').headD [] = s.takeWhile (· ≠ ':') := by
  induction s with
  | nil => rfl
  | cons c s ih =>
    obtain ⟨first, rest, hsplit⟩ := List.exists_cons_of_ne_nil (List.splitOn_ne_nil ':' s)
    rw [hsplit] at ih
    rw [List.splitOn_cons_eq_if_modifyHead, List.takeWhile_cons, hsplit]
    by_cases hc : c = ':'
    · simp [hc]
    · simp only [beq_iff_eq, hc, if_false, decide_not, decide_false, Bool.not_false, if_true]
      exact congrArg (c :: ·) (by simpa using ih)

/-- What an address without its brackets and without its last character has to be read as. -/
def ReadsBracketed (resolver : HostResolver) (a : List Char) : Prop :=
  if 2 ≤ a.dropLast.count ':' then parseIpAddr a.dropLast = parseIpAddr a
  else resolver.lookup (String.ofList (a.dropLast.takeWhile (· ≠ ':'))) = (parseIpAddr a).map ([·])

theorem takeWhile_of_isAddressChar (h : ∀ c ∈ a, IsAddressChar c) :
    a.takeWhile (· ≠ '/') = a := by
  have hall : (a ++ []).takeWhile (· ≠ '/') = a ++ [].takeWhile (· ≠ '/') :=
    List.takeWhile_append_of_pos fun c hc => decide_eq_true (h c hc).plain.2.2.2.1
  rwa [List.append_nil, List.takeWhile_nil, List.append_nil] at hall

theorem parseIp_of_isAddressChar (h : ∀ c ∈ a, IsAddressChar c) : parseIp a = parseIpAddr a := by
  have hzone : ¬ ('%' ∈ a ∧ ':' ∈ a) := fun ⟨hc, _⟩ => (h _ hc).plain.2.2.2.2 rfl
  unfold parseIp
  split
  · exact absurd rfl (h '[' (List.mem_cons_self ..)).plain.2.1
  · simp only [if_neg hzone, Option.or_none]

theorem plainHost_of_colons (h : ∀ c ∈ a, IsAddressChar c) (htwo : 2 ≤ a.count ':')
    (height : a.count ':' ≤ 8) :
    plainHost resolver ipv4 ipv6 a = (parseIpAddr a).map ([·]) := by
  rw [plainHost, splitOn_length]
  simp only []
  rw [if_neg (by omega), if_pos (by omega), takeWhile_of_isAddressChar h,
    parseIp_of_isAddressChar h]

/-- Too few colons for an address: what is read is the name before the first. -/
theorem plainHost_eq_v6 (h : ∀ c ∈ a, IsAddressChar c) (hone : a.count ':' ≤ 1) :
    plainHost resolver ipv4 ipv6 a = some [.v6 bits] ↔
      resolver.lookup (String.ofList (a.takeWhile (· ≠ ':'))) = some [.v6 bits] := by
  have hfirst : ∀ c ∈ a.takeWhile (· ≠ ':'), IsAddressChar c :=
    fun c hc => h c ((List.takeWhile_sublist _).subset hc)
  have hnot : ∀ bits, parseIpAddr (a.takeWhile (· ≠ ':')) ≠ some (.v6 bits) := by
    intro bits hparse
    have htwo := (colons_of_parseIpAddr hparse).1
    have hle := (List.takeWhile_sublist (l := a) (· ≠ ':')).count_le ':'
    omega
  rw [plainHost, splitOn_length]
  simp only []
  rw [if_pos (by omega), headD_splitOn, takeWhile_of_isAddressChar hfirst,
    parseIp_of_isAddressChar hfirst]
  cases resolver.lookup (String.ofList (a.takeWhile (· ≠ ':'))) with
  | some addresses => rfl
  | none =>
    rw [Option.none_or]
    refine ⟨fun hbind => ?_, fun h => by cases h⟩
    obtain ⟨address, haddress, hresult⟩ := Option.bind_eq_some_iff.mp hbind
    split at hresult
    · cases hresult
    · cases hresult
      exact absurd haddress (hnot bits)

theorem sliceHostWith_address (ha : parseIpAddr a = some (.v6 bits)) :
    sliceHostWith resolver a ipv4 ipv6 = some (some [.v6 bits]) := by
  have hchars := isAddressChar_of_parseIpAddr ha
  obtain ⟨htwo, height⟩ := colons_of_parseIpAddr ha
  have htrim := trimChars_of_not_isWhitespace fun c hc => (hchars c hc).not_isWhitespace
  have hne : a ≠ [] := by
    rintro rfl
    cases htwo
  have hopen : a.head? ≠ some '[' := by
    intro h
    exact (hchars '[' (List.mem_of_mem_head? h)).plain.2.1 rfl
  rw [sliceHostWith, sliceHost_of_notBracketed (by rwa [htrim]),
    tryParseHost_eq_plainHost (by rwa [htrim]) (by rwa [htrim]), htrim,
    plainHost_of_colons hchars htwo height, ha]
  rfl

theorem sliceHostWith_bracketed (ha : parseIpAddr a = some (.v6 bits))
    (hafter : ∀ c ∈ after, isWhitespace c = false) :
    sliceHostWith resolver ('[' :: (a ++ ']' :: after)) ipv4 ipv6 =
      some (plainHost resolver true false a.dropLast) := by
  have hchars := isAddressChar_of_parseIpAddr ha
  obtain ⟨htwo, height⟩ := colons_of_parseIpAddr ha
  rcases List.eq_nil_or_concat a with rfl | ⟨init, c, rfl⟩
  · cases htwo
  rw [List.concat_eq_append] at *
  have hinit : ∀ d ∈ init, IsAddressChar d := fun d hd => hchars d (List.mem_append_left _ hd)
  have hc : IsAddressChar c := hchars c (by simp)
  have hblank : ∀ d ∈ '[' :: (init ++ [c] ++ ']' :: after), isWhitespace d = false := by
    intro d hd
    rcases List.mem_cons.mp hd with rfl | hd
    · decide
    rcases List.mem_append.mp hd with hd | hd
    · exact (hchars d hd).not_isWhitespace
    rcases List.mem_cons.mp hd with rfl | hd
    · decide
    · exact hafter d hd
  have htrim := trimChars_of_not_isWhitespace hblank
  rw [List.append_assoc, List.singleton_append] at htrim ⊢
  have hclose : ']' ∉ init ++ [c] := fun h => (hchars _ h).plain.2.2.1 rfl
  have hinitTrim := trimChars_of_not_isWhitespace fun d hd => (hinit d hd).not_isWhitespace
  have hne : init ≠ [] := by
    rintro rfl
    have hle : 2 ≤ [c].length := htwo.trans List.count_le_length
    exact absurd hle (by simp)
  have hopen : init.head? ≠ some '[' := by
    intro h
    exact (hinit '[' (List.mem_of_mem_head? h)).plain.2.1 rfl
  rw [sliceHostWith, sliceHost_bracketed htrim hclose, if_pos hc.plain.1, List.length_cons,
    sliceHost_of_notBracketed (by rwa [hinitTrim]),
    tryParseHost_eq_plainHost (by rwa [hinitTrim]) (by rwa [hinitTrim]), hinitTrim,
    List.dropLast_concat]

theorem readsBracketed_iff (ha : parseIpAddr a = some (.v6 bits)) :
    plainHost resolver true false a.dropLast = some [.v6 bits] ↔ ReadsBracketed resolver a := by
  have hchars : ∀ c ∈ a.dropLast, IsAddressChar c :=
    fun c hc => isAddressChar_of_parseIpAddr ha c (List.dropLast_subset a hc)
  have hle := (List.dropLast_sublist a).count_le ':'
  have height := (colons_of_parseIpAddr ha).2
  rw [ReadsBracketed, ha]
  split
  · next htwo =>
    rw [plainHost_of_colons hchars htwo (by omega)]
    cases parseIpAddr a.dropLast <;> simp
  · next htwo => exact plainHost_eq_v6 hchars (by omega)

/-- **Bracketed hosts**: the program goes on exactly when the slice does not end inside a character;
and a bracketed address, with a port or without, is read as the address exactly when it is that
without its last character. -/
theorem bracketed_hosts (resolver : HostResolver) :
    (∀ host ipv4 ipv6, sliceHostWith resolver host ipv4 ipv6 ≠ none ↔ ¬ CutsCharacter host) ∧
      ∀ a bits, parseIpAddr a = some (.v6 bits) → ∀ (port : UInt16) ipv4 ipv6,
        ((sliceHostWith resolver ('[' :: (a ++ [']'])) ipv4 ipv6 =
            sliceHostWith resolver a ipv4 ipv6 ∧
          sliceHostWith resolver ('[' :: (a ++ ']' :: ':' :: Nat.toDigits 10 port.toNat)) ipv4
            ipv6 = sliceHostWith resolver a ipv4 ipv6) ↔
          ReadsBracketed resolver a) := by
  refine ⟨fun host ipv4 ipv6 => sliceHostWith_ne_none, fun a bits ha port ipv4 ipv6 => ?_⟩
  have hport : ∀ c ∈ ':' :: Nat.toDigits 10 port.toNat, isWhitespace c = false := by
    intro c hc
    rcases List.mem_cons.mp hc with rfl | hc
    · decide
    · exact isWhitespace_of_isDigit (isDigit_of_mem_toDigits hc)
  rw [sliceHostWith_bracketed ha hport, sliceHostWith_address ha,
    sliceHostWith_bracketed ha fun c hc => absurd hc List.not_mem_nil, and_self,
    Option.some_inj, readsBracketed_iff ha]

/-- A host whose slice ends inside a character, and an address that loses its last one. -/
theorem brackets_cut :
    let resolver : HostResolver := ⟨fun _ => false, fun _ => none⟩
    sliceHostWith resolver "[é]".toList true true = none ∧
      sliceHostWith resolver "::1".toList true true = some (some [.v6 1#128]) ∧
      sliceHostWith resolver "[::1]".toList true true = some (some [.v6 0#128]) := by
  decide

end Ferrofin.Net
