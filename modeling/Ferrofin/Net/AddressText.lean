import Ferrofin.Util.Text
import Ferrofin.Net.Address

/-!
# Addresses as text

The parser of `std::net`: what `parse::<IpAddr>()` and `parse::<SocketAddr>()` accept. A reader
takes the front of the text it is given and returns the rest, or refuses and takes nothing.
-/

namespace Ferrofin.Net

open Util
open Option (bind_eq_bind bind_eq_some_iff)

def toDigit (radix : Nat) (c : Char) : Option Nat :=
  let n := c.toNat
  let digit :=
    if 48 ≤ n ∧ n ≤ 57 then some (n - 48)
    else if 97 ≤ n ∧ n ≤ 122 then some (n - 87)
    else if 65 ≤ n ∧ n ≤ 90 then some (n - 55)
    else none
  digit.filter (· < radix)

def digitsValue (radix : Nat) (digits : List Char) : Nat :=
  digits.foldl (fun value c => value * radix + (toDigit radix c).getD 0) 0

def readGivenChar (c : Char) : List Char → Option (List Char)
  | [] => none
  | d :: s => if d = c then some s else none

def readNumber (radix : Nat) (maxDigits : Option Nat) (allowZeroPrefix : Bool) (bound : Nat)
    (s : List Char) : Option (Nat × List Char) :=
  let digits := s.takeWhile fun c => (toDigit radix c).isSome
  if digits = [] ∨ maxDigits.any (· < digits.length) then none
  else if !allowZeroPrefix ∧ digits.head? = some '0' ∧ 1 < digits.length then none
  else if bound < digitsValue radix digits then none
  else some (digitsValue radix digits, s.dropWhile fun c => (toDigit radix c).isSome)

/-- `read_separator`: the reading after `sep`, which the first of a series does without. -/
def readSeparator {α : Type} (sep : Char) (index : Nat) (inner : List Char → Option (α × List Char))
    (s : List Char) : Option (α × List Char) :=
  if index = 0 then inner s else (readGivenChar sep s).bind inner

/-- A group of `read_ipv4_addr`. -/
def readOctet (index : Nat) (s : List Char) : Option (Nat × List Char) :=
  readSeparator '.' index (readNumber 10 (some 3) false 255) s

def readIpv4Addr (s : List Char) : Option (BitVec 32 × List Char) := do
  let (a, s) ← readOctet 0 s
  let (b, s) ← readOctet 1 s
  let (c, s) ← readOctet 2 s
  let (d, s) ← readOctet 3 s
  some (BitVec.ofNat 32 (((a * 256 + b) * 256 + c) * 256 + d), s)

/-- `read_groups`: up to `left` groups of an IPv6 address, the last two perhaps written as an
IPv4 address, and whether they were. -/
def readGroups : Nat → Nat → List Char → List Nat × Bool × List Char
  | 0, _, s => ([], false, s)
  | left + 1, index, s =>
    match if left = 0 then none else readSeparator ':' index readIpv4Addr s with
    | some (four, s') => ([four.toNat / 65536, four.toNat % 65536], true, s')
    | none =>
      match readSeparator ':' index (readNumber 16 (some 4) true 65535) s with
      | some (group, s') =>
        let (groups, ipv4, s'') := readGroups left (index + 1) s'
        (group :: groups, ipv4, s'')
      | none => ([], false, s)

def ofGroups (groups : List Nat) : BitVec 128 :=
  BitVec.ofNat 128 (groups.foldl (fun value group => value * 65536 + group) 0)

def readIpv6Addr (s : List Char) : Option (BitVec 128 × List Char) :=
  let (head, headIpv4, s) := readGroups 8 0 s
  if head.length = 8 then some (ofGroups head, s)
  else if headIpv4 then none
  else do
    let s ← readGivenChar ':' s
    let s ← readGivenChar ':' s
    let (tail, _, s) := readGroups (8 - (head.length + 1)) 0 s
    let zeros := List.replicate (8 - head.length - tail.length) 0
    some (ofGroups (head ++ zeros ++ tail), s)

def readIpAddr (s : List Char) : Option (IpAddr × List Char) :=
  match readIpv4Addr s with
  | some (four, s') => some (.v4 four, s')
  | none => (readIpv6Addr s).map fun (six, s') => (.v6 six, s')

/-- `parse_with`: the reading of the whole text. -/
def parseWith {α : Type} (read : List Char → Option (α × List Char)) (s : List Char) : Option α :=
  match read s with
  | some (a, []) => some a
  | _ => none

/-- `parse::<IpAddr>()`. -/
def parseIpAddr (s : List Char) : Option IpAddr := parseWith readIpAddr s

def readPort (s : List Char) : Option (Nat × List Char) :=
  (readGivenChar ':' s).bind (readNumber 10 none true 65535)

def readScopeId (s : List Char) : Option (Nat × List Char) :=
  (readGivenChar '%' s).bind (readNumber 10 none true 4294967295)

/-- `read_socket_addr_v4` and `read_socket_addr_v6`, of which the address is all that is used. -/
def readSocketAddrV4 (s : List Char) : Option (IpAddr × List Char) := do
  let (four, s) ← readIpv4Addr s
  let (_, s) ← readPort s
  some (.v4 four, s)

def readSocketAddrV6 (s : List Char) : Option (IpAddr × List Char) := do
  let s ← readGivenChar '[' s
  let (six, s) ← readIpv6Addr s
  let s := ((readScopeId s).map Prod.snd).getD s
  let s ← readGivenChar ']' s
  let (_, s) ← readPort s
  some (.v6 six, s)

/-- `parse::<SocketAddr>()`, then `ip()`. -/
def parseSocketAddrIp (s : List Char) : Option IpAddr :=
  parseWith (fun s => (readSocketAddrV4 s).or (readSocketAddrV6 s)) s

example : parseIpAddr "01.2.3.4".toList = none := by decide
example : parseIpAddr "::ffff:1.2.3.4".toList = some (.v6 0xffff01020304#128) := by decide
example : parseSocketAddrIp "[::1%3]:41234".toList = some (.v6 1#128) := by decide

/-! ## What is accepted -/

def IsAddressChar (c : Char) : Prop := (toDigit 16 c).isSome ∨ c = ':' ∨ c = '.'

/-- A reader went from `s` to `rest` over address characters. -/
def Takes (s rest : List Char) : Prop := ∃ taken, s = taken ++ rest ∧ ∀ c ∈ taken, IsAddressChar c

variable {s rest rest' : List Char}

theorem Takes.refl (s : List Char) : Takes s s := ⟨[], rfl, fun c hc => by cases hc⟩

theorem Takes.trans (h : Takes s rest) (h' : Takes rest rest') : Takes s rest' := by
  obtain ⟨taken, rfl, hchars⟩ := h
  obtain ⟨taken', rfl, hchars'⟩ := h'
  refine ⟨taken ++ taken', (List.append_assoc _ _ _).symm, fun c hc => ?_⟩
  exact (List.mem_append.mp hc).elim (hchars c) (hchars' c)

theorem isSome_toDigit_mono {radix radix' : Nat} (hle : radix ≤ radix') {c : Char}
    (h : (toDigit radix c).isSome) : (toDigit radix' c).isSome := by
  obtain ⟨d, hd⟩ := Option.isSome_iff_exists.mp h
  obtain ⟨hdigit, hlt⟩ := Option.filter_eq_some_iff.mp hd
  refine Option.isSome_iff_exists.mpr ⟨d, Option.filter_eq_some_iff.mpr ⟨hdigit, ?_⟩⟩
  exact decide_eq_true (Nat.lt_of_lt_of_le (of_decide_eq_true hlt) hle)

theorem takes_readGivenChar {c : Char} (hc : IsAddressChar c) (h : readGivenChar c s = some rest) :
    Takes s rest := by
  cases s with
  | nil => cases h
  | cons d s =>
    rw [readGivenChar] at h
    split at h
    · next heq =>
      cases h
      refine ⟨[d], rfl, fun c' hc' => ?_⟩
      rw [List.mem_singleton.mp hc', heq]
      exact hc
    · cases h

theorem takes_readNumber {radix : Nat} (hradix : radix ≤ 16) {maxDigits : Option Nat}
    {zeros : Bool} {bound n : Nat}
    (h : readNumber radix maxDigits zeros bound s = some (n, rest)) : Takes s rest := by
  simp only [readNumber] at h
  split at h
  · cases h
  · split at h
    · cases h
    · split at h
      · cases h
      · obtain ⟨-, rfl⟩ := Prod.mk.inj (Option.some.inj h)
        refine ⟨_, List.takeWhile_append_dropWhile.symm, fun c hc => ?_⟩
        exact .inl (isSome_toDigit_mono hradix (List.all_eq_true.mp List.all_takeWhile c hc))

theorem takes_readSeparator {α : Type} {sep : Char} (hsep : IsAddressChar sep) {index : Nat}
    {inner : List Char → Option (α × List Char)}
    (hinner : ∀ s a rest, inner s = some (a, rest) → Takes s rest) {a : α}
    (h : readSeparator sep index inner s = some (a, rest)) : Takes s rest := by
  rw [readSeparator] at h
  split at h
  · exact hinner _ _ _ h
  · obtain ⟨s', hs', hr⟩ := bind_eq_some_iff.mp h
    exact (takes_readGivenChar hsep hs').trans (hinner _ _ _ hr)

theorem takes_readOctet {index n : Nat} (h : readOctet index s = some (n, rest)) :
    Takes s rest :=
  takes_readSeparator (.inr (.inr rfl)) (fun _ _ _ => takes_readNumber (by decide)) h

theorem takes_readIpv4Addr {a : BitVec 32} (h : readIpv4Addr s = some (a, rest)) :
    Takes s rest := by
  simp only [readIpv4Addr, bind_eq_bind, bind_eq_some_iff, Prod.exists] at h
  obtain ⟨o, s1, h1, o2, s2, h2, o3, s3, h3, o4, s4, h4, h⟩ := h
  obtain ⟨-, rfl⟩ := Prod.mk.inj (Option.some.inj h)
  exact (((takes_readOctet h1).trans (takes_readOctet h2)).trans (takes_readOctet h3)).trans
    (takes_readOctet h4)

theorem takes_readGroups (left index : Nat) (s : List Char) :
    Takes s (readGroups left index s).2.2 := by
  induction left generalizing index s with
  | zero => exact .refl s
  | succ left ih =>
    rw [readGroups]
    split
    · next four s' hfour =>
      split at hfour
      · cases hfour
      · exact takes_readSeparator (.inr (.inl rfl)) (fun _ _ _ => takes_readIpv4Addr) hfour
    · split
      · next group s' hgroup =>
        exact (takes_readSeparator (.inr (.inl rfl))
          (fun _ _ _ => takes_readNumber (by decide)) hgroup).trans (ih _ _)
      · exact .refl s

theorem takes_readIpv6Addr {a : BitVec 128} (h : readIpv6Addr s = some (a, rest)) :
    Takes s rest := by
  have hhead := takes_readGroups 8 0 s
  simp only [readIpv6Addr] at h
  split at h
  · obtain ⟨-, rfl⟩ := Prod.mk.inj (Option.some.inj h)
    exact hhead
  · split at h
    · cases h
    · simp only [bind_eq_bind, bind_eq_some_iff] at h
      obtain ⟨s1, h1, s2, h2, h⟩ := h
      obtain ⟨-, rfl⟩ := Prod.mk.inj (Option.some.inj h)
      have hcolons := (takes_readGivenChar (.inr (.inl rfl)) h1).trans
        (takes_readGivenChar (.inr (.inl rfl)) h2)
      exact (hhead.trans hcolons).trans (takes_readGroups _ 0 s2)

theorem isAddressChar_of_parseIpAddr {a : IpAddr} (h : parseIpAddr s = some a) :
    ∀ c ∈ s, IsAddressChar c := by
  have hread : ∃ a', readIpAddr s = some (a', []) := by
    rw [parseIpAddr, parseWith] at h
    split at h
    · next a' hs => exact ⟨a', hs⟩
    · cases h
  obtain ⟨a', hread⟩ := hread
  have htakes : Takes s [] := by
    rw [readIpAddr] at hread
    split at hread
    · next four s' hfour =>
      obtain ⟨-, rfl⟩ := Prod.mk.inj (Option.some.inj hread)
      exact takes_readIpv4Addr hfour
    · obtain ⟨⟨six, s'⟩, hsix, heq⟩ := Option.map_eq_some_iff.mp hread
      obtain ⟨-, rfl⟩ := Prod.mk.inj heq
      exact takes_readIpv6Addr hsix
  obtain ⟨taken, htaken, hchars⟩ := htakes
  rw [List.append_nil] at htaken
  rw [htaken]
  exact hchars

theorem IsAddressChar.not_isWhitespace {c : Char} (h : IsAddressChar c) :
    isWhitespace c = false := by
  have hrange : 46 ≤ c.toNat ∧ c.toNat ≤ 122 := by
    rcases h with hdigit | rfl | rfl
    · rw [toDigit] at hdigit
      split at hdigit
      · omega
      · split at hdigit
        · omega
        · split at hdigit
          · omega
          · cases hdigit
    · decide
    · decide
  simp only [isWhitespace, Bool.or_eq_false_iff, Bool.and_eq_false_iff, beq_eq_false_iff_ne,
    decide_eq_false_iff_not]
  omega

/-! ## Colons

An address with IPv6 groups has at least two colons, and at most eight. -/

theorem colons_readNumber {radix : Nat} {maxDigits : Option Nat} {zeros : Bool} {bound n : Nat}
    (h : readNumber radix maxDigits zeros bound s = some (n, rest)) :
    s.count ':' = rest.count ':' := by
  simp only [readNumber] at h
  split at h
  · cases h
  split at h
  · cases h
  split at h
  · cases h
  obtain ⟨-, rfl⟩ := Prod.mk.inj (Option.some.inj h)
  have hdigits : ':' ∉ s.takeWhile fun c => (toDigit radix c).isSome := by
    intro hc
    cases List.all_eq_true.mp List.all_takeWhile _ hc
  calc s.count ':' = (s.takeWhile (fun c => (toDigit radix c).isSome) ++
        s.dropWhile fun c => (toDigit radix c).isSome).count ':' := by
          rw [List.takeWhile_append_dropWhile]
    _ = _ := by rw [List.count_append, List.count_eq_zero.mpr hdigits, Nat.zero_add]

theorem colons_readGivenChar {c : Char} (h : readGivenChar c s = some rest) :
    s.count ':' = rest.count ':' + if c = ':' then 1 else 0 := by
  cases s with
  | nil => cases h
  | cons d s =>
    rw [readGivenChar] at h
    split at h
    · next heq =>
      cases h
      rw [List.count_cons, heq]
      simp
    · cases h

theorem colons_readSeparator {α : Type} {sep : Char} {index : Nat}
    {inner : List Char → Option (α × List Char)}
    (hinner : ∀ s a rest, inner s = some (a, rest) → s.count ':' = rest.count ':') {a : α}
    (h : readSeparator sep index inner s = some (a, rest)) :
    s.count ':' = rest.count ':' + if index = 0 ∨ sep ≠ ':' then 0 else 1 := by
  rw [readSeparator] at h
  split at h
  · next hindex => rw [hinner _ _ _ h, if_pos (.inl hindex)]; rfl
  · next hindex =>
    obtain ⟨s', hs', hr⟩ := bind_eq_some_iff.mp h
    rw [colons_readGivenChar hs', hinner _ _ _ hr]
    by_cases hsep : sep = ':' <;> simp [hindex, hsep]

theorem colons_readOctet {index n : Nat} (h : readOctet index s = some (n, rest)) :
    s.count ':' = rest.count ':' := by
  have hcount := colons_readSeparator (fun _ _ _ => colons_readNumber) h
  simpa using hcount

theorem colons_readIpv4Addr {a : BitVec 32} (h : readIpv4Addr s = some (a, rest)) :
    s.count ':' = rest.count ':' := by
  simp only [readIpv4Addr, bind_eq_bind, bind_eq_some_iff, Prod.exists] at h
  obtain ⟨o, s1, h1, o2, s2, h2, o3, s3, h3, o4, s4, h4, h⟩ := h
  obtain ⟨-, rfl⟩ := Prod.mk.inj (Option.some.inj h)
  rw [colons_readOctet h1, colons_readOctet h2, colons_readOctet h3, colons_readOctet h4]

/-- A colon stands before each group of a series that has begun; an IPv4 address is two groups. -/
theorem colons_readGroups (left : Nat) {index : Nat} (hindex : index ≠ 0) (s : List Char) :
    ∃ colons, s.count ':' = (readGroups left index s).2.2.count ':' + colons ∧
      colons ≤ (readGroups left index s).1.length ∧
      (readGroups left index s).1.length ≤ colons + 1 := by
  induction left generalizing index s with
  | zero => exact ⟨0, by simp [readGroups]⟩
  | succ left ih =>
    rw [readGroups]
    split
    · next four s' hfour =>
      split at hfour
      · cases hfour
      · have hcount := colons_readSeparator (fun _ _ _ => colons_readIpv4Addr) hfour
        exact ⟨1, by simpa [hindex] using hcount, by simp, by simp⟩
    · split
      · next group s' hgroup =>
        obtain ⟨colons, hcolons, hle, hge⟩ := ih (Nat.succ_ne_zero index) s'
        have hcount := colons_readSeparator (fun _ _ _ => colons_readNumber) hgroup
        refine ⟨colons + 1, ?_, ?_, ?_⟩
        · simp only [hindex, ne_eq, not_true_eq_false, or_self, if_false] at hcount
          rw [hcount, hcolons]
          rfl
        · exact Nat.succ_le_succ hle
        · exact Nat.succ_le_succ hge
      · exact ⟨0, by simp⟩

theorem colons_readGroups_zero (left : Nat) (s : List Char) :
    ∃ colons, s.count ':' = (readGroups left 0 s).2.2.count ':' + colons ∧
      colons + 1 ≤ max (readGroups left 0 s).1.length 1 ∧
      (readGroups left 0 s).1.length ≤ colons + 2 := by
  cases left with
  | zero => exact ⟨0, by simp [readGroups]⟩
  | succ left =>
    rw [readGroups]
    split
    · next four s' hfour =>
      split at hfour
      · cases hfour
      · have hcount := colons_readSeparator (fun _ _ _ => colons_readIpv4Addr) hfour
        exact ⟨0, by simpa using hcount, by simp, by simp⟩
    · split
      · next group s' hgroup =>
        obtain ⟨colons, hcolons, hle, hge⟩ :=
          colons_readGroups left (Nat.succ_ne_zero 0) s'
        have hcount := colons_readSeparator (fun _ _ _ => colons_readNumber) hgroup
        simp only [true_or, if_true, Nat.add_zero] at hcount
        refine ⟨colons, hcount.trans hcolons, ?_, Nat.succ_le_succ hge⟩
        exact le_max_of_le_left (Nat.succ_le_succ hle)
      · exact ⟨0, by simp⟩

theorem length_readGroups_le (left index : Nat) (s : List Char) :
    (readGroups left index s).1.length ≤ left := by
  induction left generalizing index s with
  | zero => simp [readGroups]
  | succ left ih =>
    rw [readGroups]
    split
    · next hfour =>
      split at hfour
      · cases hfour
      · next hleft => simp; omega
    · split
      · exact Nat.succ_le_succ (ih _ _)
      · exact Nat.zero_le _

/-- What is read as an IPv6 address has two colons at least and eight at most. -/
theorem colons_readIpv6Addr {a : BitVec 128} (h : readIpv6Addr s = some (a, rest)) :
    rest.count ':' + 2 ≤ s.count ':' ∧ s.count ':' ≤ rest.count ':' + 8 := by
  obtain ⟨colons, hcolons, hle, hge⟩ := colons_readGroups_zero 8 s
  rcases hhead : readGroups 8 0 s with ⟨head, headIpv4, s0⟩
  simp only [hhead] at hcolons hle hge
  simp only [readIpv6Addr, hhead] at h
  split at h
  · next hfull =>
    cases h
    omega
  next hnotFull =>
  split at h
  · cases h
  simp only [bind_eq_bind, bind_eq_some_iff] at h
  obtain ⟨s1, h1, s2, h2, h⟩ := h
  have hone := colons_readGivenChar h1
  have htwo := colons_readGivenChar h2
  rw [if_pos rfl] at hone htwo
  obtain ⟨colons', hcolons', hle', hge'⟩ := colons_readGroups_zero (8 - (head.length + 1)) s2
  have htail := length_readGroups_le (8 - (head.length + 1)) 0 s2
  have hshort := length_readGroups_le 8 0 s
  rcases hgroups : readGroups (8 - (head.length + 1)) 0 s2 with ⟨tail, tailIpv4, s3⟩
  simp only [hgroups] at hcolons' hle' hge' htail h
  simp only [hhead] at hshort
  cases h
  omega

theorem colons_of_parseIpAddr {bits : BitVec 128} (h : parseIpAddr s = some (.v6 bits)) :
    2 ≤ s.count ':' ∧ s.count ':' ≤ 8 := by
  have hread : readIpAddr s = some (.v6 bits, []) := by
    rw [parseIpAddr, parseWith] at h
    split at h
    · next a hs => rw [hs, Option.some.inj h]
    · cases h
  rw [readIpAddr] at hread
  split at hread
  · cases hread
  · obtain ⟨⟨six, s'⟩, hsix, heq⟩ := Option.map_eq_some_iff.mp hread
    obtain ⟨-, rfl⟩ := Prod.mk.inj heq
    simpa using colons_readIpv6Addr hsix

end Ferrofin.Net
