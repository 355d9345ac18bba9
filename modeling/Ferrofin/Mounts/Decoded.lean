import Ferrofin.Mounts.Lookup

/-!
# What is read of a mount table

The kernel writes space, tab, line feed and backslash of a field as octal escapes (`escape`).
`unescape` reads them back, but takes each byte for a character: a field of a mount is read as its
bytes (`unescape_escape`), which is the field when it is ASCII.  A form feed and a carriage return,
which the kernel leaves as they are, end a field for `split_ascii_whitespace`.  So a table is read
as it was written exactly when its mount points and types are ASCII without these two
(`parseMountTable_table`).

`unescape` stops the program where a character lies across the third byte behind a backslash
(`isSome_unescape`).
-/

namespace Ferrofin.Mounts

open Lib Util
open List (cons_append length_cons map_cons singleton_append)
open Option (bind_some isSome_map map_some)

variable {s t field front : Text} {c : Char} {bytes rest : List UInt8} {i n : ℕ}

/-! ### The loop -/

def latin (s : Text) : Text := (asBytes s).map fun b => Char.ofNat b.toNat

@[simp] theorem latin_nil : latin [] = [] := rfl

theorem latin_append (s t : Text) : latin (s ++ t) = latin s ++ latin t := by
  rw [latin, asBytes, List.flatMap_append, List.map_append]
  rfl

theorem latin_cons (c : Char) (s : Text) : latin (c :: s) = latin [c] ++ latin s :=
  latin_append [c] s

theorem unescapeFrom_skip (field : Text) (i : ℕ) (bytes rest : List UInt8) :
    unescapeFrom field i bytes.length (bytes ++ rest) =
      unescapeFrom field (i + bytes.length) 0 rest := by
  induction bytes generalizing i with
  | nil => rfl
  | cons b bytes ih =>
    rw [length_cons, cons_append, unescapeFrom, ih, Nat.add_assoc,
      Nat.add_comm 1 bytes.length]

theorem unescapeFrom_of_plain (h : ∀ b ∈ bytes, b.toNat ≠ '\\'.toNat) (field : Text) (i : ℕ)
    (rest : List UInt8) : unescapeFrom field i 0 (bytes ++ rest) =
      (unescapeFrom field (i + bytes.length) 0 rest).map
        (bytes.map (fun b => Char.ofNat b.toNat) ++ ·) := by
  induction bytes generalizing i with
  | nil => simp
  | cons b bytes ih =>
    rw [List.forall_mem_cons] at h
    rw [cons_append, unescapeFrom, if_neg fun hb => h.1 hb.1, ih h.2, Option.map_map,
      length_cons, Nat.add_assoc, Nat.add_comm 1 bytes.length]
    rfl

/-- The loop with `front` behind it and `s` ahead. -/
def unescapeAt (front s : Text) : Option Text :=
  unescapeFrom (front ++ s) (utf8Len front) 0 (asBytes s)

@[simp] theorem unescapeAt_nil (front : Text) : unescapeAt front [] = some [] := rfl

theorem unescapeAt_cons (hc : c ≠ '\\') (front s : Text) :
    unescapeAt front (c :: s) = (unescapeAt (front ++ [c]) s).map (latin [c] ++ ·) := by
  have hplain : ∀ b ∈ asBytes [c], b.toNat ≠ '\\'.toNat := fun b hb hback => by
    have hmem : b ∈ String.utf8EncodeChar c := by simpa [asBytes] using hb
    have hlow : b.toNat < 0x80 := by
      rw [hback]
      decide
    exact hc (Char.toNat_inj.mp ((toNat_of_mem_encodeChar hmem hlow).trans hback))
  have hsplit : asBytes (c :: s) = asBytes [c] ++ asBytes s := asBytes_append [c] s
  rw [unescapeAt, hsplit, unescapeFrom_of_plain hplain, length_asBytes, ← utf8Len_append,
    unescapeAt, List.append_assoc]
  rfl

theorem unescapeAt_backslash (front s : Text) :
    unescapeAt front ('\\' :: s) =
      if 3 ≤ utf8Len s then
        (cutBytes s 3).bind fun (digits, rest) =>
          match parseOctal digits with
          | some code => (unescapeAt (front ++ '\\' :: digits) rest).map (Char.ofNat code :: ·)
          | none => (unescapeAt (front ++ ['\\']) s).map ('\\' :: ·)
      else (unescapeAt (front ++ ['\\']) s).map ('\\' :: ·) := by
  have hone : utf8Len ['\\'] = 1 := rfl
  have hback : asBytes ('\\' :: s) = 92 :: asBytes s := rfl
  have hfield : front ++ '\\' :: s = (front ++ ['\\']) ++ s := by simp
  have hlen : utf8Len (front ++ ['\\']) = utf8Len front + 1 := by rw [utf8Len_append, hone]
  have hnext : unescapeFrom (front ++ '\\' :: s) (utf8Len front + 1) 0 (asBytes s) =
      unescapeAt (front ++ ['\\']) s := by rw [unescapeAt, hlen, hfield]
  have hinside : utf8Len front + 3 < utf8Len (front ++ '\\' :: s) ↔ 3 ≤ utf8Len s := by
    rw [hfield, utf8Len_append, hlen]
    omega
  rw [unescapeAt, hback, unescapeFrom]
  by_cases h : 3 ≤ utf8Len s
  · rw [if_pos ⟨rfl, hinside.mpr h⟩, if_pos h, sliceBytes, if_pos (by omega)]
    have hcut : cutBytes (front ++ '\\' :: s) (utf8Len front + 4) =
        (cutBytes s 3).map fun r => (front ++ ['\\'] ++ r.1, r.2) := by
      rw [hfield, ← cutBytes_append, hlen]
    rw [hcut]
    rcases hthree : cutBytes s 3 with _ | ⟨digits, rest⟩
    · rfl
    · obtain ⟨rfl, hdigits⟩ := cutBytes_eq_some hthree
      have hslice : cutBytes (front ++ ['\\'] ++ digits) (utf8Len front + 1) =
          some (front ++ ['\\'], digits) := by rw [← hlen, cutBytes_utf8Len]
      have hskip : unescapeFrom (front ++ '\\' :: (digits ++ rest)) (utf8Len front + 1) 3
          (asBytes (digits ++ rest)) = unescapeAt (front ++ '\\' :: digits) rest := by
        have hwhere : utf8Len (front ++ '\\' :: digits) = utf8Len front + 1 + 3 := by
          rw [utf8Len_append, utf8Len_cons, hdigits]
          have : ('\\').utf8Size = 1 := rfl
          omega
        have h3 : (3 : ℕ) = (asBytes digits).length := by rw [length_asBytes, hdigits]
        rw [asBytes_append, unescapeAt, hwhere, List.append_assoc, cons_append]
        exact (h3 ▸ unescapeFrom_skip _ _ (asBytes digits) (asBytes rest))
      simp only [map_some, bind_some, hslice]
      rw [hskip, hnext]
      rfl
  · rw [if_neg fun hc => h (hinside.mp hc.2), if_neg h, hnext]
    rfl

/-! ### What the kernel writes -/

def escapeChar (c : Char) : Text :=
  if c = ' ' then ['\\', '0', '4', '0']
  else if c = '\t' then ['\\', '0', '1', '1']
  else if c = '\n' then ['\\', '0', '1', '2']
  else if c = '\\' then ['\\', '1', '3', '4']
  else [c]

def escape (s : Text) : Text := s.flatMap escapeChar

theorem unescapeAt_octal {d e f : Char} {code : ℕ} (hd : utf8Len [d, e, f] = 3)
    (hcode : parseOctal [d, e, f] = some code) (front s : Text) :
    unescapeAt front ('\\' :: d :: e :: f :: s) =
      (unescapeAt (front ++ ['\\', d, e, f]) s).map (Char.ofNat code :: ·) := by
  have hcut := cutBytes_utf8Len [d, e, f] s
  rw [hd] at hcut
  have hlen : utf8Len (d :: e :: f :: s) = utf8Len [d, e, f] + utf8Len s :=
    utf8Len_append (a := [d, e, f])
  rw [unescapeAt_backslash, if_pos (by omega)]
  simp only [cons_append, List.nil_append] at hcut
  rw [hcut, bind_some]
  simp only [hcode]

/-- **A field that the kernel writes is read as its bytes.** -/
theorem unescapeAt_escape (front s : Text) : unescapeAt front (escape s) = some (latin s) := by
  induction s generalizing front with
  | nil => rfl
  | cons c s ih =>
    have hrest : ∀ front, unescapeAt front (s.flatMap escapeChar) = some (latin s) := ih
    have hoctal : ∀ {d e f : Char} {code : ℕ}, utf8Len [d, e, f] = 3 →
        parseOctal [d, e, f] = some code →
        unescapeAt front (['\\', d, e, f] ++ s.flatMap escapeChar) =
          some (Char.ofNat code :: latin s) := fun hlen hcode => by
      rw [cons_append, cons_append, cons_append, cons_append, List.nil_append,
        unescapeAt_octal hlen hcode, hrest]
      rfl
    rw [escape, List.flatMap_cons, latin_cons, escapeChar]
    split_ifs with hspace htab hline hback
    · rw [hspace]
      exact hoctal rfl rfl
    · rw [htab]
      exact hoctal rfl rfl
    · rw [hline]
      exact hoctal rfl rfl
    · rw [hback]
      exact hoctal rfl rfl
    · rw [singleton_append, unescapeAt_cons hback, hrest]
      rfl

theorem unescape_escape (s : Text) : unescape (escape s) = some (latin s) := unescapeAt_escape [] s

/-! ### Bytes and characters -/

theorem length_latin (s : Text) : (latin s).length = utf8Len s := by
  rw [latin, List.length_map, length_asBytes]

theorem length_le_utf8Len (s : Text) : s.length ≤ utf8Len s := by
  induction s with
  | nil => exact Nat.le_refl _
  | cons c s ih =>
    have := c.utf8Size_pos
    rw [length_cons, utf8Len_cons]
    omega

theorem isAscii_of_utf8Len (h : utf8Len s = s.length) : ∀ c ∈ s, c.toNat < 128 := by
  induction s with
  | nil => nofun
  | cons c s ih =>
    have hle := length_le_utf8Len s
    have hpos := c.utf8Size_pos
    rw [utf8Len_cons, length_cons] at h
    refine List.forall_mem_cons.mpr ⟨?_, ih (by omega)⟩
    have hone : c.utf8Size = 1 := by omega
    have hval := UInt32.le_iff_toNat_le.mp (Char.utf8Size_eq_one_iff.mp hone)
    exact Nat.lt_succ_of_le hval

theorem latin_singleton (h : c.toNat < 128) : latin [c] = [c] := by
  have hbytes : asBytes [c] = [UInt8.ofNat c.toNat] := by
    rw [asBytes, List.flatMap_singleton, encodeChar_ascii h]
  rw [latin, hbytes, List.map_singleton, toNat_ofNat_of_lt (by omega), Char.ofNat_toNat]

/-- **A text is its bytes exactly when it is ASCII.** -/
theorem latin_eq_self : latin s = s ↔ ∀ c ∈ s, c.toNat < 128 := by
  constructor
  · intro h
    refine isAscii_of_utf8Len ?_
    rw [← length_latin, h]
  · intro h
    induction s with
    | nil => rfl
    | cons c s ih =>
      rw [List.forall_mem_cons] at h
      rw [latin_cons, latin_singleton h.1, ih h.2]
      rfl

theorem mem_of_mem_latin (h : c ∈ latin s) (hc : c.toNat < 128) : c ∈ s := by
  obtain ⟨b, hb, rfl⟩ := List.mem_map.mp h
  obtain ⟨d, hd, hbd⟩ := List.mem_flatMap.mp hb
  have hbyte : (Char.ofNat b.toNat).toNat = b.toNat :=
    toNat_ofNat (.inl (by have := b.toNat_lt; omega))
  have hval := toNat_of_mem_encodeChar hbd (by omega)
  rw [← hval, Char.ofNat_toNat]
  exact hd

/-! ### A table -/

/-- What the kernel leaves as it is, and `split_ascii_whitespace` takes for a blank. -/
def isBreak (c : Char) : Bool := c ∈ ['\r', '\x0c']

/-- A mount, as the kernel lists it.  The source is a word for the reader. -/
structure Mount where
  source : Text
  target : Text
  fsType : Text
  options : Text
  source_ne : source ≠ []
  source_word : ∀ c ∈ source, isBreak c = false
  target_ne : target ≠ []
  fsType_ne : fsType ≠ []

namespace Mount

variable (m : Mount)

def line : Text :=
  escape m.source ++ ' ' :: (escape m.target ++ ' ' :: (escape m.fsType ++
    ' ' :: (escape m.options ++ " 0 0".toList)))

def entry : MountEntry := ⟨m.target, m.fsType⟩

/-- The words behind the source, before they were escaped. -/
def fields : List Text :=
  words isBreak m.target ++ (words isBreak m.fsType ++
    (words isBreak m.options ++ [['0'], ['0']]))

def read : MountEntry :=
  match m.fields with
  | target :: fsType :: _ => ⟨latin target, latin fsType⟩
  | _ => ⟨[], []⟩

end Mount

def table (mounts : List Mount) : Text := mounts.flatMap fun m => m.line ++ ['\n']

/-- A field that is read as it was written: ASCII, without the blanks that the kernel leaves. -/
def Plain (field : Text) : Prop := ∀ c ∈ field, c.toNat < 128 ∧ isBreak c = false

variable {m : Mount}

theorem isBreak_iff : isBreak c = true ↔ c = '\r' ∨ c = '\x0c' := by simp [isBreak]

theorem escapeChar_ne (c : Char) : escapeChar c ≠ [] := by
  unfold escapeChar
  split_ifs <;> simp

theorem isAsciiWhitespace_of_mem_escapeChar {d : Char} (hc : isBreak c = false)
    (hd : d ∈ escapeChar c) : isAsciiWhitespace d = false := by
  have hescapes : ['\\', '0', '1', '2', '3', '4'].all (!isAsciiWhitespace ·) = true := by decide
  have hescape : d ∈ ['\\', '0', '1', '2', '3', '4'] → isAsciiWhitespace d = false := fun hd => by
    simpa using List.all_eq_true.mp hescapes d hd
  unfold escapeChar at hd
  split_ifs at hd with hspace htab hline hback
  · exact hescape ((by simp : ['\\', '0', '4', '0'] ⊆ _) hd)
  · exact hescape ((by simp : ['\\', '0', '1', '1'] ⊆ _) hd)
  · exact hescape ((by simp : ['\\', '0', '1', '2'] ⊆ _) hd)
  · exact hescape ((by simp : ['\\', '1', '3', '4'] ⊆ _) hd)
  · obtain rfl := List.mem_singleton.mp hd
    have hno : ¬ (d = '\r' ∨ d = '\x0c') := fun h => by simp [isBreak_iff.mpr h] at hc
    rw [not_or] at hno
    simp [isAsciiWhitespace, hspace, htab, hline, hno]

theorem words_escape (s : Text) :
    words isAsciiWhitespace (escape s) = (words isBreak s).map escape := by
  refine words_flatMap (fun c hc => ?_) (fun c hc => ?_) s
  · rcases isBreak_iff.mp hc with rfl | rfl
    · exact ⟨'\r', rfl, rfl⟩
    · exact ⟨'\x0c', rfl, rfl⟩
  · exact ⟨escapeChar_ne c, fun d hd => isAsciiWhitespace_of_mem_escapeChar hc hd⟩

theorem words_line (m : Mount) :
    words isAsciiWhitespace m.line = escape m.source :: m.fields.map escape := by
  have hspace : isAsciiWhitespace ' ' = true := rfl
  have hend : words isAsciiWhitespace ['0', ' ', '0'] = [['0'], ['0']] := by decide
  have hzeros : " 0 0".toList = ' ' :: ['0', ' ', '0'] := rfl
  rw [Mount.line, hzeros]
  simp only [words_append_cons hspace, words_escape, hend]
  rw [words_of_free m.source_word m.source_ne, Mount.fields]
  simp only [List.map_append]
  rfl

theorem length_fields (m : Mount) : 2 ≤ m.fields.length := by
  simp only [Mount.fields, List.length_append, length_cons, List.length_nil]
  omega

theorem parseLine_line (m : Mount) : parseLine m.line = some (some m.read) := by
  have hlen := length_fields m
  rw [parseLine, words_line, Mount.read]
  generalize m.fields = fields at hlen ⊢
  rcases fields with _ | ⟨target, _ | ⟨fsType, rest⟩⟩
  · simp at hlen
  · simp at hlen
  · simp only [map_cons, unescape_escape]
    rfl

theorem not_isBreak_of_mem_fields {field : Text} (h : field ∈ m.fields) :
    ∀ c ∈ field, isBreak c = false := by
  rcases List.mem_append.mp h with h | h
  · exact (mem_words h).2
  rcases List.mem_append.mp h with h | h
  · exact (mem_words h).2
  rcases List.mem_append.mp h with h | h
  · exact (mem_words h).2
  · obtain rfl : field = ['0'] := by simpa using h
    exact List.forall_mem_singleton.mpr rfl

theorem not_isBreak_of_latin (hs : ∀ c ∈ s, isBreak c = false) :
    ∀ c ∈ latin s, isBreak c = false := by
  intro c hc
  cases hbreak : isBreak c with
  | false => rfl
  | true =>
    have hascii : c.toNat < 128 := by
      rcases isBreak_iff.mp hbreak with rfl | rfl <;> decide
    rw [← hbreak, hs c (mem_of_mem_latin hc hascii)]

theorem read_eq_entry (m : Mount) : m.read = m.entry ↔ Plain m.target ∧ Plain m.fsType := by
  have hwords : ∀ field : Text, field ≠ [] → (∀ c ∈ field, isBreak c = false) →
      words isBreak field = [field] := fun field hne hfield => words_of_free hfield hne
  constructor
  · intro h
    obtain ⟨a, b, rest, hfields⟩ : ∃ a b rest, m.fields = a :: b :: rest := by
      have hlen := length_fields m
      rcases hm : m.fields with _ | ⟨a, _ | ⟨b, rest⟩⟩
      · simp [hm] at hlen
      · simp [hm] at hlen
      · exact ⟨a, b, rest, rfl⟩
    have hfree : ∀ field ∈ a :: b :: rest, ∀ c ∈ field, isBreak c = false := fun field hfield =>
      not_isBreak_of_mem_fields (hfields ▸ hfield)
    rw [Mount.read, hfields, Mount.entry, MountEntry.mk.injEq] at h
    obtain ⟨htarget, hfsType⟩ := h
    have htargetFree : ∀ c ∈ m.target, isBreak c = false := by
      rw [← htarget]
      exact not_isBreak_of_latin (hfree a List.mem_cons_self)
    have hfsTypeFree : ∀ c ∈ m.fsType, isBreak c = false := by
      rw [← hfsType]
      exact not_isBreak_of_latin (hfree b (List.mem_cons_of_mem _ List.mem_cons_self))
    rw [Mount.fields, hwords _ m.target_ne htargetFree, hwords _ m.fsType_ne hfsTypeFree,
      singleton_append, singleton_append, List.cons.injEq, List.cons.injEq] at hfields
    rw [← hfields.1, latin_eq_self] at htarget
    rw [← hfields.2.1, latin_eq_self] at hfsType
    exact ⟨fun c hc => ⟨htarget c hc, htargetFree c hc⟩,
      fun c hc => ⟨hfsType c hc, hfsTypeFree c hc⟩⟩
  · rintro ⟨htarget, hfsType⟩
    rw [Mount.read, Mount.fields, hwords _ m.target_ne fun c hc => (htarget c hc).2,
      hwords _ m.fsType_ne fun c hc => (hfsType c hc).2]
    simp only [singleton_append, latin_eq_self.mpr fun c hc => (htarget c hc).1,
      latin_eq_self.mpr fun c hc => (hfsType c hc).1]
    rfl

theorem notMem_escape (s : Text) : '\n' ∉ escape s := by
  intro h
  obtain ⟨c, -, hc⟩ := List.mem_flatMap.mp h
  unfold escapeChar at hc
  split_ifs at hc with hspace htab hline hback
  · exact absurd hc (by decide)
  · exact absurd hc (by decide)
  · exact absurd hc (by decide)
  · exact absurd hc (by decide)
  · exact hline (List.mem_singleton.mp hc).symm

theorem lines_table (mounts : List Mount) : lines (table mounts) = mounts.map Mount.line := by
  induction mounts with
  | nil => rfl
  | cons m mounts ih =>
    have hline : '\n' ∉ m.line := by simp [Mount.line, notMem_escape]
    have hend : stripCr m.line = m.line := by
      have hlast : m.line.getLast? = some '0' := by
        have hline : m.line = (escape m.source ++ ' ' :: (escape m.target ++ ' ' ::
            (escape m.fsType ++ ' ' :: (escape m.options ++ [' ', '0', ' '])))) ++ ['0'] := by
          simp [Mount.line]
        rw [hline, List.getLast?_concat]
      rw [stripCr, hlast, if_neg (by decide)]
    rw [table, List.flatMap_cons, List.append_assoc, singleton_append, lines_append hline,
      hend, ← table, ih, map_cons]

theorem isSome_mapM {α β : Type} {f : α → Option β} {l : List α} :
    (l.mapM f).isSome ↔ ∀ a ∈ l, (f a).isSome := by
  induction l with
  | nil => simp
  | cons a l ih =>
    rw [List.mapM_cons, List.forall_mem_cons, ← ih]
    cases f a <;> cases l.mapM f <;> simp

theorem parseMountTable_table_eq (mounts : List Mount) :
    parseMountTable (table mounts) = some (mounts.map Mount.read) := by
  have hmapM : (mounts.map Mount.line).mapM parseLine =
      some (mounts.map fun m => some m.read) := by
    induction mounts with
    | nil => rfl
    | cons m mounts ih => rw [map_cons, List.mapM_cons, parseLine_line, ih]; rfl
  rw [parseMountTable, lines_table, hmapM, map_some, List.filterMap_map]
  exact congrArg some (List.filterMap_eq_map ▸ rfl)

/-! ### No slice inside a character -/

/-- No character lies across the third byte behind a backslash. -/
def Whole (field : Text) : Prop :=
  ∀ front back, field = front ++ '\\' :: back → 3 ≤ utf8Len back → (cutBytes back 3).isSome

theorem whole_nil : Whole [] := fun front back h => by simp at h

theorem whole_cons (hc : c ≠ '\\') : Whole (c :: s) ↔ Whole s := by
  constructor
  · exact fun h front back heq => h (c :: front) back (by rw [heq]; rfl)
  · rintro h (_ | ⟨d, front⟩) back heq
    · exact absurd (List.cons.inj heq).1 hc
    · exact h front back (List.cons.inj heq).2

theorem whole_append (h : '\\' ∉ t) : Whole (t ++ s) ↔ Whole s := by
  induction t with
  | nil => exact Iff.rfl
  | cons c t ih =>
    rw [List.mem_cons, not_or] at h
    rw [cons_append, whole_cons (Ne.symm h.1), ih h.2]

theorem whole_backslash : Whole ('\\' :: s) ↔
    (3 ≤ utf8Len s → (cutBytes s 3).isSome) ∧ Whole s := by
  constructor
  · exact fun h => ⟨h [] s rfl, fun front back heq => h ('\\' :: front) back (by rw [heq]; rfl)⟩
  · rintro ⟨hs, h⟩ (_ | ⟨d, front⟩) back heq
    · obtain rfl := (List.cons.inj heq).2
      exact hs
    · exact h front back (List.cons.inj heq).2

theorem notMem_of_octalDigits {value code : ℕ} (h : octalDigits value s = some code) :
    '\\' ∉ s := by
  induction s generalizing value with
  | nil => exact List.not_mem_nil
  | cons c s ih =>
    rw [octalDigits] at h
    split at h
    · next hc =>
      refine List.not_mem_cons_of_ne_of_not_mem ?_ (ih h)
      rintro rfl
      exact absurd hc (by decide)
    · cases h

theorem notMem_of_parseOctal {code : ℕ} (h : parseOctal s = some code) : '\\' ∉ s := by
  by_cases hplus : s.head? = some '+'
  · obtain ⟨rest, rfl⟩ := List.head?_eq_some_iff.mp hplus
    simp only [parseOctal, List.head?_cons, if_true, List.tail_cons] at h
    split at h
    · cases h
    · obtain ⟨hdigits, -⟩ := Option.filter_eq_some_iff.mp h
      exact List.not_mem_cons_of_ne_of_not_mem (by decide) (notMem_of_octalDigits hdigits)
  · simp only [parseOctal, hplus, if_false] at h
    split at h
    · cases h
    · exact notMem_of_octalDigits (Option.filter_eq_some_iff.mp h).1

theorem isSome_unescapeAt (front s : Text) : (unescapeAt front s).isSome ↔ Whole s := by
  induction hlength : s.length using Nat.strongRecOn generalizing front s with
  | ind n ih =>
    subst hlength
    cases s with
    | nil => exact iff_of_true rfl whole_nil
    | cons c s =>
      have hnext : ∀ front, (unescapeAt front s).isSome ↔ Whole s := fun front =>
        ih s.length (Nat.lt_succ_self _) front s rfl
      by_cases hc : c = '\\'
      · rw [hc, unescapeAt_backslash, whole_backslash]
        by_cases h3 : 3 ≤ utf8Len s
        · rw [if_pos h3]
          rcases hcut : cutBytes s 3 with _ | ⟨digits, rest⟩
          · exact iff_of_false (by simp) fun h => by simp [h3] at h
          · obtain ⟨rfl, -⟩ := cutBytes_eq_some hcut
            rw [bind_some]
            simp only [h3, Option.isSome_some, forall_const, true_and]
            cases hcode : parseOctal digits with
            | none => rw [isSome_map, hnext]
            | some code =>
              rw [isSome_map, whole_append (notMem_of_parseOctal hcode)]
              refine ih rest.length ?_ _ rest rfl
              rw [length_cons, List.length_append]
              omega
        · rw [if_neg h3, isSome_map, hnext]
          simp [h3]
      · rw [unescapeAt_cons hc, isSome_map, hnext, whole_cons hc]

theorem isSome_unescape (field : Text) : (unescape field).isSome ↔ Whole field :=
  isSome_unescapeAt [] field

theorem isSome_parseLine (line : Text) : (parseLine line).isSome ↔
    ∀ source target fsType rest,
      words isAsciiWhitespace line = source :: target :: fsType :: rest →
        Whole target ∧ Whole fsType := by
  unfold parseLine
  split
  · next source target fsType rest hwords =>
    have hread : ((unescape target >>= fun target => unescape fsType >>= fun fsType =>
        pure (some (MountEntry.mk target fsType))).isSome ↔ Whole target ∧ Whole fsType) := by
      rw [← isSome_unescape, ← isSome_unescape]
      cases unescape target <;> cases unescape fsType <;> simp
    rw [hread]
    constructor
    · intro h _ _ _ _ heq
      rw [hwords] at heq
      cases heq
      exact h
    · exact fun h => h _ _ _ _ hwords
  · next hwords => exact iff_of_true rfl fun _ _ _ _ heq => absurd heq (hwords _ _ _ _)

/-- **The table is read exactly when no slice stands inside a character.** -/
theorem isSome_parseMountTable (text : Text) : (parseMountTable text).isSome ↔
    ∀ line ∈ lines text, ∀ source target fsType rest,
      words isAsciiWhitespace line = source :: target :: fsType :: rest →
        Whole target ∧ Whole fsType := by
  rw [parseMountTable, isSome_map, isSome_mapM]
  exact forall₂_congr fun line _ => isSome_parseLine line

/-! ### The table and the lookup -/

theorem parseMountTable_table (mounts : List Mount) :
    parseMountTable (table mounts) = some (mounts.map Mount.entry) ↔
      ∀ m ∈ mounts, Plain m.target ∧ Plain m.fsType := by
  rw [parseMountTable_table_eq, Option.some.injEq, List.map_inj_left]
  exact forall₂_congr fun m _ => read_eq_entry m

/-- **Mount tables.**  A table is read as the kernel wrote it exactly when its mount points and
types are ASCII without form feeds and carriage returns; a text is read without stopping the program
exactly when no character lies across the third byte behind a backslash of a field that is read; and
a path has the type of the last one of the longest mounts that it lies within. -/
theorem mountTable_spec (mounts : List Mount) (text : List Char) (entries : List MountEntry)
    (path : List Char) :
    (parseMountTable (table mounts) = some (mounts.map Mount.entry) ↔
      ∀ m ∈ mounts, Plain m.target ∧ Plain m.fsType) ∧
    ((parseMountTable text).isSome ↔
      ∀ line ∈ lines text, ∀ source target fsType rest,
        words isAsciiWhitespace line = source :: target :: fsType :: rest →
          Whole target ∧ Whole fsType) ∧
    (∀ fsType, fsTypeForPath entries path = some fsType ↔
      ∃ front entry back, entries = front ++ entry :: back ∧ entry.fsType = fsType ∧
        Within path entry.target ∧
        (∀ b ∈ front, Within path b.target → utf8Len b.target ≤ utf8Len entry.target) ∧
        ∀ b ∈ back, Within path b.target → utf8Len b.target < utf8Len entry.target) ∧
    (fsTypeForPath entries path = none ↔ ∀ entry ∈ entries, ¬ Within path entry.target) :=
  ⟨parseMountTable_table mounts, isSome_parseMountTable text, fun _ => fsTypeForPath_eq_some,
    fsTypeForPath_eq_none⟩

def beyondAscii : Mount where
  source := "/dev/sdb1".toList
  target := "/mnt/é".toList
  fsType := "ext4".toList
  options := "rw".toList
  source_ne := List.cons_ne_nil _ _
  source_word := by simp [isBreak]
  target_ne := List.cons_ne_nil _ _
  fsType_ne := List.cons_ne_nil _ _

/-- The mount point is read as its two bytes, and a slice stands inside a character. -/
theorem not_decoded :
    parseMountTable (table [beyondAscii]) ≠ some [beyondAscii.entry] ∧
      parseMountTable "/dev/sdb1 /mnt\\aaé ext4 rw 0 0\n".toList = none := by
  decide +kernel

end Ferrofin.Mounts
