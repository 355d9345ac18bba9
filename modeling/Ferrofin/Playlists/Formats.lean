import Ferrofin.Playlists.Back

/-!
# The formats of playlist files

What the reader of each format makes of the rows that the writer has written: of the paths it keeps
what `kept` says, and no other line or attribute is taken for a path
(`parseM3u_rows`, `parsePls_rows`, `parseWpl_rows`).
-/

namespace Ferrofin.Playlists

open Util
open List (all_eq_true append_assoc cons_append dropWhile_cons map_cons mem_append mem_cons
  not_mem_nil singleton_append)

variable {s t l front v rel rest : Text} {a b c d : Char} {entry : PlaylistEntry}
  {special : List Char}

/-! ### Trimming -/

theorem trimChars_append_blank (hblank : ∀ c ∈ v, isWhitespace c = true) (s : Text) :
    trimChars (s ++ v) = trimChars s := by
  rw [trimChars, trimChars, List.dropWhile_append]
  split
  · next hempty =>
    rw [List.isEmpty_iff.mp hempty, List.dropWhile_eq_nil_iff.mpr hblank]
  · rw [List.reverse_append, List.dropWhile_append_of_pos fun c hc =>
      hblank c (List.mem_reverse.mp hc)]

theorem trimChars_stripCr (l : Text) : trimChars (stripCr l) = trimChars l := by
  rcases stripCr_eq l with h | h
  · rw [h]
  · conv_rhs => rw [h]
    exact (trimChars_append_blank (List.forall_mem_singleton.mpr rfl) _).symm

theorem trimChars_trimEnd (v : Text) : trimChars (trimEnd v) = trimChars v := by
  obtain ⟨blank, hv, hblank⟩ := trimEnd_append v
  conv_rhs => rw [hv]
  exact (trimChars_append_blank (all_eq_true.mp hblank) _).symm

theorem trimChars_append_trimEnd (hhead : front.head? = some a) (ha : isWhitespace a = false)
    (hlast : front.getLast? = some b) (hb : isWhitespace b = false) (v : Text) :
    trimChars (front ++ v) = front ++ trimEnd v := by
  obtain ⟨start, rfl⟩ := List.getLast?_eq_some_iff.mp hlast
  have hdrop : (start ++ [b] ++ v).dropWhile isWhitespace = start ++ [b] ++ v := by
    obtain ⟨tail, htail⟩ := List.head?_eq_some_iff.mp hhead
    rw [htail, cons_append, dropWhile_cons, if_neg (by simp [ha])]
  rw [trimChars, hdrop, trimEnd, List.rdropWhile, List.reverse_append, List.dropWhile_append]
  split
  · next hempty =>
    rw [List.isEmpty_iff.mp hempty, List.reverse_append, List.reverse_singleton,
      singleton_append, dropWhile_cons, if_neg (by simp [hb])]
    simp
  · simp

/-! ### `.m3u` -/

theorem parseM3u_line (h : '\n' ∉ l) (s : Text) :
    parseM3u (l ++ '\n' :: s) = (kept true l).toList ++ parseM3u s := by
  rw [parseM3u, lines_append h, map_cons, List.filter_cons, trimChars_stripCr, kept]
  by_cases hskip : trimChars l = [] ∨ true ∧ (trimChars l).head? = some '#'
  · rw [if_pos hskip, if_neg]
    · rfl
    · rcases hskip with h | h <;> simp [h]
  · rw [if_neg hskip, if_pos]
    · rfl
    · simpa using hskip

theorem kept_directive (text : Text) : kept true ('#' :: text) = none := by
  have htrim : trimChars (['#'] ++ text) = ['#'] ++ trimEnd text :=
    trimChars_append_trimEnd rfl rfl rfl rfl text
  rw [singleton_append, singleton_append] at htrim
  rw [kept, htrim, if_pos (.inr ⟨rfl, rfl⟩)]

structure OneLine (entry : PlaylistEntry) : Prop where
  title : ∀ text, entry.title = some text → '\n' ∉ text
  album : ∀ text, entry.album = some text → '\n' ∉ text
  albumArtist : ∀ text, entry.albumArtist = some text → '\n' ∉ text

theorem OneLine.displayTitle (h : OneLine entry) : '\n' ∉ displayTitle entry := by
  rw [Playlists.displayTitle]
  cases htitle : entry.title with
  | none => exact not_mem_nil
  | some text => exact h.title text htitle

theorem notMem_decimal (n : Int) (hc : c.isDigit = false) (hminus : c ≠ '-') : c ∉ decimal n :=
  fun h => (mem_decimal h).elim (fun hdigit => by rw [hc] at hdigit; cases hdigit) hminus

theorem parseM3u_directive {tag : Option Text} (hname : '\n' ∉ v)
    (htag : ∀ text, tag = some text → '\n' ∉ text) (s : Text) :
    parseM3u (directive ('#' :: v) tag ++ s) = parseM3u s := by
  rw [directive]
  cases hnonempty : nonempty tag with
  | none => rfl
  | some text =>
    have htext := htag text (Option.filter_eq_some_iff.mp hnonempty).1
    have hline : '\n' ∉ '#' :: (v ++ text) := by simp [hname, htext]
    have happend : '#' :: v ++ text ++ ['\n'] ++ s = '#' :: (v ++ text) ++ '\n' :: s := by simp
    simp only [happend]
    rw [parseM3u_line hline, kept_directive]
    rfl

/-- **An entry of an `.m3u` file is read as its path.** -/
theorem parseM3u_rows (h : OneLine entry) (hrel : '\n' ∉ rel) (s : Text) :
    parseM3u (m3uRows entry rel ++ s) = (kept true rel).toList ++ parseM3u s := by
  have halbum : "#EXTALB:".toList = '#' :: "EXTALB:".toList := rfl
  have hartist : "#EXTART:".toList = '#' :: "EXTART:".toList := rfl
  have hinf : '\n' ∉ '#' :: ("EXTINF:".toList ++ decimal (entry.durationSeconds.getD 0) ++
      ',' :: displayTitle entry) := by
    simp [notMem_decimal _ (c := '\n') rfl (by decide), h.displayTitle]
  have hrow : "#EXTINF:".toList ++ decimal (entry.durationSeconds.getD 0) ++
      ',' :: displayTitle entry ++ '\n' :: rel ++ ['\n'] ++ s =
      '#' :: ("EXTINF:".toList ++ decimal (entry.durationSeconds.getD 0) ++
        ',' :: displayTitle entry) ++ '\n' :: (rel ++ '\n' :: s) := by simp
  rw [m3uRows, append_assoc, append_assoc, halbum,
    parseM3u_directive (by decide) h.album, hartist, parseM3u_directive (by decide) h.albumArtist,
    hrow, parseM3u_line hinf, kept_directive, parseM3u_line hrel]
  rfl

/-! ### `.pls` -/

def lineValue (line : Text) : Option Text := (fileValue (trimChars line)).filter (· ≠ [])

theorem parsePls_line (h : '\n' ∉ l) (s : Text) :
    parsePls (l ++ '\n' :: s) = (lineValue l).toList ++ parsePls s := by
  rw [parsePls, lines_append h, map_cons, trimChars_stripCr, lineValue]
  cases hvalue : fileValue (trimChars l) with
  | none => rw [List.filterMap_cons_none hvalue]; rfl
  | some value =>
    rw [List.filterMap_cons_some hvalue, List.filter_cons]
    by_cases hnil : value = []
    · rw [if_neg (by simp [hnil]), hnil]
      rfl
    · rw [if_pos (by simpa using hnil), Option.filter_some, if_pos (by simpa using hnil)]
      rfl

theorem fileValue_line (hhead : front.head? = some a) (ha : isWhitespace a = false)
    (hkey : '=' ∉ front) (v : Text) : fileValue (trimChars (front ++ '=' :: v)) =
      if "file".toList.isPrefixOf ((trimChars front).map Char.toLower) then some (trimChars v)
      else none := by
  have htrim : trimChars (front ++ ['='] ++ v) = front ++ ['='] ++ trimEnd v :=
    trimChars_append_trimEnd (by rw [List.head?_append, hhead]; rfl) ha List.getLast?_concat rfl v
  rw [append_assoc, singleton_append] at htrim
  rw [htrim, fileValue, splitOnce_append hkey, Option.bind_some]
  simp only [trimChars_trimEnd]

theorem lineValue_other (ha : isWhitespace a = false) (hlower : a.toLower ≠ 'f')
    (hkey : '=' ∉ a :: front) (v : Text) : lineValue (a :: front ++ '=' :: v) = none := by
  have htrim : trimChars ([a] ++ front) = [a] ++ trimEnd front :=
    trimChars_append_trimEnd rfl ha rfl ha front
  have hfile : "file".toList.isPrefixOf ((trimChars (a :: front)).map Char.toLower) = false := by
    rw [singleton_append, singleton_append] at htrim
    rw [htrim, map_cons]
    simp [List.isPrefixOf, hlower.symm]
  rw [lineValue, fileValue_line rfl ha hkey, hfile]
  rfl

theorem lineValue_file (hv : '=' ∉ v) (rel : Text) :
    lineValue ("File".toList ++ v ++ '=' :: rel) = kept false rel := by
  have htrim : trimChars ("File".toList ++ v) = "File".toList ++ trimEnd v :=
    trimChars_append_trimEnd (a := 'F') (b := 'e') rfl rfl rfl rfl v
  have hfile : "file".toList.isPrefixOf ((trimChars ("File".toList ++ v)).map Char.toLower) =
      true := by
    rw [htrim, List.map_append, List.isPrefixOf_iff_prefix]
    exact List.prefix_append ..
  have hkey : '=' ∉ "File".toList ++ v := by
    rw [mem_append, not_or]
    exact ⟨by decide, hv⟩
  rw [lineValue, fileValue_line (a := 'F') rfl rfl hkey, if_pos hfile, kept, Option.filter_some]
  by_cases hnil : trimChars rel = []
  · rw [if_neg (by simp [hnil]), if_pos (.inl hnil)]
  · rw [if_pos (by simpa using hnil), if_neg]
    rintro (h | h)
    · exact hnil h
    · exact absurd h.1 Bool.false_ne_true

theorem notMem_plsKey {key : Text} (hc : c.isDigit = false) (hminus : c ≠ '-') (hkey : c ∉ key)
    (n : ℕ) : c ∉ key ++ decimal n := by
  rw [mem_append, not_or]
  exact ⟨hkey, notMem_decimal n hc hminus⟩

theorem parsePls_other (ha : isWhitespace a = false) (hlower : a.toLower ≠ 'f')
    (hkey : '=' ∉ a :: front) (hline : '\n' ∉ a :: front) (hv : '\n' ∉ v) (n : ℕ) (s : Text) :
    parsePls (plsRow (a :: front) n v ++ s) = parsePls s := by
  have hequal := notMem_plsKey (c := '=') rfl (by decide) hkey n
  have hbreak := notMem_plsKey (c := '\n') rfl (by decide) hline n
  have hwhole : '\n' ∉ a :: front ++ decimal n ++ '=' :: v :=
    fun h => (mem_append.mp h).elim hbreak fun h =>
      (mem_cons.mp h).elim (by decide) hv
  have hother : lineValue (a :: front ++ decimal n ++ '=' :: v) = none :=
    lineValue_other ha hlower hequal v
  rw [plsRow, append_assoc, singleton_append, parsePls_line hwhole, hother]
  rfl

/-- **An entry of a `.pls` file is read as its path.** -/
theorem parsePls_rows (h : OneLine entry) (hrel : '\n' ∉ rel) (n : ℕ) (s : Text) :
    parsePls (plsRows n entry rel ++ s) = (kept false rel).toList ++ parsePls s := by
  have hbreak : '\n' ∉ "File".toList ++ decimal n := notMem_plsKey rfl (by decide) (by decide) n
  have hline : '\n' ∉ "File".toList ++ decimal n ++ '=' :: rel :=
    fun h => (mem_append.mp h).elim hbreak fun h =>
      (mem_cons.mp h).elim (by decide) hrel
  have htitle : ∀ s : Text, parsePls ((if displayTitle entry = [] then []
      else plsRow "Title".toList n (displayTitle entry)) ++ s) = parsePls s := by
    intro s
    split
    · rfl
    · have hkey : "Title".toList = 'T' :: "itle".toList := rfl
      rw [hkey]
      exact parsePls_other rfl (by decide) (by decide) (by decide) h.displayTitle n s
  have hlength : ∀ s : Text, parsePls ((entry.durationSeconds.map fun seconds =>
      plsRow "Length".toList n (decimal seconds)).getD [] ++ s) = parsePls s := by
    intro s
    cases entry.durationSeconds with
    | none => rfl
    | some seconds =>
      have hkey : "Length".toList = 'L' :: "ength".toList := rfl
      rw [Option.map_some, Option.getD_some, hkey]
      exact parsePls_other rfl (by decide) (by decide) (by decide)
        (notMem_decimal seconds rfl (by decide)) n s
  rw [plsRows, append_assoc, append_assoc, plsRow, append_assoc,
    singleton_append, parsePls_line hline,
    lineValue_file (notMem_decimal n rfl (by decide)), htitle, hlength]

/-! ### Entities -/

def entity (c : Char) : Text :=
  if c = '&' then "&amp;".toList
  else if c = '<' then "&lt;".toList
  else if c = '>' then "&gt;".toList
  else if c = '"' then "&quot;".toList
  else if c = '\'' then "&apos;".toList
  else [c]

/-- A character, as its entity if it is among the special ones. -/
def encode (special : List Char) (c : Char) : Text := if c ∈ special then entity c else [c]

theorem encode_congr {others : List Char} (h : ∀ c, c ∈ special ↔ c ∈ others) :
    encode special = encode others := by
  funext c
  simp only [encode, h]

theorem flatMap_encode_nil (s : Text) : s.flatMap (encode []) = s := by
  induction s with
  | nil => rfl
  | cons c s ih => rw [List.flatMap_cons, ih]; rfl

theorem escape_step (d : Char) (special : List Char) (text : Text) (hentity : entity d = text)
    (hd : special.contains d = false)
    (hpass : special.all (fun c => !(entity c).contains d) = true) (s : Text) :
    replace [d] text (s.flatMap (encode special)) = s.flatMap (encode (d :: special)) := by
  have hd : d ∉ special := by simpa using hd
  subst hentity
  refine replace_flatMap (List.cons_ne_nil _ _) (fun c => ?_) s
  by_cases hcd : c = d
  · rw [hcd, encode, if_neg hd, encode, if_pos List.mem_cons_self]
    exact .inl ⟨rfl, rfl⟩
  · have hsame : encode (d :: special) c = encode special c := by simp [encode, hcd]
    refine .inr ⟨hsame, passes_of_notMem ?_⟩
    rw [encode]
    split
    · next hc => simpa using all_eq_true.mp hpass c hc
    · exact fun h => hcd (List.mem_singleton.mp h).symm

theorem unescape_step (d : Char) (special : List Char) (pattern : Text)
    (hentity : entity d = '&' :: pattern) (hd : special.contains d = false)
    (hamp : (d :: special).contains '&' = true)
    (hpass : ∀ c ∈ special, Passes ('&' :: pattern) (entity c)) (s : Text) :
    replace ('&' :: pattern) [d] (s.flatMap (encode (d :: special))) =
      s.flatMap (encode special) := by
  have hd : d ∉ special := by simpa using hd
  have hamp : '&' ∈ d :: special := List.contains_iff_mem.mp hamp
  refine replace_flatMap (List.cons_ne_nil _ _) (fun c => ?_) s
  by_cases hcd : c = d
  · rw [hcd, encode, if_pos List.mem_cons_self, encode, if_neg hd]
    exact .inl ⟨hentity, rfl⟩
  · have hsame : encode (d :: special) c = encode special c := by simp [encode, hcd]
    refine .inr ⟨hsame.symm, ?_⟩
    rw [hsame, encode]
    split
    · next hc => exact hpass c hc
    · next hc =>
      have hne : '&' ≠ c := by
        rintro rfl
        exact (mem_cons.mp hamp).elim hcd hc
      exact passes_of_notMem fun h => hne (List.mem_singleton.mp h)

/-- The characters with entities, in the order in which they are escaped. -/
def specials : List Char := ['\'', '"', '>', '<', '&']

theorem escape_eq (s : Text) : escape s = s.flatMap (encode specials) := by
  have hamp := escape_step '&' [] "&amp;".toList rfl rfl rfl s
  have hlt := escape_step '<' ['&'] "&lt;".toList rfl rfl rfl s
  have hgt := escape_step '>' ['<', '&'] "&gt;".toList rfl rfl rfl s
  have hquot := escape_step '"' ['>', '<', '&'] "&quot;".toList rfl rfl rfl s
  have hapos := escape_step '\'' ['"', '>', '<', '&'] "&apos;".toList rfl rfl rfl s
  rw [flatMap_encode_nil] at hamp
  rw [escape, hamp, hlt, hgt, hquot, hapos]
  rfl

theorem passes_entity {pattern piece : Text} (hentity : entity c = '&' :: piece)
    (hpattern : '&' ∉ piece) (hbegins : ∀ rest, pattern.isPrefixOf (piece ++ rest) = false) :
    Passes ('&' :: pattern) (entity c) := by
  rw [hentity]
  refine passes_cons (fun rest => ?_) hpattern
  rw [List.isPrefixOf_cons_cons, hbegins, Bool.and_false]

theorem unescape_eq (s : Text) : unescape (s.flatMap (encode specials)) = s := by
  have horder : encode specials = encode ['<', '>', '"', '\'', '&'] := encode_congr fun c => by
    simp only [specials, mem_cons, not_mem_nil, or_false]
    tauto
  have hlt := unescape_step '<' ['>', '"', '\'', '&'] "lt;".toList rfl rfl rfl
    (by
      simp only [List.forall_mem_cons, not_mem_nil, false_implies, implies_true, and_true]
      exact ⟨passes_entity rfl (by decide) fun _ => rfl, passes_entity rfl (by decide) fun _ => rfl,
        passes_entity rfl (by decide) fun _ => rfl, passes_entity rfl (by decide) fun _ => rfl⟩) s
  have hgt := unescape_step '>' ['"', '\'', '&'] "gt;".toList rfl rfl rfl
    (by
      simp only [List.forall_mem_cons, not_mem_nil, false_implies, implies_true, and_true]
      exact ⟨passes_entity rfl (by decide) fun _ => rfl, passes_entity rfl (by decide) fun _ => rfl,
        passes_entity rfl (by decide) fun _ => rfl⟩) s
  have hquot := unescape_step '"' ['\'', '&'] "quot;".toList rfl rfl rfl
    (by
      simp only [List.forall_mem_cons, not_mem_nil, false_implies, implies_true, and_true]
      exact ⟨passes_entity rfl (by decide) fun _ => rfl,
        passes_entity rfl (by decide) fun _ => rfl⟩) s
  have hapos := unescape_step '\'' ['&'] "apos;".toList rfl rfl rfl
    (List.forall_mem_singleton.mpr (passes_entity rfl (by decide) fun _ => rfl)) s
  have hamp := unescape_step '&' [] "amp;".toList rfl rfl rfl nofun s
  rw [flatMap_encode_nil] at hamp
  rw [horder, unescape]
  exact (congrArg _ (congrArg _ (congrArg _ (congrArg _ hlt)))).trans
    ((congrArg _ (congrArg _ (congrArg _ hgt))).trans
      ((congrArg _ (congrArg _ hquot)).trans ((congrArg _ hapos).trans hamp)))

theorem dropWhile_flatMap {f : Char → Text} (hblank : ∀ c, isWhitespace c = true → f c = [c])
    (hother : ∀ c, isWhitespace c = false →
      ∃ first rest, f c = first :: rest ∧ isWhitespace first = false) (s : Text) :
    (s.flatMap f).dropWhile isWhitespace = (s.dropWhile isWhitespace).flatMap f := by
  induction s with
  | nil => rfl
  | cons c s ih =>
    cases hc : isWhitespace c with
    | true =>
      rw [List.flatMap_cons, hblank c hc, singleton_append, dropWhile_cons, if_pos hc, ih,
        dropWhile_cons, if_pos hc]
    | false =>
      obtain ⟨first, rest, hf, hfirst⟩ := hother c hc
      rw [dropWhile_cons, if_neg (by simp [hc]), List.flatMap_cons, hf, cons_append,
        dropWhile_cons, if_neg (by simp [hfirst])]

theorem entity_eq (hc : c ∈ specials) : ∃ body, entity c = '&' :: (body ++ [';']) := by
  simp only [specials, mem_cons, not_mem_nil, or_false] at hc
  rcases hc with rfl | rfl | rfl | rfl | rfl
  · exact ⟨"apos".toList, rfl⟩
  · exact ⟨"quot".toList, rfl⟩
  · exact ⟨"gt".toList, rfl⟩
  · exact ⟨"lt".toList, rfl⟩
  · exact ⟨"amp".toList, rfl⟩

/-- **Trimming an escaped text is escaping the trimmed one.** -/
theorem trimChars_escape (s : Text) : trimChars (escape s) = escape (trimChars s) := by
  have hblank : ∀ c, isWhitespace c = true → encode specials c = [c] := by
    intro c hc
    rw [encode, if_neg]
    intro hmem
    have hnone : specials.all (!isWhitespace ·) = true := rfl
    have hother := all_eq_true.mp hnone c hmem
    rw [hc] at hother
    cases hother
  have hhead : ∀ c, isWhitespace c = false →
      ∃ first rest, encode specials c = first :: rest ∧ isWhitespace first = false := by
    intro c hc
    rw [encode]
    split
    · next hmem =>
      obtain ⟨body, hbody⟩ := entity_eq hmem
      exact ⟨'&', _, hbody, rfl⟩
    · exact ⟨c, [], rfl, hc⟩
  have hlast : ∀ c, isWhitespace c = false →
      ∃ first rest, (encode specials c).reverse = first :: rest ∧ isWhitespace first = false := by
    intro c hc
    rw [encode]
    split
    · next hmem =>
      obtain ⟨body, hbody⟩ := entity_eq hmem
      refine ⟨';', (body.reverse ++ ['&']), ?_, rfl⟩
      rw [hbody]
      simp
    · exact ⟨c, [], rfl, hc⟩
  have hblank' : ∀ c, isWhitespace c = true → (encode specials c).reverse = [c] := fun c hc => by
    rw [hblank c hc, List.reverse_singleton]
  rw [escape_eq, escape_eq, trimChars, trimChars, dropWhile_flatMap hblank hhead,
    List.reverse_flatMap]
  change (List.dropWhile isWhitespace
    (List.flatMap (fun c => (encode specials c).reverse) _)).reverse = _
  rw [dropWhile_flatMap hblank' hlast, List.reverse_flatMap]
  simp [Function.comp_def]

/-! ### `.wpl` and `.zpl` -/

theorem notMem_encode (hc : specials.contains c = true) (hamp : c ≠ '&') (d : Char) :
    c ∉ encode specials d := by
  have hc : c ∈ specials := List.contains_iff_mem.mp hc
  rw [encode]
  split
  · next hmem =>
    have hall : specials.all (fun d => specials.all fun c => c == '&' || !(entity d).contains c) =
        true := rfl
    have hone := all_eq_true.mp (all_eq_true.mp hall d hmem) c hc
    simpa [hamp] using hone
  · next hmem =>
    intro h
    exact hmem (List.mem_singleton.mp h ▸ hc)

theorem notMem_escape (hc : specials.contains c = true) (hamp : c ≠ '&') (s : Text) :
    c ∉ escape s := by
  rw [escape_eq]
  intro h
  obtain ⟨d, -, hd⟩ := List.mem_flatMap.mp h
  exact notMem_encode hc hamp d hd

theorem attributeValue_src (hv : '"' ∉ v) (rest : Text) :
    attributeValue (" src=\"".toList ++ v ++ '"' :: rest) "src".toList =
      some (unescape (trimChars v)) := by
  have htag : " src=\"".toList ++ v ++ '"' :: rest = ' ' :: 's' :: 'r' :: 'c' :: '=' :: '"' ::
      (v ++ '"' :: rest) := rfl
  have hbehind : behindName ("src".toList ++ ['=']) none (' ' :: 's' :: 'r' :: 'c' :: '=' :: '"' ::
      (v ++ '"' :: rest)) = some ('"' :: (v ++ '"' :: rest)) := rfl
  have htake : (v ++ '"' :: rest).takeWhile (· ≠ '"') = v := by
    rw [List.takeWhile_append_of_pos fun c hc => by
      simp only [ne_eq, decide_eq_true_eq]
      rintro rfl
      exact hv hc]
    simp
  rw [attributeValue, htag, hbehind]
  simp only [htake]
  rw [if_neg (by simp), if_neg (by simp)]

theorem parseWplFrom_skip (x rest : Text) :
    parseWplFrom x.length (x ++ rest) = parseWplFrom 0 rest := by
  induction x with
  | nil => rfl
  | cons a x ih => rw [cons_append, List.length_cons, parseWplFrom, ih]

theorem parseWplFrom_append (h : '<' ∉ v) (rest : Text) :
    parseWplFrom 0 (v ++ rest) = parseWplFrom 0 rest := by
  induction v with
  | nil => rfl
  | cons c v ih =>
    rw [mem_cons, not_or] at h
    have hbegins : "<media".toList.isPrefixOf (c :: (v ++ rest)) = false := by
      have hmedia : "<media".toList = '<' :: "media".toList := rfl
      rw [hmedia, List.isPrefixOf_cons_cons]
      simp [h.1]
    rw [cons_append, parseWplFrom, hbegins, if_neg Bool.false_ne_true, ih h.2]

theorem parseWplFrom_media (h : '>' ∉ v) (rest : Text) :
    parseWplFrom 0 ("<media".toList ++ v ++ '>' :: rest) =
      ((attributeValue v "src".toList).filter (· ≠ [])).toList ++ parseWplFrom 0 ('>' :: rest) := by
  have hmedia : "<media".toList ++ v ++ '>' :: rest = '<' :: ("media".toList ++ v ++ '>' :: rest) :=
    rfl
  have hbegins : "<media".toList.isPrefixOf ('<' :: ("media".toList ++ v ++ '>' :: rest)) = true :=
    rfl
  have hdrop : ('<' :: ("media".toList ++ v ++ '>' :: rest)).drop "<media".toList.length =
      v ++ '>' :: rest := rfl
  have htake : (v ++ '>' :: rest).takeWhile (· ≠ '>') = v := by
    rw [List.takeWhile_append_of_pos fun c hc => by
      simp only [ne_eq, decide_eq_true_eq]
      rintro rfl
      exact h hc]
    simp
  have hskip : "<media".toList.length - 1 + v.length = ("media".toList ++ v).length := by
    rw [List.length_append]
    rfl
  rw [hmedia, parseWplFrom, hbegins, if_pos rfl]
  simp only [hdrop, htake, hskip, parseWplFrom_skip]
  rw [if_neg (by simp)]

theorem notMem_attributeText {name : Text} (hname : '>' ∉ name) (value : Option Text) :
    '>' ∉ attributeText name value := by
  rw [attributeText]
  cases nonempty value with
  | none => exact not_mem_nil
  | some value =>
    have hvalue : '>' ∉ escape value := notMem_escape rfl (by decide) value
    simp [hname, hvalue]

theorem notMem_wplAttributes (entry : PlaylistEntry) : '>' ∉ wplAttributes entry := by
  simp only [wplAttributes, mem_append, not_or]
  exact ⟨⟨⟨⟨notMem_attributeText (by decide) _, notMem_attributeText (by decide) _⟩,
    notMem_attributeText (by decide) _⟩, notMem_attributeText (by decide) _⟩,
    notMem_attributeText (by decide) _⟩

/-- **An entry of a `.wpl` or `.zpl` file is read as its path.** -/
theorem parseWpl_rows (entry : PlaylistEntry) (rel s : Text) :
    parseWpl (wplRow entry rel ++ s) = (kept false rel).toList ++ parseWpl s := by
  have hvalue : '"' ∉ escape rel := notMem_escape rfl (by decide) rel
  have hclose : '>' ∉ escape rel := notMem_escape rfl (by decide) rel
  have hrow : wplRow entry rel ++ s = "      ".toList ++ ("<media".toList ++
      (" src=\"".toList ++ escape rel ++ '"' :: (wplAttributes entry ++ ['/'])) ++
        '>' :: ('\n' :: s)) := by
    unfold wplRow
    generalize "      ".toList = blanks
    generalize "<media".toList = element
    generalize " src=\"".toList = source
    generalize escape rel = value
    simp only [append_assoc, cons_append, List.nil_append]
  have hfree : '>' ∉ " src=\"".toList ++ escape rel ++ '"' :: (wplAttributes entry ++ ['/']) := by
    simp [hclose, notMem_wplAttributes entry]
  rw [parseWpl, hrow, parseWplFrom_append (by decide), parseWplFrom_media hfree,
    attributeValue_src hvalue, trimChars_escape, escape_eq, unescape_eq]
  have hrest : parseWplFrom 0 ('>' :: '\n' :: s) = parseWpl s :=
    parseWplFrom_append (v := ['>', '\n']) (by decide) s
  rw [hrest, kept, Option.filter_some]
  by_cases hnil : trimChars rel = []
  · rw [if_neg (by simp [hnil]), if_pos (.inl hnil)]
  · rw [if_pos (by simpa using hnil), if_neg]
    rintro (h | h)
    · exact hnil h
    · exact absurd h.1 Bool.false_ne_true

end Ferrofin.Playlists
