import Ferrofin.Playlists.Formats

/-!
# Playlists read back

What is written of a list of entries is read back as their paths exactly when each of them returns
from its relative path (`readPlaylistFile_written`).
-/

namespace Ferrofin.Playlists

open Util
open List (append_assoc append_nil cons_append forall_mem_cons mem_cons mem_map)

variable {α : Type*} {entries : List PlaylistEntry} {entry : PlaylistEntry} {path ext rel : Path}
  {names : List Path} {dir : Option Path} {comments : Bool} {c : Char}

/-! ### Entries -/

def playlistExtensions : List Text :=
  ["m3u".toList, "m3u8".toList, "pls".toList, "wpl".toList, "zpl".toList]

/-- An entry with an absolute normalized path, without control characters and blanks around it, and
with its tags on one line each. -/
structure Listed (entry : PlaylistEntry) : Prop extends OneLine entry where
  normalized : ∃ names, (∀ name ∈ names, IsName name) ∧ entry.path = absolute names
  noControl : ∀ c ∈ entry.path, isControl c = false
  noBlank : ∀ c, entry.path.getLast? = some c → isWhitespace c = false

/-- An entry returns from its path relative to a folder.  The folder is not absolute, or its text
has no step up or does not start as the entry does; and in the folder the entry's path starts with
no blank and with no mark of a comment. -/
def Returns (comments : Bool) (dir : Option Path) (entry : Path) : Prop :=
  ∀ folder, dir = some folder → isAbsolute folder = true →
    (.parentDir ∈ components folder → (components folder)[1]? ≠ (components entry)[1]?) ∧
      ∀ name, components folder ++ [.normal name] <+: components entry →
        ∀ c, name.head? = some c → isWhitespace c = false ∧ (comments → c ≠ '#')

theorem components_absolute (h : ∀ name ∈ names, IsName name) :
    components (absolute names) = .rootDir :: names.map .normal := by
  rw [absolute, components_root, parts_below_names h]

/-- **When an entry is read back.** -/
theorem kept_iff_returns (hentry : Listed entry) (comments : Bool) (dir : Option Path) :
    (kept comments (relativeTo dir entry.path)).map (makeAbsolute dir) = some entry.path ↔
      Returns comments dir entry.path := by
  obtain ⟨names, hnames, hpath⟩ := hentry.normalized
  have hlast := hentry.noBlank
  rw [hpath] at hlast ⊢
  have hself : ∀ dir, (kept comments (absolute names)).map (makeAbsolute dir) =
      some (absolute names) := fun dir => by
    rw [kept_of_head (c := '/') rfl rfl (fun _ => by decide) hlast, Option.map_some,
      makeAbsolute_absolute dir hnames]
  rcases dir with _ | folder
  · exact iff_of_true (hself none) nofun
  · by_cases hfolder : isAbsolute folder
    · obtain ⟨q, rfl⟩ : ∃ q, folder = '/' :: q := by
        obtain ⟨q, hq⟩ := List.head?_eq_some_iff.mp (of_decide_eq_true hfolder)
        exact ⟨q, hq⟩
      rw [readsBack_iff hnames hlast, ReadsBack, Returns]
      have hroot : ∀ l : List Component, (Component.rootDir :: l)[1]? = l.head? := fun l => by
        rw [List.getElem?_cons_succ, List.head?_eq_getElem?]
      constructor
      · rintro ⟨hup, hfirst⟩ _ ⟨⟩ -
        rw [components_root, components_absolute hnames, hroot, hroot, List.head?_map]
        refine ⟨fun hmem => hup (by simpa using hmem), fun name hbegins => hfirst name ?_⟩
        rw [cons_append, List.cons_prefix_cons] at hbegins
        exact hbegins.2
      · intro h
        have h := h _ rfl hfolder
        rw [components_root, components_absolute hnames, hroot, hroot, List.head?_map] at h
        refine ⟨fun hmem => h.1 (List.mem_cons_of_mem _ hmem), fun name hbegins => h.2 name ?_⟩
        rw [cons_append, List.cons_prefix_cons]
        exact ⟨rfl, hbegins⟩
    · have hrelative : relativeTo (some folder) (absolute names) = absolute names := by
        rw [relativeTo, Bool.eq_false_iff.mpr hfolder, Bool.and_false]
        rfl
      rw [hrelative]
      exact iff_of_true (hself _) fun _ heq habs => by
        rw [← Option.some.inj heq] at habs
        exact absurd habs hfolder

/-! ### Rows -/

theorem mem_below {texts : List Path} (h : c ∈ below texts) :
    c = '/' ∨ ∃ text ∈ texts, c ∈ text := by
  induction texts with
  | nil => cases h
  | cons text texts ih =>
    by_cases hnil : texts = []
    · rw [hnil, below, List.intercalate_singleton] at h
      exact .inr ⟨text, List.mem_cons_self, h⟩
    · rw [below_cons hnil, List.mem_append, mem_cons] at h
      rcases h with h | h | h
      · exact .inr ⟨text, List.mem_cons_self, h⟩
      · exact .inl h
      · exact (ih h).imp_right fun h => h.imp fun _ h => ⟨List.mem_cons_of_mem _ h.1, h.2⟩

theorem mem_below_of_mem {text : Path} {texts : List Path} (htext : text ∈ texts) (h : c ∈ text) :
    c ∈ below texts := by
  induction texts with
  | nil => cases htext
  | cons first texts ih =>
    by_cases hnil : texts = []
    · rw [hnil, List.mem_singleton] at htext
      rw [hnil, below, List.intercalate_singleton, ← htext]
      exact h
    · rw [below_cons hnil]
      rcases mem_cons.mp htext with rfl | htext
      · exact List.mem_append_left _ h
      · exact List.mem_append_right _ (List.mem_cons_of_mem _ (ih htext))

theorem notMem_relativeTo (hentry : Listed entry) (dir : Option Path) :
    '\n' ∉ relativeTo dir entry.path := by
  have hpath : '\n' ∉ entry.path := fun h => by
    have hcontrol := hentry.noControl '\n' h
    cases hcontrol
  obtain ⟨names, hnames, hself⟩ := hentry.normalized
  rcases dir with _ | folder
  · exact hpath
  by_cases hfolder : isAbsolute folder
  · obtain ⟨q, rfl⟩ := List.head?_eq_some_iff.mp (of_decide_eq_true hfolder)
    rw [hself, relativeTo_eq hnames]
    split
    · exact hself ▸ hpath
    · intro h
      obtain ⟨shared, up, down, -, hsplit, hsteps, -⟩ :=
        relativeSteps_eq (parts q) (names.map .normal)
      rw [hsteps] at h
      rcases mem_below h with h | ⟨text, htext, hc⟩
      · exact absurd h (by decide)
      · obtain ⟨step, hstep, rfl⟩ := mem_map.mp htext
        rcases List.mem_append.mp hstep with hstep | hstep
        · obtain ⟨-, -, rfl⟩ := mem_map.mp hstep
          exact absurd hc (by decide)
        · have hmem : step ∈ names.map Component.normal := hsplit ▸ List.mem_append_right _ hstep
          obtain ⟨name, hname, rfl⟩ := mem_map.mp hmem
          refine hpath ?_
          rw [hself]
          exact List.mem_cons_of_mem _ (mem_below_of_mem hname hc)
  · have hrelative : relativeTo (some folder) entry.path = entry.path := by
      rw [relativeTo, Bool.eq_false_iff.mpr hfolder, Bool.and_false]
      rfl
    rw [hrelative]
    exact hpath

theorem parse_rows (parse : Text → List Text) (keep : α → Option Text) (write : ℕ → α → Text)
    {rows : List α} (h : ∀ row ∈ rows, ∀ n s, parse (write n row ++ s) =
      (keep row).toList ++ parse s) (s : Text) :
    parse ((rows.mapIdx write).flatten ++ s) = rows.filterMap keep ++ parse s := by
  induction rows generalizing write with
  | nil => rfl
  | cons row rows ih =>
    rw [forall_mem_cons] at h
    rw [List.mapIdx_cons, List.flatten_cons, append_assoc, h.1,
      ih _ fun row hrow n => h.2 row hrow (n + 1), List.filterMap_cons]
    cases keep row <;> rfl

theorem filterMap_eq_map_iff {β : Type*} {f : α → Option β} {g : α → β} {l : List α} :
    l.filterMap f = l.map g ↔ ∀ a ∈ l, f a = some (g a) := by
  induction l with
  | nil => simp
  | cons a l ih =>
    rw [forall_mem_cons, ← ih, List.filterMap_cons, List.map_cons]
    cases hfa : f a with
    | none =>
      refine iff_of_false (fun h => ?_) (fun h => by cases h.1)
      have hle := List.length_filterMap_le f l
      rw [show l.filterMap f = g a :: l.map g from h, List.length_cons, List.length_map] at hle
      omega
    | some b =>
      simp only [List.cons.injEq, Option.some.injEq]

theorem flatMap_eq_mapIdx (rows : List α) (write : α → Text) :
    rows.flatMap write = (rows.mapIdx fun _ row => write row).flatten := by
  induction rows with
  | nil => rfl
  | cons row rows ih => rw [List.flatMap_cons, List.mapIdx_cons, List.flatten_cons, ← ih]

/-! ### Whole files -/

variable {rows : List (PlaylistEntry × Path)}

def Lined (rows : List (PlaylistEntry × Path)) : Prop := ∀ row ∈ rows, OneLine row.1 ∧ '\n' ∉ row.2

theorem parseM3u_written (h : Lined rows) :
    parseM3u ("#EXTM3U\n".toList ++ rows.flatMap fun row => m3uRows row.1 row.2) =
      rows.filterMap fun row => kept true row.2 := by
  have hheader : "#EXTM3U\n".toList = '#' :: "EXTM3U".toList ++ ['\n'] := by decide +kernel
  have hrows := parse_rows parseM3u (fun row => kept true row.2)
    (fun _ (row : PlaylistEntry × Path) => m3uRows row.1 row.2)
    (fun row hrow _ s => parseM3u_rows (h row hrow).1 (h row hrow).2 s) []
  have hnil : parseM3u [] = [] := rfl
  rw [hnil, append_nil, append_nil] at hrows
  rw [hheader, append_assoc, List.singleton_append, parseM3u_line (by decide),
    kept_directive, flatMap_eq_mapIdx, hrows]
  rfl

theorem parsePls_written (h : Lined rows) (count : ℕ) :
    parsePls ("[playlist]\n".toList ++
      (rows.mapIdx fun i row => plsRows (i + 1) row.1 row.2).flatten ++
        ("NumberOfEntries=".toList ++ decimal count ++ "\nVersion=2\n".toList)) =
      rows.filterMap fun row => kept false row.2 := by
  have hheader : "[playlist]\n".toList = "[playlist]".toList ++ ['\n'] := by decide +kernel
  have hheaderValue : lineValue "[playlist]".toList = none := by decide +kernel
  have hfirst : "NumberOfEntries=".toList = ('N' :: "umberOfEntries".toList) ++ ['='] := by
    decide +kernel
  have hsecond : "\nVersion=2\n".toList = '\n' :: ('V' :: "ersion".toList ++ '=' :: ['2'] ++
      ['\n']) := by decide +kernel
  have hversion : parsePls ('V' :: "ersion".toList ++ '=' :: ['2'] ++ ['\n']) = [] := by
    decide +kernel
  have hcount : '\n' ∉ decimal count := notMem_decimal count rfl (by decide)
  have hline : '\n' ∉ 'N' :: "umberOfEntries".toList ++ '=' :: decimal count :=
    fun hmem => (List.mem_append.mp hmem).elim (by decide) fun hmem =>
      (mem_cons.mp hmem).elim (by decide) hcount
  have hend : parsePls ("NumberOfEntries=".toList ++ decimal count ++ "\nVersion=2\n".toList) =
      [] := by
    rw [hfirst, hsecond, append_assoc _ ['='], List.singleton_append, parsePls_line hline,
      lineValue_other rfl (by decide) (by decide), hversion]
    rfl
  have hrows := parse_rows parsePls (fun row => kept false row.2)
    (fun i (row : PlaylistEntry × Path) => plsRows (i + 1) row.1 row.2)
    (fun row hrow i s => parsePls_rows (h row hrow).1 (h row hrow).2 (i + 1) s)
    ("NumberOfEntries=".toList ++ decimal count ++ "\nVersion=2\n".toList)
  rw [hend, append_nil] at hrows
  rw [hheader, append_assoc, append_assoc, List.singleton_append,
    parsePls_line (by decide), hheaderValue]
  exact hrows

/-- Another element than `<media` is passed over. -/
theorem parseWplFrom_other {v : Text} (hc : c ≠ 'm') (hv : '<' ∉ c :: v) (s : Text) :
    parseWplFrom 0 ('<' :: c :: v ++ s) = parseWplFrom 0 s := by
  have hmedia : "<media".toList = '<' :: 'm' :: "edia".toList := rfl
  have hbegins : "<media".toList.isPrefixOf ('<' :: c :: (v ++ s)) = false := by
    rw [hmedia, List.isPrefixOf_cons_cons, List.isPrefixOf_cons_cons]
    simp [hc.symm]
  rw [cons_append, cons_append, parseWplFrom, hbegins, if_neg Bool.false_ne_true,
    ← cons_append, parseWplFrom_append hv]

theorem parseWpl_written (rows : List (PlaylistEntry × Path)) {header : String}
    (hheader : header = "<?zpl version=\"2.0\"?>" ∨ header = "<?wpl version=\"1.0\"?>") :
    parseWpl (header.toList ++ "\n<smil>\n  <body>\n    <seq>\n".toList ++
      rows.flatMap (fun row => wplRow row.1 row.2) ++ "    </seq>\n  </body>\n</smil>\n".toList) =
      rows.filterMap fun row => kept false row.2 := by
  have hend : parseWpl "    </seq>\n  </body>\n</smil>\n".toList = [] := by decide +kernel
  have hopen : "\n<smil>\n  <body>\n    <seq>\n".toList = ['\n'] ++ ('<' :: 's' ::
      "mil>\n  ".toList ++ ('<' :: 'b' :: "ody>\n    ".toList ++
        '<' :: 's' :: "eq>\n".toList)) := by decide +kernel
  have hstart : ∀ s, parseWpl (header.toList ++ s) = parseWpl s := by
    intro s
    rcases hheader with rfl | rfl
    · have hzpl : "<?zpl version=\"2.0\"?>".toList =
          '<' :: '?' :: "zpl version=\"2.0\"?>".toList := by decide +kernel
      rw [hzpl]
      exact parseWplFrom_other (by decide) (by decide) s
    · have hwpl : "<?wpl version=\"1.0\"?>".toList =
          '<' :: '?' :: "wpl version=\"1.0\"?>".toList := by decide +kernel
      rw [hwpl]
      exact parseWplFrom_other (by decide) (by decide) s
  have hrows := parse_rows parseWpl (fun row => kept false row.2)
    (fun _ (row : PlaylistEntry × Path) => wplRow row.1 row.2)
    (fun row (_ : row ∈ rows) _ s => parseWpl_rows row.1 row.2 s)
    "    </seq>\n  </body>\n</smil>\n".toList
  rw [hend, append_nil, ← flatMap_eq_mapIdx] at hrows
  rw [append_assoc, append_assoc, hstart, hopen, parseWpl, append_assoc,
    parseWplFrom_append (by decide), append_assoc, parseWplFrom_other (by decide) (by decide),
    append_assoc, parseWplFrom_other (by decide) (by decide),
    parseWplFrom_other (by decide) (by decide)]
  exact hrows

def isM3u (ext : Text) : Bool := ext = "m3u".toList ∨ ext = "m3u8".toList

/-- **The paths of a written file are those that the format keeps.** -/
theorem readPlaylistFile_eq (hext : extensionOf path = some ext)
    (hsupported : ext ∈ playlistExtensions) (h : ∀ entry ∈ entries, Listed entry) :
    readPlaylistFile path (writePlaylistFile path entries) = entries.filterMap fun entry =>
      (kept (isM3u ext) (relativeTo (parent path) entry.path)).map
        (makeAbsolute (parent path)) := by
  have hlined : Lined (entries.map fun entry => (entry, relativeTo (parent path) entry.path)) := by
    intro row hrow
    obtain ⟨entry, hentry, rfl⟩ := mem_map.mp hrow
    exact ⟨(h entry hentry).toOneLine, notMem_relativeTo (h entry hentry) _⟩
  have hmap : ∀ comments, ((entries.map fun entry =>
      (entry, relativeTo (parent path) entry.path)).filterMap fun row => kept comments row.2).map
        (makeAbsolute (parent path)) = entries.filterMap fun entry =>
          (kept comments (relativeTo (parent path) entry.path)).map
            (makeAbsolute (parent path)) := by
    intro comments
    rw [List.filterMap_map, List.map_filterMap]
    rfl
  have hm3u : ∀ {ext}, isM3u ext = true → extensionOf path = some ext → ext ≠ "pls".toList →
      ¬ (ext = "wpl".toList ∨ ext = "zpl".toList) →
      readPlaylistFile path (writePlaylistFile path entries) = entries.filterMap fun entry =>
        (kept true (relativeTo (parent path) entry.path)).map (makeAbsolute (parent path)) := by
    intro ext hm3u hext hpls hwpl
    simp only [readPlaylistFile, writePlaylistFile, hext, if_neg hpls, if_neg hwpl,
      if_pos (of_decide_eq_true hm3u)]
    rw [parseM3u_written hlined, hmap]
  have hwpl : ∀ {ext}, ext = "wpl".toList ∨ ext = "zpl".toList → extensionOf path = some ext →
      ¬ (ext = "m3u".toList ∨ ext = "m3u8".toList) → ext ≠ "pls".toList →
      readPlaylistFile path (writePlaylistFile path entries) = entries.filterMap fun entry =>
        (kept false (relativeTo (parent path) entry.path)).map (makeAbsolute (parent path)) := by
    intro ext hwpl hext hm3u hpls
    have hheader : (if ext = "zpl".toList then "<?zpl version=\"2.0\"?>" else
        "<?wpl version=\"1.0\"?>") = "<?zpl version=\"2.0\"?>" ∨
        (if ext = "zpl".toList then "<?zpl version=\"2.0\"?>" else
          "<?wpl version=\"1.0\"?>") = "<?wpl version=\"1.0\"?>" := by
      split
      · exact .inl rfl
      · exact .inr rfl
    simp only [readPlaylistFile, writePlaylistFile, hext, if_neg hm3u, if_neg hpls, if_pos hwpl]
    rw [parseWpl_written _ hheader, hmap]
  simp only [playlistExtensions, mem_cons, List.not_mem_nil, or_false] at hsupported
  rcases hsupported with rfl | rfl | rfl | rfl | rfl
  · exact hm3u rfl hext (by decide) (by decide)
  · exact hm3u rfl hext (by decide) (by decide)
  · have hpls : isM3u "pls".toList = false := by decide
    have hother : ¬ ("pls".toList = "m3u".toList ∨ "pls".toList = "m3u8".toList) := by decide
    simp only [readPlaylistFile, writePlaylistFile, hext, if_neg hother, if_true, hpls]
    rw [parsePls_written hlined, hmap]
  · exact hwpl (.inl rfl) hext (by decide) (by decide)
  · exact hwpl (.inr rfl) hext (by decide) (by decide)

/-- **Playlists read back.**  For each supported extension, what is written of a list of entries is
read as their paths, in their order, exactly when each entry returns from its relative path. -/
theorem readPlaylistFile_written (hext : extensionOf path = some ext)
    (hsupported : ext ∈ playlistExtensions) (hlisted : ∀ entry ∈ entries, Listed entry) :
    readPlaylistFile path (writePlaylistFile path entries) = entries.map PlaylistEntry.path ↔
      ∀ entry ∈ entries, Returns (isM3u ext) (parent path) entry.path := by
  rw [readPlaylistFile_eq hext hsupported hlisted, filterMap_eq_map_iff]
  exact forall₂_congr fun entry hentry => kept_iff_returns (hlisted entry hentry) _ _

def twoEntries : List PlaylistEntry := [{ path := "/m/a".toList }, { path := "/b".toList }]

theorem readPlaylistFile_written_two :
    readPlaylistFile "/m/l.pls".toList (writePlaylistFile "/m/l.pls".toList twoEntries) =
        twoEntries.map PlaylistEntry.path ↔
      ∀ entry ∈ twoEntries, Returns (isM3u "pls".toList) (parent "/m/l.pls".toList) entry.path := by
  have hlisted : ∀ path names, path = absolute names → (∀ name ∈ names, IsName name) →
      path.all (!isControl ·) = true → path.getLast?.all (!isWhitespace ·) = true →
      Listed { path := path } := fun path names hpath hnames hcontrol hblank =>
    { title := nofun
      album := nofun
      albumArtist := nofun
      normalized := ⟨names, hnames, hpath⟩
      noControl := fun c hc => by simpa using List.all_eq_true.mp hcontrol c hc
      noBlank := fun c hc => by simpa using (Option.all_eq_true _ _).mp hblank c hc }
  have hname : ∀ c ∈ ['m', 'a', 'b'], IsName [c] := by
    simp only [forall_mem_cons, List.not_mem_nil, false_implies, implies_true, and_true]
    exact ⟨⟨by decide, by decide, by decide⟩, ⟨by decide, by decide, by decide⟩,
      ⟨by decide, by decide, by decide⟩⟩
  have hext : extensionOf "/m/l.pls".toList = some "pls".toList := by decide +kernel
  refine readPlaylistFile_written hext (by decide) ?_
  refine forall_mem_cons.mpr ⟨hlisted _ [['m'], ['a']] rfl ?_ rfl rfl,
    List.forall_mem_singleton.mpr (hlisted _ [['b']] rfl ?_ rfl rfl)⟩
  · exact forall_mem_cons.mpr ⟨hname 'm' (by simp),
      List.forall_mem_singleton.mpr (hname 'a' (by simp))⟩
  · exact List.forall_mem_singleton.mpr (hname 'b' (by simp))

/-- A file name that starts with the mark of a comment is lost. -/
theorem comment_lost :
    readPlaylistFile "/m/l.m3u".toList (writePlaylistFile "/m/l.m3u".toList
      [{ path := "/m/#1.flac".toList }]) ≠ ["/m/#1.flac".toList] := by
  decide +kernel

end Ferrofin.Playlists
