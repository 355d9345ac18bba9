import Ferrofin.Util.Decimal
import Ferrofin.Util.Paths
import Ferrofin.Util.Search

/-!
# Playlist files and their paths

A playlist file lists media paths, absolute or relative to its own folder, in one of the formats of
`m3u`, `pls` and `wpl`.  `read_playlist_file` reads the paths; `write_playlist_file` writes the
entries of a list with their tags and with paths that are relative to the folder.

An entry's path is written relative to the playlist's folder, and resolved against it again.  Below
the root a path is the names and the steps up that it is made of (`parts`); `normalize` walks along
them (`normalize_eq`).  From a folder whose text has no step up, a relative path leads back to the
entry (`makeAbsolute_relativeTo`).
-/

namespace Ferrofin.Playlists

open Util

abbrev Text := List Char

/-! ### Reading -/

def extensionOf (path : Path) : Option Text := (extension path).map (·.map Char.toLower)

def parseM3u (contents : Text) : List Text :=
  ((lines contents).map trimChars).filter fun line => line ≠ [] ∧ line.head? ≠ some '#'

/-- The path of a `FileN=` line. -/
def fileValue (line : Text) : Option Text :=
  (splitOnce ['='] line).bind fun (key, value) =>
    if "file".toList.isPrefixOf ((trimChars key).map Char.toLower) then some (trimChars value)
    else none

def parsePls (contents : Text) : List Text :=
  (((lines contents).map trimChars).filterMap fileValue).filter (· ≠ [])

def unescape (value : Text) : Text :=
  replace "&amp;".toList ['&'] (replace "&apos;".toList ['\''] (replace "&quot;".toList ['"']
    (replace "&gt;".toList ['>'] (replace "&lt;".toList ['<'] value))))

/-- What stands behind `name=`, where a blank or nothing is before it. -/
def behindName (needle : Text) : (before : Option Char) → Text → Option Text
  | _, [] => none
  | before, c :: s =>
    if needle.isPrefixOf ((c :: s).map Char.toLower) ∧ before.all isWhitespace then
      some ((c :: s).drop needle.length)
    else behindName needle (some c.toLower) s

def attributeValue (tag name : Text) : Option Text :=
  match behindName (name ++ ['=']) none tag with
  | none => none
  | some [] => none
  | some (quote :: rest) =>
    if quote ≠ '"' ∧ quote ≠ '\'' then none
    else if quote ∉ rest then none
    else some (unescape (trimChars (rest.takeWhile (· ≠ quote))))

/-- The sources of the elements behind the first `skip` characters. -/
def parseWplFrom : (skip : ℕ) → Text → List Text
  | _, [] => []
  | skip + 1, _ :: s => parseWplFrom skip s
  | 0, c :: s =>
    if "<media".toList.isPrefixOf (c :: s) then
      let rest := (c :: s).drop "<media".toList.length
      if '>' ∉ rest then []
      else
        let tag := rest.takeWhile (· ≠ '>')
        ((attributeValue tag "src".toList).filter (· ≠ [])).toList ++
          parseWplFrom ("<media".toList.length - 1 + tag.length) s
    else parseWplFrom 0 s

def parseWpl (contents : Text) : List Text := parseWplFrom 0 contents

/-- `PathBuf::push`, or `PathBuf::pop`. -/
def normalizeStep (out : Path) : Component → Path
  | .curDir => out
  | .parentDir => (parent out).getD out
  | .rootDir => join out ['/']
  | .normal name => join out name

/-- Collapses `.` and `..` segments. -/
def normalize (path : Path) : Path := (components path).foldl normalizeStep []

def isAbsolute (path : Path) : Bool := path.head? = some '/'

/-- Resolves `entry` against the playlist's folder. -/
def makeAbsolute (dir : Option Path) (entry : Text) : Path :=
  match dir with
  | some dir => if isAbsolute entry then normalize entry else normalize (join dir entry)
  | none => normalize entry

def readPlaylistFile (path contents : Text) : List Path :=
  let entries :=
    match extensionOf path with
    | none => []
    | some ext =>
      if ext = "m3u".toList ∨ ext = "m3u8".toList then parseM3u contents
      else if ext = "pls".toList then parsePls contents
      else if ext = "wpl".toList ∨ ext = "zpl".toList then parseWpl contents
      else []
  entries.map (makeAbsolute (parent path))

/-! ### Writing -/

structure PlaylistEntry where
  path : Path
  title : Option Text := none
  album : Option Text := none
  albumArtist : Option Text := none
  artist : Option Text := none
  durationSeconds : Option Int := none
  deriving DecidableEq

def componentText : Component → Path
  | .rootDir => ['/']
  | .curDir => ['.']
  | .parentDir => ['.', '.']
  | .normal name => name

/-- From a folder to a path: up from what they do not share, and down. -/
def relativeSteps : (dir path : List Component) → List Component
  | a :: dir, b :: path =>
    if a = b then relativeSteps dir path else (a :: dir).map (fun _ => .parentDir) ++ b :: path
  | dir, path => dir.map (fun _ => .parentDir) ++ path

def relativeTo (dir : Option Path) (entry : Path) : Path :=
  match dir with
  | none => entry
  | some dir =>
    if isAbsolute entry && isAbsolute dir then
      let steps := relativeSteps (components dir) (components entry)
      let out := (steps.map componentText).foldl join []
      if out = [] then entry else out
    else entry

def displayTitle (entry : PlaylistEntry) : Text := entry.title.getD []

def escape (value : Text) : Text :=
  replace ['\''] "&apos;".toList (replace ['"'] "&quot;".toList (replace ['>'] "&gt;".toList
    (replace ['<'] "&lt;".toList (replace ['&'] "&amp;".toList value))))

def nonempty (value : Option Text) : Option Text := value.filter (· ≠ [])

/-- A numbered row of a `.pls` file. -/
def plsRow (key : Text) (n : ℕ) (value : Text) : Text := key ++ decimal n ++ '=' :: value ++ ['\n']

def plsRows (n : ℕ) (entry : PlaylistEntry) (rel : Path) : Text :=
  plsRow "File".toList n rel ++
    (if displayTitle entry = [] then [] else plsRow "Title".toList n (displayTitle entry)) ++
    (entry.durationSeconds.map fun seconds => plsRow "Length".toList n (decimal seconds)).getD []

def saturatingMul (a b : Int) : Int := max (-2 ^ 63) (min (2 ^ 63 - 1) (a * b))

def attributeText (name : Text) (value : Option Text) : Text :=
  match nonempty value with
  | none => []
  | some value => ' ' :: name ++ "=\"".toList ++ escape value ++ ['"']

/-- The attributes of an entry in a `.wpl` or `.zpl` file, behind `src`. -/
def wplAttributes (entry : PlaylistEntry) : Text :=
  attributeText "albumTitle".toList entry.album ++
    attributeText "albumArtist".toList entry.albumArtist ++
    attributeText "trackArtist".toList entry.artist ++
    attributeText "trackTitle".toList entry.title ++
    attributeText "duration".toList
      (entry.durationSeconds.map fun seconds => decimal (saturatingMul seconds 1000))

def wplRow (entry : PlaylistEntry) (rel : Path) : Text :=
  "      ".toList ++ "<media".toList ++ " src=\"".toList ++ escape rel ++
    '"' :: wplAttributes entry ++ ['/', '>', '\n']

def directive (name : Text) (tag : Option Text) : Text :=
  match nonempty tag with
  | none => []
  | some value => name ++ value ++ ['\n']

/-- The rows of an entry in an `.m3u` file. -/
def m3uRows (entry : PlaylistEntry) (rel : Path) : Text :=
  directive "#EXTALB:".toList entry.album ++ directive "#EXTART:".toList entry.albumArtist ++
    ("#EXTINF:".toList ++ decimal (entry.durationSeconds.getD 0) ++ ',' :: displayTitle entry ++
      '\n' :: rel ++ ['\n'])

def writePlaylistFile (path : Path) (entries : List PlaylistEntry) : Text :=
  let dir := parent path
  let rows := entries.map fun entry => (entry, relativeTo dir entry.path)
  match extensionOf path with
  | some ext =>
    if ext = "pls".toList then
      "[playlist]\n".toList ++ (rows.mapIdx fun i row => plsRows (i + 1) row.1 row.2).flatten ++
        ("NumberOfEntries=".toList ++ decimal rows.length ++ "\nVersion=2\n".toList)
    else if ext = "wpl".toList ∨ ext = "zpl".toList then
      (if ext = "zpl".toList then "<?zpl version=\"2.0\"?>"
        else "<?wpl version=\"1.0\"?>").toList ++
        "\n<smil>\n  <body>\n    <seq>\n".toList ++ rows.flatMap (fun row => wplRow row.1 row.2) ++
        "    </seq>\n  </body>\n</smil>\n".toList
    else "#EXTM3U\n".toList ++ rows.flatMap fun row => m3uRows row.1 row.2
  | none => "#EXTM3U\n".toList ++ rows.flatMap fun row => m3uRows row.1 row.2

variable {names : List Path} {name p q : Path} {dir : List Component}

/-! ### Parts of a path -/

def parts (q : Path) : List Component := ((segments q).filter (!isBlank ·)).map component

theorem components_root (q : Path) : components ('/' :: q) = .rootDir :: parts q := by
  have hsegments : segments ('/' :: q) = [] :: segments q := List.splitOn_append_cons_self [] q
  have hne : segments q ≠ [] := List.splitOn_ne_nil '/' q
  rw [components, hsegments]
  simp [hne, parts]

theorem parts_append (p q : Path) : parts (p ++ '/' :: q) = parts p ++ parts q := by
  rw [parts, segments, List.splitOn_append_cons_self, List.filter_append, List.map_append]
  rfl

@[simp] theorem parts_nil : parts [] = [] := rfl

theorem parts_of_notMem (h : '/' ∉ name) (hblank : isBlank name = false) :
    parts name = [component name] := by
  rw [parts, segments, List.splitOn_eq_singleton h]
  simp [hblank]

def IsPart (c : Component) : Prop := c = .parentDir ∨ ∃ name, IsName name ∧ c = .normal name

theorem isPart_of_mem_parts {c : Component} (h : c ∈ parts q) : IsPart c := by
  obtain ⟨segment, hsegment, rfl⟩ := List.mem_map.mp h
  obtain ⟨hmem, hblank⟩ := List.mem_filter.mp hsegment
  rw [Bool.not_eq_true'] at hblank
  by_cases hparent : segment = ['.', '.']
  · exact .inl (by rw [hparent]; rfl)
  · have hname : IsName segment := ⟨separator_not_mem hmem, hblank, hparent⟩
    exact .inr ⟨segment, hname, hname.component_eq⟩

/-! ### Absolute paths -/

def below (names : List Path) : Path := ['/'].intercalate names

def absolute (names : List Path) : Path := '/' :: below names

theorem below_cons (hne : names ≠ []) (name : Path) :
    below (name :: names) = name ++ '/' :: below names := by
  rw [below, List.intercalate_cons_of_ne_nil hne, List.append_assoc]
  rfl

theorem head?_below (hname : name ≠ []) (names : List Path) :
    (below (name :: names)).head? = name.head? := by
  by_cases hnil : names = []
  · rw [hnil, below, List.intercalate_singleton]
  · rw [below_cons hnil, List.head?_append_of_ne_nil _ hname]

theorem below_concat (hne : names ≠ []) (name : Path) :
    below (names ++ [name]) = below names ++ '/' :: name := by
  induction names with
  | nil => exact absurd rfl hne
  | cons first names ih =>
    by_cases hnil : names = []
    · rw [hnil, List.singleton_append, below_cons (List.cons_ne_nil _ _), below, below,
        List.intercalate_singleton, List.intercalate_singleton]
    · rw [List.cons_append, below_cons (by simp [hnil]), ih hnil, below_cons hnil,
        List.append_assoc, List.cons_append]

theorem below_eq_append (front : List Path) (last : Path) :
    ∃ middle, below (front ++ [last]) = middle ++ last := by
  by_cases hnil : front = []
  · exact ⟨[], by rw [hnil, List.nil_append, below, List.intercalate_singleton]; rfl⟩
  · exact ⟨below front ++ ['/'], by rw [below_concat hnil, List.append_assoc]; rfl⟩

theorem getLast?_below {last : Path} (hlast : last ≠ []) (front : List Path) :
    (below (front ++ [last])).getLast? = last.getLast? := by
  obtain ⟨middle, hbelow⟩ := below_eq_append front last
  rw [hbelow, List.getLast?_append_of_ne_nil _ hlast]

theorem trimSeparator_below {texts : List Path} (h : ∀ text ∈ texts, '/' ∉ text ∧ text ≠ [])
    (hne : texts ≠ []) (front : Path) :
    trimSeparator (front ++ below texts) = front ++ below texts ∧ below texts ≠ [] := by
  obtain ⟨start, last, rfl⟩ := List.eq_nil_or_concat' texts |>.resolve_left hne
  obtain ⟨hsep, hlast⟩ := h last (by simp)
  obtain ⟨middle, hbelow⟩ := below_eq_append start last
  rw [hbelow, ← List.append_assoc, trimSeparator, List.getLast?_append_of_ne_nil _ hlast]
  exact ⟨if_neg fun h => hsep (List.mem_of_getLast? h), by simp [hlast]⟩

theorem parts_below (texts : List Path) : parts (below texts) = texts.flatMap parts := by
  induction texts with
  | nil => rfl
  | cons text texts ih =>
    by_cases hnil : texts = []
    · rw [hnil, below, List.intercalate_singleton, List.flatMap_singleton]
    · rw [below_cons hnil, parts_append, ih, List.flatMap_cons]

theorem parts_below_names (h : ∀ name ∈ names, IsName name) :
    parts (below names) = names.map .normal := by
  rw [parts_below]
  induction names with
  | nil => rfl
  | cons name names ih =>
    rw [List.forall_mem_cons] at h
    rw [List.flatMap_cons, parts_of_notMem h.1.noSeparator h.1.notBlank, h.1.component_eq, ih h.2]
    rfl

theorem absolute_injective {others : List Path} (h : ∀ name ∈ names, IsName name)
    (hothers : ∀ name ∈ others, IsName name) (heq : absolute names = absolute others) :
    names = others := by
  have hparts := congrArg parts (List.cons.inj heq).2
  rw [parts_below_names h, parts_below_names hothers] at hparts
  exact List.map_injective_iff.mpr (fun _ _ => Component.normal.inj) hparts

theorem join_absolute (h : ∀ name ∈ names, IsName name) (hname : IsName name) :
    join (absolute names) name = absolute (names ++ [name]) := by
  have hroot : absolute names ≠ [] := List.cons_ne_nil _ _
  rw [join_eq_append hroot hname.noSeparator]
  by_cases hnil : names = []
  · rw [hnil, absolute, absolute, List.nil_append, below, below, List.intercalate_singleton]
    rfl
  · have hgood : ∀ text ∈ names, '/' ∉ text ∧ text ≠ [] := fun text htext =>
      ⟨(h text htext).noSeparator, (h text htext).ne_nil⟩
    have htrim := (trimSeparator_below hgood hnil ['/']).1
    rw [List.singleton_append] at htrim
    rw [absolute, htrim, absolute, below_concat hnil]
    rfl

theorem segments_absolute (h : ∀ name ∈ names, IsName name) (hne : names ≠ []) :
    segments (absolute names) = [] :: names := by
  have hsegments : segments (absolute names) = [] :: segments (below names) :=
    List.splitOn_append_cons_self [] _
  rw [hsegments, segments, below,
    List.splitOn_intercalate '/' (fun name hname => (h name hname).noSeparator) hne]

theorem parent_absolute (h : ∀ name ∈ names, IsName name) :
    (parent (absolute names)).getD (absolute names) = absolute names.dropLast := by
  induction names using List.reverseRecOn with
  | nil => rfl
  | append_singleton names last _ =>
    have hlast := h last (by simp)
    have hsegments := segments_absolute h (by simp)
    have hdrop : dropBlank names = names := by
      induction names using List.reverseRecOn with
      | nil => rfl
      | append_singleton names name _ =>
        exact List.rdropWhile_concat_neg _ _ _ (by simp [(h name (by simp)).notBlank])
    rw [parent_of_segments hsegments hlast, Option.getD_some, List.dropLast_concat, hdrop,
      joinSegments]
    by_cases hnil : names = []
    · rw [hnil]
      rfl
    · rw [if_neg (by simpa using hnil), absolute, below, List.intercalate_cons_of_ne_nil hnil]
      rfl

/-! ### Normalizing -/

def climb (names : List Path) : Component → List Path
  | .normal name => names ++ [name]
  | .parentDir => names.dropLast
  | _ => names

theorem isName_climb (h : ∀ name ∈ names, IsName name) {c : Component} (hc : IsPart c) :
    ∀ name ∈ climb names c, IsName name := by
  rcases hc with rfl | ⟨name, hname, rfl⟩
  · exact fun n hn => h n (List.dropLast_subset _ hn)
  · intro n hn
    rcases List.mem_append.mp hn with hn | hn
    · exact h n hn
    · rw [List.mem_singleton.mp hn]
      exact hname

theorem normalizeStep_absolute (h : ∀ name ∈ names, IsName name) {c : Component}
    (hc : IsPart c) : normalizeStep (absolute names) c = absolute (climb names c) := by
  rcases hc with rfl | ⟨name, hname, rfl⟩
  · exact parent_absolute h
  · exact join_absolute h hname

theorem foldl_normalizeStep {cs : List Component} (hcs : ∀ c ∈ cs, IsPart c)
    (h : ∀ name ∈ names, IsName name) :
    cs.foldl normalizeStep (absolute names) = absolute (cs.foldl climb names) ∧
      ∀ name ∈ cs.foldl climb names, IsName name := by
  induction cs generalizing names with
  | nil => exact ⟨rfl, h⟩
  | cons c cs ih =>
    rw [List.forall_mem_cons] at hcs
    rw [List.foldl_cons, List.foldl_cons, normalizeStep_absolute h hcs.1]
    exact ih hcs.2 (isName_climb h hcs.1)

def destination (cs : List Component) : List Path := cs.foldl climb []

/-- **An absolute path is walked along.** -/
theorem normalize_eq (q : Path) : normalize ('/' :: q) = absolute (destination (parts q)) ∧
    ∀ name ∈ destination (parts q), IsName name := by
  have hroot : normalizeStep [] .rootDir = absolute [] := rfl
  rw [normalize, components_root, List.foldl_cons, hroot]
  exact foldl_normalizeStep (fun _ hc => isPart_of_mem_parts hc) nofun

/-! ### Relative paths -/

def texts (cs : List Component) : List Path := cs.map componentText

theorem IsPart.componentText {c : Component} (h : IsPart c) :
    '/' ∉ componentText c ∧ componentText c ≠ [] ∧ parts (componentText c) = [c] := by
  rcases h with rfl | ⟨name, hname, rfl⟩
  · exact ⟨by decide, List.cons_ne_nil _ _, rfl⟩
  · refine ⟨hname.noSeparator, hname.ne_nil, ?_⟩
    rw [Playlists.componentText, parts_of_notMem hname.noSeparator hname.notBlank,
      hname.component_eq]

theorem foldl_join_eq {texts : List Path} (h : ∀ text ∈ texts, '/' ∉ text ∧ text ≠ []) :
    texts.foldl join [] = below texts := by
  induction texts using List.reverseRecOn with
  | nil => rfl
  | append_singleton texts text ih =>
    obtain ⟨hsep, hne⟩ := h text (by simp)
    have hfront : ∀ text ∈ texts, '/' ∉ text ∧ text ≠ [] := fun t ht => h t (by simp [ht])
    rw [List.foldl_append, List.foldl_cons, List.foldl_nil, ih hfront]
    by_cases hnil : texts = []
    · rw [hnil, List.nil_append, below, below, List.intercalate_singleton]
      exact if_pos (.inl rfl)
    · obtain ⟨htrim, hbelow⟩ := trimSeparator_below hfront hnil []
      rw [List.nil_append] at htrim
      rw [below_concat hnil, join_eq_append hbelow hsep, htrim]

theorem parts_texts {cs : List Component} (h : ∀ c ∈ cs, IsPart c) :
    parts (below (texts cs)) = cs := by
  rw [parts_below, texts, List.flatMap_map]
  induction cs with
  | nil => rfl
  | cons c cs ih =>
    rw [List.forall_mem_cons] at h
    rw [List.flatMap_cons, h.1.componentText.2.2, ih h.2, List.singleton_append]

theorem parts_join (hp : p.head? ≠ some '/') (q : Path) :
    ∃ r, join ('/' :: q) p = '/' :: r ∧ parts r = parts q ++ parts p := by
  rw [join, if_neg (by simp [hp])]
  split
  · next hlast =>
    cases hq : q with
    | nil => exact ⟨p, rfl, rfl⟩
    | cons c rest =>
      rw [hq, List.getLast?_cons_cons, ← hq] at hlast
      obtain ⟨front, hfront⟩ := List.getLast?_eq_some_iff.mp hlast
      refine ⟨front ++ '/' :: p, ?_, ?_⟩
      · rw [← hq, hfront]
        simp
      · rw [← hq, hfront, parts_append, parts_append, parts_nil, List.append_nil]
  · exact ⟨q ++ '/' :: p, rfl, parts_append q p⟩

theorem relativeSteps_eq (dir path : List Component) :
    ∃ shared up down, dir = shared ++ up ∧ path = shared ++ down ∧
      relativeSteps dir path = up.map (fun _ => .parentDir) ++ down ∧
      (up = [] ∨ up.head? ≠ down.head?) := by
  induction dir generalizing path with
  | nil => exact ⟨[], [], path, rfl, rfl, by cases path <;> rfl, .inl rfl⟩
  | cons a dir ih =>
    cases path with
    | nil => exact ⟨[], a :: dir, [], rfl, rfl, rfl, .inr (by simp)⟩
    | cons b path =>
      rw [relativeSteps]
      split
      · next hab =>
        obtain ⟨shared, up, down, rfl, rfl, hsteps, hdiffer⟩ := ih path
        exact ⟨a :: shared, up, down, rfl, by rw [hab]; rfl, hsteps, hdiffer⟩
      · next hab =>
        exact ⟨[], a :: dir, b :: path, rfl, rfl, rfl, .inr (by simpa using hab)⟩

theorem isPart_relativeSteps {dir path : List Component} (h : ∀ c ∈ path, IsPart c) :
    ∀ c ∈ relativeSteps dir path, IsPart c := by
  obtain ⟨shared, up, down, -, rfl, hsteps, -⟩ := relativeSteps_eq dir path
  rw [hsteps]
  intro c hc
  rcases List.mem_append.mp hc with hc | hc
  · obtain ⟨-, -, rfl⟩ := List.mem_map.mp hc
    exact .inl rfl
  · exact h c (List.mem_append_right _ hc)

theorem relativeTo_eq (h : ∀ name ∈ names, IsName name) (q : Path) :
    relativeTo (some ('/' :: q)) (absolute names) =
      if relativeSteps (parts q) (names.map .normal) = [] then absolute names
      else below (texts (relativeSteps (parts q) (names.map .normal))) := by
  have hsteps : relativeSteps (components ('/' :: q)) (components (absolute names)) =
      relativeSteps (parts q) (names.map .normal) := by
    rw [absolute, components_root, components_root, parts_below_names h, relativeSteps, if_pos rfl]
  have hparts : ∀ c ∈ names.map Component.normal, IsPart c := fun c hc => by
    obtain ⟨name, hname, rfl⟩ := List.mem_map.mp hc
    exact .inr ⟨name, h name hname, rfl⟩
  have hgood : ∀ text ∈ texts (relativeSteps (parts q) (names.map .normal)),
      '/' ∉ text ∧ text ≠ [] := fun text htext => by
    obtain ⟨c, hc, rfl⟩ := List.mem_map.mp htext
    obtain ⟨hsep, hne, -⟩ := (isPart_relativeSteps hparts c hc).componentText
    exact ⟨hsep, hne⟩
  have habsolute : (isAbsolute (absolute names) && isAbsolute ('/' :: q)) = true := rfl
  rw [relativeTo, habsolute, if_pos rfl, hsteps]
  change (if (texts _).foldl join [] = [] then _ else (texts _).foldl join []) = _
  rw [foldl_join_eq hgood]
  by_cases hnil : relativeSteps (parts q) (names.map .normal) = []
  · rw [if_pos hnil, hnil]
    rfl
  · have hne : texts (relativeSteps (parts q) (names.map .normal)) ≠ [] := by
      simpa [texts] using hnil
    rw [if_neg hnil, if_neg (trimSeparator_below hgood hne []).2]

end Ferrofin.Playlists
