import Ferrofin.Util.IgnoreCase

/-!
# Virtual paths

The server's own directories are stored as tokens: `reverse` puts the tokens in, in whatever case a
path writes the directories, and `expand` takes them out.  A path comes back in the letter case of
the directories (`expand_reverse`), unless the name of a token stands in it between two percent
signs or directories, where a token would arise that was not put in (`ServerPaths.TokenFree`).
-/

namespace Ferrofin.Libraries

open Util

def appDataPath : List Char := ['A', 'p', 'p', 'D', 'a', 't', 'a', 'P', 'a', 't', 'h']

def metadataPath : List Char := ['M', 'e', 't', 'a', 'd', 'a', 't', 'a', 'P', 'a', 't', 'h']

def virtualDataPath : List Char := '%' :: (appDataPath ++ ['%'])

def virtualInternalMetadataPath : List Char := '%' :: (metadataPath ++ ['%'])

example : virtualDataPath = "%AppDataPath%".toList ∧
    virtualInternalMetadataPath = "%MetadataPath%".toList := by decide

/-- `FerrofinServerApplicationPaths`, the directories that are stored as tokens. -/
structure ServerPaths where
  dataPath : List Char
  internalMetadataPath : List Char

structure VirtualPathExpander where
  paths : Option ServerPaths := none

namespace VirtualPathExpander

def expand (expander : VirtualPathExpander) (path : List Char) : List Char :=
  match expander.paths with
  | none => path
  | some paths =>
    let data := replaceIgnoreAsciiCase path virtualDataPath paths.dataPath
    replaceIgnoreAsciiCase data virtualInternalMetadataPath paths.internalMetadataPath

def reverse (expander : VirtualPathExpander) (path : List Char) : List Char :=
  match expander.paths with
  | none => path
  | some paths =>
    let data := replaceIgnoreAsciiCase path paths.dataPath virtualDataPath
    replaceIgnoreAsciiCase data paths.internalMetadataPath virtualInternalMetadataPath

end VirtualPathExpander

namespace ServerPaths

/-- The directories are absolute, and no token begins in them, whatever follows. -/
structure Sound (paths : ServerPaths) : Prop where
  data_absolute : ∃ rest, paths.dataPath = '/' :: rest
  metadata_absolute : ∃ rest, paths.internalMetadataPath = '/' :: rest
  data_clear : Clear virtualDataPath paths.dataPath ∧
    Clear virtualInternalMetadataPath paths.dataPath
  metadata_clear : Clear virtualDataPath paths.internalMetadataPath ∧
    Clear virtualInternalMetadataPath paths.internalMetadataPath

/-- A percent sign or a directory, in some letter case. -/
def IsEdge (paths : ServerPaths) (s : List Char) : Prop :=
  small s = ['%'] ∨ small s = small paths.dataPath ∨ small s = small paths.internalMetadataPath

def IsName (s : List Char) : Prop :=
  small s = small appDataPath ∨ small s = small metadataPath

/-- The name of a token never stands between two percent signs or directories. -/
def TokenFree (paths : ServerPaths) (path : List Char) : Prop :=
  ∀ a e n e' b, path = a ++ e ++ n ++ e' ++ b → paths.IsEdge e → IsName n → ¬paths.IsEdge e'

/-- The path writes the directories in their own letter case. -/
def Written (paths : ServerPaths) (path : List Char) : Prop :=
  ∀ a x b, path = a ++ x ++ b →
    (small x = small paths.dataPath → x = paths.dataPath) ∧
    (small x = small paths.internalMetadataPath → x = paths.internalMetadataPath)

variable {paths : ServerPaths} {s : List Char}

theorem TokenFree.of_append {x : List Char} (h : paths.TokenFree (x ++ s)) :
    paths.TokenFree s := by
  rintro a e n e' b rfl
  exact h (x ++ a) e n e' b (by simp)

theorem Written.of_append {x : List Char} (h : paths.Written (x ++ s)) : paths.Written s := by
  rintro a y b rfl
  exact h (x ++ a) y b (by simp)

/-! ### Tokens and directories -/

theorem clear_of_absolute {dir piece : List Char} (hdir : ∃ rest, dir = '/' :: rest)
    (h : '/' ∉ small piece) : Clear dir piece := by
  obtain ⟨rest, rfl⟩ := hdir
  refine clear_of_forall_ne fun c hc heq => h ?_
  have hslash : ('/' : Char).toLower = '/' := by decide
  rw [← hslash, ← heq]
  exact List.mem_map_of_mem hc

theorem ne_nil_of_absolute {dir : List Char} (hdir : ∃ rest, dir = '/' :: rest) : dir ≠ [] := by
  obtain ⟨rest, rfl⟩ := hdir
  exact List.cons_ne_nil _ _

theorem clear_name {token name : List Char} (htoken : ∃ rest, token = '%' :: rest)
    (h : '%' ∉ small name) : Clear token name := by
  obtain ⟨rest, rfl⟩ := htoken
  refine clear_of_forall_ne fun c hc heq => h ?_
  have hpercent : ('%' : Char).toLower = '%' := by decide
  rw [← hpercent, ← heq]
  exact List.mem_map_of_mem hc

theorem clear_metadata_init : Clear virtualDataPath ('%' :: metadataPath) := by
  have hlater : Clear virtualDataPath metadataPath := clear_name ⟨_, rfl⟩ (by decide)
  rintro (_ | ⟨c, a⟩) b hab hne rest hbegins
  · obtain rfl : '%' :: metadataPath = b := hab
    exact absurd (begins_cons_iff.mp (begins_cons_iff.mp hbegins).2).1 (by decide)
  · exact hlater a b (List.cons.inj hab).2 hne rest hbegins

theorem virtualDataPath_ne_nil : virtualDataPath ≠ [] := List.cons_ne_nil _ _

theorem virtualInternalMetadataPath_ne_nil : virtualInternalMetadataPath ≠ [] :=
  List.cons_ne_nil _ _

/-! ### The four replacements -/

def reverseData (paths : ServerPaths) (s : List Char) : List Char :=
  replaceIgnoreAsciiCaseFrom paths.dataPath virtualDataPath 0 s

def reverseMetadata (paths : ServerPaths) (s : List Char) : List Char :=
  replaceIgnoreAsciiCaseFrom paths.internalMetadataPath virtualInternalMetadataPath 0 s

def expandData (paths : ServerPaths) (s : List Char) : List Char :=
  replaceIgnoreAsciiCaseFrom virtualDataPath paths.dataPath 0 s

def expandMetadata (paths : ServerPaths) (s : List Char) : List Char :=
  replaceIgnoreAsciiCaseFrom virtualInternalMetadataPath paths.internalMetadataPath 0 s

def back (paths : ServerPaths) (s : List Char) : List Char :=
  paths.expandMetadata (paths.expandData (paths.reverseMetadata (paths.reverseData s)))

namespace Sound

variable (h : paths.Sound)
include h

theorem data_ne_nil : paths.dataPath ≠ [] := ne_nil_of_absolute h.data_absolute

theorem metadata_ne_nil : paths.internalMetadataPath ≠ [] :=
  ne_nil_of_absolute h.metadata_absolute

theorem expand_eq (s : List Char) :
    VirtualPathExpander.expand ⟨some paths⟩ s = paths.expandMetadata (paths.expandData s) := by
  simp only [VirtualPathExpander.expand, replaceIgnoreAsciiCase, h.data_ne_nil,
    h.metadata_ne_nil, virtualDataPath_ne_nil, virtualInternalMetadataPath_ne_nil, or_self,
    if_false]
  rfl

theorem reverse_eq (s : List Char) :
    VirtualPathExpander.reverse ⟨some paths⟩ s = paths.reverseMetadata (paths.reverseData s) := by
  simp only [VirtualPathExpander.reverse, replaceIgnoreAsciiCase, h.data_ne_nil,
    h.metadata_ne_nil, virtualDataPath_ne_nil, virtualInternalMetadataPath_ne_nil, or_self,
    if_false]
  rfl

theorem metadata_begins (hs : Begins paths.internalMetadataPath (paths.reverseData s)) :
    ∃ y rest, s = y ++ rest ∧ small y = small paths.internalMetadataPath ∧
      paths.reverseData s = y ++ paths.reverseData rest :=
  begins_of_replaced h.data_ne_nil h.metadata_clear.1 hs

/-- Where a percent sign stands in the reversed path, one stood before or a directory. -/
theorem edge_of_percent (hs : Begins ['%'] (paths.reverseMetadata (paths.reverseData s))) :
    ∃ e b, s = e ++ b ∧ paths.IsEdge e := by
  by_cases hdata : Begins paths.dataPath s
  · obtain ⟨e, b, rfl, he⟩ := begins_iff.mp hdata
    exact ⟨e, b, rfl, .inr (.inl he)⟩
  · by_cases hmetadata : Begins paths.internalMetadataPath (paths.reverseData s)
    · obtain ⟨e, b, rfl, he, -⟩ := h.metadata_begins hmetadata
      exact ⟨e, b, rfl, .inr (.inr he)⟩
    · cases s with
      | nil =>
        rw [reverseData, replaceFrom_nil, reverseMetadata, replaceFrom_nil] at hs
        exact absurd (List.prefix_nil.mp hs) (List.cons_ne_nil _ _)
      | cons c s =>
        rw [reverseData, replaceFrom_cons hdata] at hmetadata hs
        rw [reverseMetadata, replaceFrom_cons hmetadata] at hs
        refine ⟨[c], s, rfl, .inl ?_⟩
        exact congrArg (fun d => [d]) (begins_cons_iff.mp hs).1.symm

/-- Where the end of a token stands in the reversed path, its name stood before an edge. -/
theorem name_of_begins {name : List Char} (hname : '%' ∉ small name)
    (hs : Begins (name ++ ['%']) (paths.reverseMetadata (paths.reverseData s))) :
    ∃ n e b, s = n ++ e ++ b ∧ small n = small name ∧ paths.IsEdge e := by
  have hbegins : Begins name (paths.reverseMetadata (paths.reverseData s)) := by
    refine List.IsPrefix.trans ?_ hs
    rw [small_append]
    exact List.prefix_append ..
  have hfirst : Clear virtualDataPath name := clear_name ⟨_, rfl⟩ hname
  have hsecond : Clear virtualInternalMetadataPath name := clear_name ⟨_, rfl⟩ hname
  obtain ⟨n, r, hr, hn, heq⟩ := begins_of_replaced h.metadata_ne_nil hsecond hbegins
  have hbefore : Begins name (paths.reverseData s) := hr ▸ begins_append hn r
  obtain ⟨n', b, rfl, hn', heq'⟩ := begins_of_replaced h.data_ne_nil hfirst hbefore
  have hlen : n.length = n'.length := by
    rw [← length_small n, hn, ← hn', length_small]
  obtain ⟨rfl, hb⟩ := List.append_inj (hr.symm.trans heq') hlen
  subst hb
  have hpercent : Begins ['%'] (paths.reverseMetadata (paths.reverseData b)) := by
    change Begins _ (replaceIgnoreAsciiCaseFrom _ _ 0 _) at hs
    rw [heq, Begins, small_append, small_append, hn] at hs
    exact (List.prefix_append_right_inj _).mp hs
  obtain ⟨e, b', rfl, he⟩ := h.edge_of_percent hpercent
  exact ⟨n, e, b', (List.append_assoc ..).symm, hn, he⟩

theorem name_of_begins_expanded {name : List Char} (hname : '%' ∉ small name)
    (hslash : '/' ∉ small name)
    (hs : Begins (name ++ ['%'])
      (paths.expandData (paths.reverseMetadata (paths.reverseData s)))) :
    ∃ n e b, s = n ++ e ++ b ∧ small n = small name ∧ paths.IsEdge e := by
  have hbegins : Begins name (paths.expandData (paths.reverseMetadata (paths.reverseData s))) := by
    refine List.IsPrefix.trans ?_ hs
    rw [small_append]
    exact List.prefix_append ..
  have hdata : Clear paths.dataPath name := clear_of_absolute h.data_absolute hslash
  obtain ⟨n, r, hr, hn, heq⟩ := begins_of_replaced virtualDataPath_ne_nil hdata hbegins
  refine h.name_of_begins hname ?_
  rw [hr, Begins, small_append, small_append, hn]
  refine (List.prefix_append_right_inj _).mpr ?_
  change Begins _ (replaceIgnoreAsciiCaseFrom _ _ 0 _) at hs
  rw [heq, Begins, small_append, small_append, hn] at hs
  have hpercent : Begins ['%'] (replaceIgnoreAsciiCaseFrom virtualDataPath paths.dataPath 0 r) :=
    (List.prefix_append_right_inj _).mp hs
  -- The first token begins with a percent sign itself.
  by_cases htoken : Begins virtualDataPath r
  · exact List.IsPrefix.trans (by decide) htoken
  · cases r with
    | nil => rwa [replaceFrom_nil] at hpercent
    | cons c r =>
      rw [replaceFrom_cons htoken] at hpercent
      exact begins_cons_iff.mpr ⟨(begins_cons_iff.mp hpercent).1, List.nil_prefix⟩

/-! ### There and back -/

theorem back_data {x : List Char} (hx : small x = small paths.dataPath) (s : List Char) :
    paths.back (x ++ s) = paths.dataPath ++ paths.back s := by
  have htoken : Clear paths.internalMetadataPath virtualDataPath :=
    clear_of_absolute h.metadata_absolute (by decide)
  unfold back
  rw [reverseData, replaceFrom_append h.data_ne_nil hx, reverseMetadata, replaceFrom_clear htoken,
    expandData, replaceFrom_append virtualDataPath_ne_nil rfl, expandMetadata,
    replaceFrom_clear h.data_clear.2]
  rfl

/-- A metadata directory comes back, unless a name follows it and an edge. -/
theorem back_metadata {x : List Char} (hfree : paths.TokenFree (x ++ s))
    (hx : small x = small paths.internalMetadataPath)
    (hreverse : paths.reverseData (x ++ s) = x ++ paths.reverseData s) :
    paths.back (x ++ s) = paths.internalMetadataPath ++ paths.back s := by
  unfold back
  rw [hreverse, reverseMetadata, replaceFrom_append h.metadata_ne_nil hx]
  have hlast : ¬Begins virtualDataPath ('%' :: replaceIgnoreAsciiCaseFrom
      paths.internalMetadataPath virtualInternalMetadataPath 0 (paths.reverseData s)) := by
    intro hbegins
    obtain ⟨n, e, b, rfl, hn, he⟩ :=
      h.name_of_begins (by decide) (begins_cons_iff.mp hbegins).2
    exact hfree [] x n e b (by simp) (.inr (.inr hx)) (.inl hn) he
  have hexpand : ∀ rest, ¬Begins virtualDataPath ('%' :: rest) →
      paths.expandData (virtualInternalMetadataPath ++ rest) =
        virtualInternalMetadataPath ++ paths.expandData rest := by
    intro rest hrest
    have hsplit : virtualInternalMetadataPath ++ rest = ('%' :: metadataPath) ++ '%' :: rest := by
      rw [virtualInternalMetadataPath, List.cons_append, List.append_assoc]
      rfl
    rw [hsplit, expandData, replaceFrom_clear clear_metadata_init, replaceFrom_cons hrest,
      virtualInternalMetadataPath, List.cons_append, List.cons_append, List.append_assoc]
    rfl
  rw [hexpand _ hlast, expandMetadata, replaceFrom_append virtualInternalMetadataPath_ne_nil rfl]
  rfl

/-- Any other character comes back, unless a name follows it and an edge. -/
theorem back_cons {c : Char} (hfree : paths.TokenFree (c :: s))
    (hdata : ¬Begins paths.dataPath (c :: s))
    (hmetadata : ¬Begins paths.internalMetadataPath (paths.reverseData (c :: s))) :
    paths.back (c :: s) = c :: paths.back s := by
  have hnot : ∀ name, IsName name → ∀ n e b, s = n ++ e ++ b → small n = small name →
      paths.IsEdge e → c.toLower ≠ '%' := by
    rintro name hname n e b rfl hn he hc
    refine hfree [] [c] n e b (by simp) (.inl (congrArg (fun d => [d]) hc)) ?_ he
    exact hname.imp hn.trans hn.trans
  have hpercent : ('%' : Char).toLower = '%' := by decide
  rw [reverseData, replaceFrom_cons hdata] at hmetadata
  unfold back
  rw [reverseData, replaceFrom_cons hdata, reverseMetadata, replaceFrom_cons hmetadata]
  have hfirst : ¬Begins virtualDataPath (c :: paths.reverseMetadata (paths.reverseData s)) := by
    intro hbegins
    obtain ⟨hc, hrest⟩ := begins_cons_iff.mp hbegins
    obtain ⟨n, e, b, hs, hn, he⟩ := h.name_of_begins (by decide) hrest
    exact hnot appDataPath (.inl rfl) n e b hs hn he (hc.symm.trans hpercent)
  have hexpandData : paths.expandData (c :: paths.reverseMetadata (paths.reverseData s)) =
      c :: paths.expandData (paths.reverseMetadata (paths.reverseData s)) :=
    replaceFrom_cons hfirst
  have hsecond : ¬Begins virtualInternalMetadataPath
      (c :: paths.expandData (paths.reverseMetadata (paths.reverseData s))) := by
    intro hbegins
    obtain ⟨hc, hrest⟩ := begins_cons_iff.mp hbegins
    obtain ⟨n, e, b, hs, hn, he⟩ := h.name_of_begins_expanded (by decide) (by decide) hrest
    exact hnot metadataPath (.inr rfl) n e b hs hn he (hc.symm.trans hpercent)
  change paths.expandMetadata (paths.expandData
    (c :: paths.reverseMetadata (paths.reverseData s))) = _
  rw [hexpandData]
  exact replaceFrom_cons hsecond

/-- **A path comes back**, but for the case of the directories. -/
theorem back_eq (s : List Char) (hfree : paths.TokenFree s) :
    small (paths.back s) = small s ∧ (paths.Written s → paths.back s = s) := by
  induction hn : s.length using Nat.strongRecOn generalizing s with
  | ind n ih =>
    subst hn
    -- A directory in front comes back as it is configured.
    have hdirectory : ∀ dir x rest, s = x ++ rest → dir ≠ [] → small x = small dir →
        paths.back s = dir ++ paths.back rest → (paths.Written s → x = dir) →
        small (paths.back s) = small s ∧ (paths.Written s → paths.back s = s) := by
      rintro dir x rest rfl hne hx hback hwritten
      have hpos : 0 < x.length := by
        rw [← length_small x, hx, length_small]
        exact List.length_pos_iff.mpr hne
      obtain ⟨hsmall, hexact⟩ := ih rest.length (by rw [List.length_append]; omega) rest
        hfree.of_append rfl
      rw [hback]
      refine ⟨by rw [small_append, small_append, hsmall, hx], fun hw => ?_⟩
      rw [hexact hw.of_append, hwritten hw]
    by_cases hdata : Begins paths.dataPath s
    · obtain ⟨x, rest, rfl, hx⟩ := begins_iff.mp hdata
      refine hdirectory _ x rest rfl h.data_ne_nil hx (h.back_data hx rest) fun hw => ?_
      exact (hw [] x rest rfl).1 hx
    · by_cases hmetadata : Begins paths.internalMetadataPath (paths.reverseData s)
      · obtain ⟨x, rest, rfl, hx, hreverse⟩ := h.metadata_begins hmetadata
        refine hdirectory _ x rest rfl h.metadata_ne_nil hx (h.back_metadata hfree hx hreverse)
          fun hw => ?_
        exact (hw [] x rest rfl).2 hx
      · cases s with
        | nil =>
          have hnil : paths.back [] = [] := by
            simp only [back, reverseData, reverseMetadata, expandData, expandMetadata,
              replaceFrom_nil]
          rw [hnil]
          exact ⟨rfl, fun _ => rfl⟩
        | cons c s =>
          have htail : paths.TokenFree s := TokenFree.of_append (x := [c]) hfree
          obtain ⟨hsmall, hexact⟩ := ih s.length (by simp) s htail rfl
          rw [h.back_cons hfree hdata hmetadata]
          refine ⟨congrArg (c.toLower :: ·) hsmall, fun hw => ?_⟩
          rw [hexact (Written.of_append (x := [c]) hw)]

/-- **What is expanded has no tokens**, and so is expanded to itself. -/
theorem expand_expand (s : List Char) :
    paths.expandMetadata (paths.expandData (paths.expandMetadata (paths.expandData s))) =
      paths.expandMetadata (paths.expandData s) := by
  have hdata : Clear paths.dataPath virtualDataPath :=
    clear_of_absolute h.data_absolute (by decide)
  have hmetadata : Clear paths.internalMetadataPath virtualDataPath :=
    clear_of_absolute h.metadata_absolute (by decide)
  have hmetadata' : Clear paths.internalMetadataPath virtualInternalMetadataPath :=
    clear_of_absolute h.metadata_absolute (by decide)
  have hfirst : Free virtualDataPath (paths.expandData s) :=
    free_replaced virtualDataPath_ne_nil h.data_clear.1 hdata fun _ _ _ hnot => hnot
  have hboth : Free virtualDataPath (paths.expandMetadata (paths.expandData s)) :=
    free_replaced virtualInternalMetadataPath_ne_nil h.metadata_clear.1 hmetadata
      fun a b hab _ => hfirst a b hab
  have hsecond : Free virtualInternalMetadataPath (paths.expandMetadata (paths.expandData s)) :=
    free_replaced virtualInternalMetadataPath_ne_nil h.metadata_clear.2 hmetadata'
      fun _ _ _ hnot => hnot
  generalize paths.expandMetadata (paths.expandData s) = t at hboth hsecond ⊢
  rw [expandData, replaceFrom_eq_self hboth, expandMetadata, replaceFrom_eq_self hsecond]

end Sound

end ServerPaths

/-- **Virtual paths denote the same file**: a path that is reversed and expanded is the same but for
letter case, and the same where it writes the directories as they are; and what is expanded is
expanded to itself. -/
theorem expand_reverse (expander : VirtualPathExpander)
    (hpaths : ∀ paths ∈ expander.paths, paths.Sound) :
    (∀ path, (∀ paths ∈ expander.paths, paths.TokenFree path) →
      small (expander.expand (expander.reverse path)) = small path ∧
      ((∀ paths ∈ expander.paths, paths.Written path) →
        expander.expand (expander.reverse path) = path)) ∧
    ∀ stored, expander.expand (expander.expand stored) = expander.expand stored := by
  obtain ⟨_ | paths⟩ := expander
  · exact ⟨fun _ _ => ⟨rfl, fun _ => rfl⟩, fun _ => rfl⟩
  · have h := hpaths paths rfl
    refine ⟨fun path hfree => ?_, fun stored => ?_⟩
    · rw [h.reverse_eq, h.expand_eq]
      obtain ⟨hsmall, hexact⟩ := h.back_eq path (hfree paths rfl)
      exact ⟨hsmall, fun hw => hexact (hw paths rfl)⟩
    · rw [h.expand_eq, h.expand_eq]
      exact h.expand_expand stored

def beside : ServerPaths := ⟨['/', 'd'], ['/', 'm']⟩

theorem beside_sound : beside.Sound where
  data_absolute := ⟨_, rfl⟩
  metadata_absolute := ⟨_, rfl⟩
  data_clear := ⟨ServerPaths.clear_name ⟨_, rfl⟩ (by decide),
    ServerPaths.clear_name ⟨_, rfl⟩ (by decide)⟩
  metadata_clear := ⟨ServerPaths.clear_name ⟨_, rfl⟩ (by decide),
    ServerPaths.clear_name ⟨_, rfl⟩ (by decide)⟩

theorem expand_reverse_beside :
    small (VirtualPathExpander.expand ⟨some beside⟩
      (VirtualPathExpander.reverse ⟨some beside⟩ ['/', 'D', '/', 'x'])) = ['/', 'd', '/', 'x'] := by
  have hfree : beside.TokenFree ['/', 'D', '/', 'x'] := by
    intro a e n e' b hab _ hname _
    have hlen := congrArg List.length hab
    have hn : 11 ≤ n.length := by
      rcases hname with hname | hname
      · rw [← length_small n, hname]
        decide
      · rw [← length_small n, hname]
        decide
    simp only [List.length_append, List.length_cons, List.length_nil] at hlen
    omega
  have h := (expand_reverse ⟨some beside⟩ fun paths hpaths =>
    Option.some.inj hpaths ▸ beside_sound).1 _ fun paths hpaths => Option.some.inj hpaths ▸ hfree
  exact h.1.trans (by decide)

/-- **A path comes back in another case** when it does not write a directory as it is. -/
theorem expand_reverse_other_case :
    VirtualPathExpander.expand ⟨some beside⟩
        (VirtualPathExpander.reverse ⟨some beside⟩ ['/', 'D', '/', 'x']) ≠ ['/', 'D', '/', 'x'] ∧
      Free virtualDataPath ['/', 'D', '/', 'x'] ∧
      Free virtualInternalMetadataPath ['/', 'D', '/', 'x'] := by
  have hfree : ∀ {token : List Char}, 4 < token.length → Free token ['/', 'D', '/', 'x'] := by
    intro token hlong a b hab hbegins
    have hle := hbegins.length_le
    have hlen := congrArg List.length hab
    rw [length_small, length_small] at hle
    simp only [List.length_append, List.length_cons, List.length_nil] at hlen
    omega
  exact ⟨by decide, hfree (by decide), hfree (by decide)⟩

end Ferrofin.Libraries
