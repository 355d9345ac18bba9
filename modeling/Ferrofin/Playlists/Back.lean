import Ferrofin.Playlists.Locations
import Mathlib.Data.Set.List

/-!
# There and back

A relative path is trimmed when it is read, and a line of an `.m3u` file that starts with `#` is no
path.  So an entry is read back unless its path below the folder starts with a blank or, in an
`.m3u` file, with `#`; and unless the folder's text has a step up in it and starts as the entry does
(`readsBack_iff`).
-/

namespace Ferrofin.Playlists

open Util
open List (append_assoc append_nil dropWhile_cons foldl_append foldl_cons foldl_nil length_append
  length_cons length_nil map_append map_cons map_nil map_singleton nil_append)

variable {names s d : List Path} {name n p q t : Path} {cs up : List Component} {c : Char}
  {comments : Bool}

/-! ### Where parts lead to -/

theorem foldl_climb_names (names d : List Path) :
    (d.map Component.normal).foldl climb names = names ++ d := by
  induction d generalizing names with
  | nil => simp
  | cons n d ih =>
    rw [map_cons, foldl_cons, ih, climb, append_assoc, List.singleton_append]

theorem foldl_climb_up (names : List Path) (up : List Component) :
    (up.map fun _ => Component.parentDir).foldl climb names =
      names.take (names.length - up.length) := by
  induction up generalizing names with
  | nil => simp
  | cons c up ih =>
    rw [map_cons, foldl_cons, ih, climb, List.length_dropLast, length_cons,
      List.dropLast_eq_take, List.take_take]
    congr 1
    omega

theorem length_foldl_climb (names : List Path) (cs : List Component) :
    (cs.foldl climb names).length ≤ names.length + cs.length := by
  induction cs generalizing names with
  | nil => exact Nat.le_refl _
  | cons c cs ih =>
    have hstep : (climb names c).length ≤ names.length + 1 := by
      cases c <;> simp only [climb, length_append, List.length_dropLast, length_cons,
        length_nil] <;> omega
    have := ih (climb names c)
    rw [foldl_cons, length_cons]
    omega

theorem length_destination_lt (h : .parentDir ∈ cs) : (destination cs).length < cs.length := by
  obtain ⟨front, back, rfl⟩ := List.append_of_mem h
  have hfront := length_foldl_climb [] front
  rw [length_nil, Nat.zero_add] at hfront
  have hback := length_foldl_climb (climb (front.foldl climb []) .parentDir) back
  rw [climb, List.length_dropLast] at hback
  rw [destination, foldl_append, foldl_cons, length_append, length_cons, climb]
  omega

theorem destination_eq_iff (hcs : ∀ c ∈ cs, c = .parentDir ∨ ∃ name, c = .normal name)
    (hsplit : cs = s.map .normal ++ up) (hdiffer : up.head? ≠ (d.map Component.normal).head?) :
    destination (cs ++ (up.map (fun _ => .parentDir) ++ d.map .normal)) = s ++ d ↔
      (.parentDir ∈ cs → cs.head? ≠ (s ++ d).head?.map .normal) := by
  have hdestination : destination (cs ++ (up.map (fun _ => .parentDir) ++ d.map .normal)) =
      (destination cs).take ((destination cs).length - up.length) ++ d := by
    rw [destination, foldl_append, foldl_append, foldl_climb_names, foldl_climb_up]
    rfl
  rw [hdestination, List.append_cancel_right_eq]
  by_cases hparent : .parentDir ∈ cs
  · have hlength := length_destination_lt hparent
    rw [hsplit, length_append, List.length_map] at hlength
    rw [← hsplit] at hlength
    cases s with
    | nil =>
      have hzero : (destination cs).length - up.length = 0 := by
        rw [length_nil] at hlength
        omega
      rw [hzero, hsplit, List.take_zero]
      refine iff_of_true rfl fun _ => ?_
      rw [map_nil, nil_append, nil_append, ← List.head?_map]
      exact hdiffer
    | cons name s =>
      refine iff_of_false (fun heq => ?_) fun h => ?_
      · have := congrArg List.length heq
        rw [List.length_take, length_cons] at this
        rw [length_cons] at hlength
        omega
      · refine h hparent ?_
        rw [hsplit]
        rfl
  · obtain ⟨u, rfl⟩ : up ∈ Set.range (List.map Component.normal) := by
      rw [Set.range_list_map]
      intro c hc
      have hmem : c ∈ cs := by
        rw [hsplit]
        exact List.mem_append_right _ hc
      rcases hcs c hmem with rfl | ⟨name, rfl⟩
      · exact absurd hmem hparent
      · exact ⟨name, rfl⟩
    have hself : destination cs = s ++ u := by
      rw [hsplit, ← map_append, destination, foldl_climb_names]
      rfl
    refine iff_of_true ?_ fun h => absurd h hparent
    rw [hself, length_append, List.length_map, Nat.add_sub_cancel, List.take_left']
    rfl

/-! ### Trimming -/

theorem trimChars_of_getLast? (h : ∀ c, t.getLast? = some c → isWhitespace c = false) :
    trimChars t = t.dropWhile isWhitespace := by
  have hlast : ∀ c, (t.dropWhile isWhitespace).getLast? = some c → isWhitespace c = false := by
    intro c hc
    refine h c ?_
    have hsplit := List.takeWhile_append_dropWhile (p := isWhitespace) (l := t)
    rw [← hsplit, List.getLast?_append, hc]
    rfl
  rw [trimChars]
  generalize t.dropWhile isWhitespace = rest at hlast
  rcases List.eq_nil_or_concat' rest with rfl | ⟨front, last, rfl⟩
  · rfl
  · have hblank := hlast last List.getLast?_concat
    rw [List.reverse_append, List.reverse_singleton, List.singleton_append, dropWhile_cons,
      if_neg (by simp [hblank])]
    simp

/-! ### What is kept -/

/-- The path that is kept of a text in a file, where `#` may start a comment. -/
def kept (comments : Bool) (text : Text) : Option Text :=
  if trimChars text = [] ∨ comments ∧ (trimChars text).head? = some '#' then none
  else some (trimChars text)

/-- The entry is read back from a folder with these parts. -/
def ReadsBack (comments : Bool) (dir : List Component) (names : List Path) : Prop :=
  (.parentDir ∈ dir → dir.head? ≠ names.head?.map .normal) ∧
    ∀ name, dir ++ [.normal name] <+: names.map .normal →
      ∀ c, name.head? = some c → isWhitespace c = false ∧ (comments → c ≠ '#')

theorem makeAbsolute_of_relative (ht : t.head? ≠ some '/') (q : Path) :
    makeAbsolute (some ('/' :: q)) t = absolute (destination (parts q ++ parts t)) ∧
      ∀ name ∈ destination (parts q ++ parts t), IsName name := by
  obtain ⟨r, hjoin, hparts⟩ := parts_join ht q
  have hrelative : isAbsolute t = false := by simpa [isAbsolute] using ht
  rw [makeAbsolute, hrelative, if_neg Bool.false_ne_true, hjoin, ← hparts]
  exact normalize_eq r

theorem makeAbsolute_of_absolute (dir : Option Path) (q : Path) :
    makeAbsolute dir ('/' :: q) = absolute (destination (parts q)) ∧
      ∀ name ∈ destination (parts q), IsName name := by
  cases dir with
  | none => exact normalize_eq q
  | some dir => exact normalize_eq q

theorem makeAbsolute_absolute (dir : Option Path) (h : ∀ name ∈ names, IsName name) :
    makeAbsolute dir (absolute names) = absolute names := by
  rw [absolute, (makeAbsolute_of_absolute dir _).1, parts_below_names h, destination,
    foldl_climb_names]
  rfl

theorem destination_ne (hs : parts q = s.map .normal) (hshort : p.length < n.length)
    (hsep : '/' ∉ p) :
    destination (parts q ++ (parts p ++ d.map .normal)) ≠ s ++ n :: d := by
  intro heq
  rw [hs, destination, foldl_append, foldl_append, foldl_climb_names, foldl_climb_names,
    nil_append] at heq
  have hlength := congrArg List.length heq
  rw [length_append, length_append, length_cons] at hlength
  by_cases hblank : isBlank p
  · have hparts : parts p = [] := by
      rw [parts, segments, List.splitOn_eq_singleton hsep]
      simp [hblank]
    rw [hparts, foldl_nil] at hlength
    omega
  · rw [parts_of_notMem hsep (by simpa using hblank)] at heq hlength
    by_cases hparent : p = ['.', '.']
    · have hcomponent : component p = .parentDir := by rw [hparent]; rfl
      rw [hcomponent, foldl_cons, foldl_nil, climb, List.length_dropLast] at hlength
      omega
    · have hname : IsName p := ⟨hsep, by simpa using hblank, hparent⟩
      rw [hname.component_eq, foldl_cons, foldl_nil, climb, append_assoc,
        List.append_cancel_left_eq, List.singleton_append, List.cons.injEq] at heq
      rw [heq.1] at hshort
      exact Nat.lt_irrefl _ hshort

/-- The entry in the folder, whose text starts with a blank, is read as another one. -/
theorem makeAbsolute_ne_of_blank (hd : ∀ name ∈ n :: d, IsName name)
    (hs : ∀ name ∈ s, IsName name) (hq : parts q = s.map .normal) (hhead : n.head? = some c)
    (hc : isWhitespace c = true)
    (hlast : ∀ c, (below (n :: d)).getLast? = some c → isWhitespace c = false) :
    makeAbsolute (some ('/' :: q)) (trimChars (below (n :: d))) ≠ absolute (s ++ n :: d) := by
  have hnames : ∀ name ∈ s ++ n :: d, IsName name := fun name hname =>
    (List.mem_append.mp hname).elim (hs name) (hd name)
  rw [List.forall_mem_cons] at hd
  have hsep : '/' ∉ n.dropWhile isWhitespace := fun hmem =>
    hd.1.noSeparator ((List.dropWhile_sublist _).subset hmem)
  have hshort : (n.dropWhile isWhitespace).length < n.length := by
    obtain ⟨rest, rfl⟩ := List.head?_eq_some_iff.mp hhead
    rw [dropWhile_cons, if_pos hc, length_cons]
    exact Nat.lt_succ_of_le (List.dropWhile_sublist _).length_le
  have hne : ∀ t, t.head? ≠ some '/' →
      parts t = parts (n.dropWhile isWhitespace) ++ d.map .normal →
      makeAbsolute (some ('/' :: q)) t ≠ absolute (s ++ n :: d) := by
    intro t ht hparts heq
    obtain ⟨hresult, hgood⟩ := makeAbsolute_of_relative ht q
    rw [hresult] at heq
    refine destination_ne hq hshort hsep (d := d) ?_
    rw [← hparts]
    exact absolute_injective hgood hnames heq
  rw [trimChars_of_getLast? hlast]
  by_cases hnil : d = []
  · subst hnil
    rw [below, List.intercalate_singleton]
    refine hne _ (fun hslash => hsep (List.mem_of_mem_head? hslash)) ?_
    rw [map_nil, append_nil]
  · rw [below_cons hnil, List.dropWhile_append]
    split
    · next hempty =>
      have hslash : ('/' :: below d).dropWhile isWhitespace = '/' :: below d := rfl
      rw [hslash]
      intro heq
      obtain ⟨hresult, hgood⟩ := makeAbsolute_of_absolute (some ('/' :: q)) (below d)
      rw [hresult] at heq
      have hlength := congrArg List.length (absolute_injective hgood hnames heq)
      rw [parts_below_names hd.2, destination, foldl_climb_names, length_append,
        length_append, length_cons, length_nil] at hlength
      omega
    · next hempty =>
      refine hne _ ?_ (by rw [parts_append, parts_below_names hd.2])
      obtain ⟨a, rest, hrest⟩ := List.exists_cons_of_ne_nil fun h => hempty (List.isEmpty_iff.mpr h)
      rw [hrest, List.cons_append, List.head?_cons]
      rintro heq
      rw [Option.some.inj heq] at hrest
      exact hsep (hrest ▸ List.mem_cons_self)

theorem kept_of_head (hhead : t.head? = some c) (hc : isWhitespace c = false)
    (hcomment : comments → c ≠ '#') (hlast : ∀ c, t.getLast? = some c → isWhitespace c = false) :
    kept comments t = some t := by
  obtain ⟨rest, rfl⟩ := List.head?_eq_some_iff.mp hhead
  have htrim : trimChars (c :: rest) = c :: rest := by
    rw [trimChars_of_getLast? hlast, dropWhile_cons, if_neg (by simp [hc])]
  rw [kept, htrim, if_neg]
  rintro (h | ⟨h, heq⟩)
  · cases h
  · exact hcomment h (Option.some.inj heq)

theorem kept_inside (hd : ∀ name ∈ n :: d, IsName name) (hs : ∀ name ∈ s, IsName name)
    (hq : parts q = s.map .normal)
    (hlast : ∀ c, (below (n :: d)).getLast? = some c → isWhitespace c = false) :
    (kept comments (below (n :: d))).map (makeAbsolute (some ('/' :: q))) =
        some (absolute (s ++ n :: d)) ↔
      ∀ c, n.head? = some c → isWhitespace c = false ∧ (comments → c ≠ '#') := by
  have hn := hd n List.mem_cons_self
  obtain ⟨c, rest, rfl⟩ := List.exists_cons_of_ne_nil hn.ne_nil
  have hslash : c ≠ '/' := fun h => hn.noSeparator (h ▸ List.mem_cons_self)
  have hhead : (below ((c :: rest) :: d)).head? = some c := head?_below (List.cons_ne_nil _ _) d
  have hfirst : (∀ c', (c :: rest).head? = some c' → isWhitespace c' = false ∧
      (comments → c' ≠ '#')) ↔ isWhitespace c = false ∧ (comments → c ≠ '#') := by
    simp only [List.head?_cons, Option.some.injEq]
    exact ⟨fun h => h c rfl, by rintro h _ rfl; exact h⟩
  rw [hfirst]
  cases hc : isWhitespace c with
  | true =>
    refine iff_of_false (fun heq => ?_) (fun h => by cases h.1)
    obtain ⟨t, ht, heq⟩ := Option.map_eq_some_iff.mp heq
    rw [kept] at ht
    split at ht
    · cases ht
    · rw [← Option.some.inj ht] at heq
      exact makeAbsolute_ne_of_blank hd hs hq rfl hc hlast heq
  | false =>
    by_cases hcomment : comments → c ≠ '#'
    · rw [kept_of_head hhead hc hcomment hlast, Option.map_some, Option.some.injEq]
      refine iff_of_true ?_ ⟨rfl, hcomment⟩
      rw [(makeAbsolute_of_relative (by simpa [hhead] using hslash) q).1, parts_below_names hd, hq,
        ← map_append, destination, foldl_climb_names, nil_append]
    · refine iff_of_false ?_ fun h => hcomment h.2
      obtain ⟨hcomments, hhash⟩ := not_forall.mp hcomment
      have htrim : trimChars (below ((c :: rest) :: d)) = below ((c :: rest) :: d) := by
        obtain ⟨tail, htail⟩ := List.head?_eq_some_iff.mp hhead
        rw [trimChars_of_getLast? hlast, htail, dropWhile_cons, if_neg (by simp [hc])]
      rw [kept, htrim, if_pos (.inr ⟨hcomments, hhead.trans (congrArg some (not_not.mp hhash))⟩)]
      exact nofun

theorem kept_outside (hcs : parts q = s.map .normal ++ up) (hup : up ≠ [])
    (hdiffer : up.head? ≠ (d.map Component.normal).head?) (hd : ∀ name ∈ d, IsName name)
    (hs : ∀ name ∈ s, IsName name)
    (hlast : ∀ last, d.getLast? = some last →
      ∀ c, last.getLast? = some c → isWhitespace c = false) :
    (kept comments (below (texts (up.map (fun _ => .parentDir) ++ d.map .normal)))).map
        (makeAbsolute (some ('/' :: q))) = some (absolute (s ++ d)) ↔
      (.parentDir ∈ parts q → (parts q).head? ≠ (s ++ d).head?.map .normal) := by
  have hsteps : ∀ c ∈ up.map (fun _ => Component.parentDir) ++ d.map .normal, IsPart c := by
    intro c hc
    rcases List.mem_append.mp hc with hc | hc
    · obtain ⟨-, -, rfl⟩ := List.mem_map.mp hc
      exact .inl rfl
    · obtain ⟨name, hname, rfl⟩ := List.mem_map.mp hc
      exact .inr ⟨name, hd name hname, rfl⟩
  have hnames : ∀ name ∈ s ++ d, IsName name := fun name hname =>
    (List.mem_append.mp hname).elim (hs name) (hd name)
  have hhead : (below (texts (up.map (fun _ => .parentDir) ++ d.map .normal))).head? =
      some '.' := by
    obtain ⟨a, rest, rfl⟩ := List.exists_cons_of_ne_nil hup
    rw [map_cons, List.cons_append, texts, map_cons]
    have hdots : (['.', '.'] : Path) ≠ [] := List.cons_ne_nil _ _
    exact head?_below hdots _
  have hend : ∀ c, (below (texts (up.map (fun _ => .parentDir) ++ d.map .normal))).getLast? =
      some c → isWhitespace c = false := by
    intro c hc
    rcases List.eq_nil_or_concat' d with rfl | ⟨front, last, rfl⟩
    · obtain ⟨front, last, rfl⟩ := (List.eq_nil_or_concat' up).resolve_left hup
      rw [map_nil, append_nil, map_append, map_singleton, texts,
        map_append, map_singleton, componentText,
        getLast?_below (by simp)] at hc
      rw [← Option.some.inj hc]
      rfl
    · rw [map_append, map_singleton, ← append_assoc, texts, map_append,
        map_singleton, componentText, getLast?_below (hd last (by simp)).ne_nil] at hc
      exact hlast last List.getLast?_concat c hc
  have hkept : kept comments _ = some _ := kept_of_head hhead rfl (fun _ => by decide) hend
  rw [hkept, Option.map_some, Option.some.injEq]
  obtain ⟨hresult, hgood⟩ := makeAbsolute_of_relative (by rw [hhead]; decide) q
  rw [hresult, parts_texts hsteps]
  rw [parts_texts hsteps] at hgood
  have hparts : ∀ c ∈ parts q, c = .parentDir ∨ ∃ name, c = .normal name := fun c hc =>
    (isPart_of_mem_parts hc).imp_right fun h => h.imp fun _ h => h.2
  rw [← destination_eq_iff hparts hcs hdiffer]
  exact ⟨absolute_injective hgood hnames, congrArg absolute⟩

theorem readsBack_iff (hnames : ∀ name ∈ names, IsName name)
    (hlast : ∀ c, (absolute names).getLast? = some c → isWhitespace c = false) :
    (kept comments (relativeTo (some ('/' :: q)) (absolute names))).map
        (makeAbsolute (some ('/' :: q))) = some (absolute names) ↔
      ReadsBack comments (parts q) names := by
  obtain ⟨shared, up, down, hq, hsplit, hsteps, hdiffer⟩ :=
    relativeSteps_eq (parts q) (names.map .normal)
  obtain ⟨s, d, rfl, rfl, rfl⟩ := List.map_eq_append_iff.mp hsplit
  have hs : ∀ name ∈ s, IsName name := fun name hname =>
    hnames name (List.mem_append_left _ hname)
  have hd : ∀ name ∈ d, IsName name := fun name hname =>
    hnames name (List.mem_append_right _ hname)
  have hend : ∀ last, d.getLast? = some last → ∀ c, last.getLast? = some c →
      isWhitespace c = false := by
    intro last hlastName c hc
    obtain ⟨front, rfl⟩ := List.getLast?_eq_some_iff.mp hlastName
    refine hlast c ?_
    have hbelow : (below (s ++ (front ++ [last]))).getLast? = some c := by
      rw [← append_assoc, getLast?_below (hd last (by simp)).ne_nil, hc]
    rw [absolute, List.getLast?_cons, hbelow]
    rfl
  rw [relativeTo_eq hnames, hsteps]
  by_cases hup : up = []
  · subst hup
    rw [append_nil] at hq
    have hparent : .parentDir ∉ parts q := by simp [hq]
    rw [map_nil, nil_append]
    cases d with
    | nil =>
      have hslash : ∀ c, (absolute s).getLast? = some c → isWhitespace c = false := by
        simpa using hlast
      rw [map_nil, if_pos rfl, append_nil, kept_of_head (c := '/') rfl rfl
        (fun _ => by decide) hslash, Option.map_some, makeAbsolute_absolute _ hs]
      refine iff_of_true rfl ⟨fun h => absurd h hparent, fun name hbegins => ?_⟩
      have hlength := hbegins.length_le
      rw [hq, length_append, List.length_singleton] at hlength
      omega
    | cons n d =>
      have hlastBelow : ∀ c, (below (n :: d)).getLast? = some c → isWhitespace c = false := by
        intro c hc
        obtain ⟨front, last, hconcat⟩ := (List.eq_nil_or_concat' (n :: d)).resolve_left (by simp)
        rw [hconcat, getLast?_below (hd last (by simp [hconcat])).ne_nil] at hc
        exact hend last (by rw [hconcat, List.getLast?_concat]) c hc
      have htexts : texts ((n :: d).map .normal) = n :: d := by
        rw [texts, List.map_map]
        exact List.map_id _
      rw [if_neg (by simp), htexts, kept_inside hd hs hq hlastBelow]
      constructor
      · refine fun h => ⟨fun hmem => absurd hmem hparent, fun name hbegins => ?_⟩
        rw [hq, map_append, List.prefix_append_right_inj, map_cons,
          List.cons_prefix_cons] at hbegins
        rw [Component.normal.inj hbegins.1]
        exact h
      · refine fun h => h.2 n ?_
        rw [hq, map_append, List.prefix_append_right_inj, map_cons,
          List.cons_prefix_cons]
        exact ⟨rfl, List.nil_prefix⟩
  · have hdiffer := hdiffer.resolve_left hup
    rw [if_neg (by simp [hup]), kept_outside hq hup hdiffer hd hs hend]
    refine ⟨fun h => ⟨h, fun name hbegins => ?_⟩, fun h => h.1⟩
    rw [hq, append_assoc, map_append, List.prefix_append_right_inj] at hbegins
    obtain ⟨a, rest, rfl⟩ := List.exists_cons_of_ne_nil hup
    obtain ⟨tail, htail⟩ := hbegins
    rw [← htail] at hdiffer
    exact absurd rfl hdiffer

end Ferrofin.Playlists
