import Mathlib.Data.List.DropRight

/-!
# Paths

Paths are texts, here lists of characters, and the code takes them apart as such.  This
file has what `std::path::Path` does to them.
-/

namespace Ferrofin.Util

open List (foldl_cons mem_cons mem_cons_of_mem mem_cons_self mem_singleton not_mem_nil
  splitOn_append_cons_self splitOn_eq_singleton splitOn_ne_nil)

abbrev Path := List Char

def segments (p : Path) : List Path := p.splitOn '/'

/-- The path of segments; the root keeps its separator. -/
def joinSegments (segments : List Path) : Path :=
  if segments = [[]] then ['/'] else ['/'].intercalate segments

def isBlank (segment : Path) : Bool := segment == [] || segment == ['.']

def dropBlank (segments : List Path) : List Path := segments.rdropWhile isBlank

def parent (p : Path) : Option Path :=
  match segments p with
  | [] => none
  | first :: rest =>
    if dropBlank rest = [] then
      if first = [] then none else some []
    else some (joinSegments (first :: dropBlank (dropBlank rest).dropLast))

def fileName (p : Path) : Option Path :=
  match segments p with
  | [] => none
  | first :: rest =>
    ((dropBlank rest).getLast?.getD first |> some).filter fun name =>
      name ≠ [] ∧ name ≠ ['.'] ∧ name ≠ ['.', '.']

/-- A file name after and before its last dot (`rsplit_file_at_dot`); a name that only
starts with a dot has no extension. -/
def splitAtDot (name : Path) : Path × Option Path :=
  let after := (name.reverse.takeWhile (· ≠ '.')).reverse
  let before := name.take (name.length - after.length - 1)
  if '.' ∈ name ∧ before ≠ [] then (before, some after) else (name, none)

def extension (p : Path) : Option Path := (fileName p).bind fun name => (splitAtDot name).2

def fileStem (p : Path) : Option Path := (fileName p).map fun name => (splitAtDot name).1

def join (base name : Path) : Path :=
  if base = [] ∨ name.head? = some '/' then name
  else if base.getLast? = some '/' then base ++ name
  else base ++ '/' :: name

inductive Component where
  | rootDir
  | curDir
  | parentDir
  | normal (name : Path)
deriving DecidableEq

def component (segment : Path) : Component :=
  if segment = ['.'] then .curDir else if segment = ['.', '.'] then .parentDir else .normal segment

/-- `Path::components`: a segment that says nothing counts only as the first. -/
def components (p : Path) : List Component :=
  match segments p with
  | [] => []
  | first :: rest =>
    (if first ≠ [] then [component first] else if rest ≠ [] then [.rootDir] else []) ++
      (rest.filter (!isBlank ·)).map component

def startsWith (p base : Path) : Bool := (components base).isPrefixOf (components p)

/-- A name: no separator is in it, and it is none of the special ones. -/
structure IsName (name : Path) : Prop where
  noSeparator : '/' ∉ name
  notBlank : isBlank name = false
  notParent : name ≠ ['.', '.']

theorem IsName.ne_nil {name : Path} (h : IsName name) : name ≠ [] := by
  rintro rfl
  exact absurd h.notBlank (by decide)

theorem IsName.fileName_self {name : Path} (h : IsName name) : fileName name = some name := by
  have hblank := h.notBlank
  have hparent := h.notParent
  have hsegments : segments name = [name] := splitOn_eq_singleton h.noSeparator
  simp only [isBlank, Bool.or_eq_false_iff, beq_eq_false_iff_ne] at hblank
  rw [fileName, hsegments]
  simp [dropBlank, hblank, hparent]

theorem IsName.fileName_append {name : Path} (h : IsName name) (base : Path) :
    fileName (base ++ '/' :: name) = some name := by
  have hblank := h.notBlank
  have hparent := h.notParent
  have hsegments : segments (base ++ '/' :: name) = segments base ++ [name] := by
    rw [segments, splitOn_append_cons_self, splitOn_eq_singleton h.noSeparator]
    rfl
  simp only [fileName, hsegments]
  cases hbase : segments base with
  | nil => exact absurd hbase (splitOn_ne_nil '/' base)
  | cons first rest =>
    have hdrop : dropBlank (rest ++ [name]) = rest ++ [name] :=
      List.rdropWhile_concat_neg _ _ _ (by simp [hblank])
    simp only [isBlank, Bool.or_eq_false_iff, beq_eq_false_iff_ne] at hblank
    rw [List.cons_append]
    simp [hdrop, hblank, hparent]

theorem IsName.fileName_join {name : Path} (h : IsName name) (base : Path) :
    fileName (join base name) = some name := by
  unfold join
  split
  · exact h.fileName_self
  split
  · next hlast =>
    obtain ⟨front, rfl⟩ := List.getLast?_eq_some_iff.mp hlast
    rw [List.append_assoc]
    exact h.fileName_append front
  · exact h.fileName_append base

theorem splitAtDot_append {stem ext : Path} (hs : stem ≠ []) (he : '.' ∉ ext) :
    splitAtDot (stem ++ '.' :: ext) = (stem, some ext) := by
  have hafter : ((stem ++ '.' :: ext).reverse.takeWhile (· ≠ '.')).reverse = ext := by
    have hrev : (stem ++ '.' :: ext).reverse = ext.reverse ++ '.' :: stem.reverse := by simp
    rw [hrev, List.takeWhile_append_of_pos fun c hc => by
      simp only [ne_eq, decide_eq_true_eq]
      rintro rfl
      exact he (List.mem_reverse.mp hc)]
    simp
  have hbefore :
      (stem ++ '.' :: ext).take ((stem ++ '.' :: ext).length - ext.length - 1) = stem := by
    have hlength : (stem ++ '.' :: ext).length - ext.length - 1 = stem.length := by
      simp only [List.length_append, List.length_cons]
      omega
    rw [hlength, List.take_left']
    rfl
  simp only [splitAtDot, hafter, hbefore]
  rw [if_pos ⟨by simp, hs⟩]

theorem startsWith_root (p : Path) : startsWith ('/' :: p) ['/'] = true := by
  have hsegments : segments ('/' :: p) = [] :: segments p := splitOn_append_cons_self [] p
  have hne : segments p ≠ [] := splitOn_ne_nil '/' p
  have hroot : components ['/'] = [.rootDir] := rfl
  rw [startsWith, hroot, components, hsegments]
  simp [hne]

/-! ### Names below a folder -/

def trimSeparator (p : Path) : Path := if p.getLast? = some '/' then p.dropLast else p

def IsBelow (root p : Path) : Prop :=
  ∃ names : List Path, names ≠ [] ∧ (∀ name ∈ names, IsName name) ∧ p = names.foldl join root

theorem trimSeparator_append_cons (base : Path) : trimSeparator (base ++ ['/']) = base := by
  simp [trimSeparator]

theorem trimSeparator_join {base name : Path} (h : '/' ∉ name) (hne : name ≠ []) :
    trimSeparator (base ++ '/' :: name) = base ++ '/' :: name := by
  have hlast : (base ++ '/' :: name).getLast? ≠ some '/' := by
    rw [List.getLast?_append, List.getLast?_cons, List.getLast?_eq_some_getLast hne]
    intro hsep
    exact h (Option.some.inj hsep ▸ List.getLast_mem hne)
  rw [trimSeparator, if_neg hlast]

theorem join_eq_append {base name : Path} (hbase : base ≠ []) (h : '/' ∉ name) :
    join base name = trimSeparator base ++ '/' :: name := by
  have hhead : name.head? ≠ some '/' := fun hsep => h (List.mem_of_mem_head? hsep)
  rw [join, if_neg (by simp [hbase, hhead]), trimSeparator]
  split
  · next hlast =>
    obtain ⟨front, rfl⟩ := List.getLast?_eq_some_iff.mp hlast
    simp
  · rfl

theorem join_ne_nil {base : Path} (hbase : base ≠ []) {name : Path} (h : '/' ∉ name) :
    join base name ≠ [] := by
  rw [join_eq_append hbase h]
  simp

theorem join_join_nil {base name : Path} (hbase : base ≠ []) (h : '/' ∉ name) :
    join (join base []) name = join base name := by
  rw [join_eq_append (join_ne_nil hbase not_mem_nil) h, join_eq_append hbase not_mem_nil,
    trimSeparator_append_cons, join_eq_append hbase h]

theorem foldl_join_ne_nil {names : List Path} (hnames : ∀ name ∈ names, '/' ∉ name) {base : Path}
    (hbase : base ≠ []) : names.foldl join base ≠ [] := by
  induction names generalizing base with
  | nil => exact hbase
  | cons name names ih =>
    exact ih (fun n hn => hnames n (mem_cons_of_mem _ hn))
      (join_ne_nil hbase (hnames name (mem_cons_self ..)))

theorem foldl_join_append_nil {front back : List Path} (hfront : ∀ name ∈ front, '/' ∉ name)
    (hback : ∀ name ∈ back, '/' ∉ name) (hne : back ≠ []) {base : Path} (hbase : base ≠ []) :
    (front ++ [] :: back).foldl join base = (front ++ back).foldl join base := by
  obtain ⟨name, back, rfl⟩ := List.exists_cons_of_ne_nil hne
  rw [List.foldl_append, List.foldl_append, foldl_cons, foldl_cons, foldl_cons,
    join_join_nil (foldl_join_ne_nil hfront hbase) (hback name (mem_cons_self ..))]

theorem segments_foldl_join {names : List Path} (hnames : ∀ name ∈ names, '/' ∉ name ∧ name ≠ [])
    (hne : names ≠ []) {base : Path} (hbase : base ≠ []) :
    segments (names.foldl join base) = segments (trimSeparator base) ++ names := by
  induction names generalizing base with
  | nil => exact absurd rfl hne
  | cons name names ih =>
    obtain ⟨hsep, hname⟩ := hnames name (mem_cons_self ..)
    have hfirst : segments (join base name) = segments (trimSeparator base) ++ [name] := by
      rw [join_eq_append hbase hsep, segments, splitOn_append_cons_self,
        splitOn_eq_singleton hsep]
      rfl
    rw [foldl_cons]
    by_cases hnil : names = []
    · rw [hnil, List.foldl_nil, hfirst]
    · rw [ih (fun n hn => hnames n (mem_cons_of_mem _ hn)) hnil (join_ne_nil hbase hsep),
        join_eq_append hbase hsep, trimSeparator_join hsep hname, ← join_eq_append hbase hsep,
        hfirst, List.append_assoc, List.singleton_append]

theorem isBelow_foldl_join {names : List Path} (hnames : ∀ name ∈ names, '/' ∉ name ∧ name ≠ [])
    (hne : names ≠ []) {base : Path} (hbase : base ≠ []) :
    IsBelow base (names.foldl join base) ↔ ∀ name ∈ names, IsName name := by
  refine ⟨fun ⟨others, hothers, hall, heq⟩ => ?_, fun hall => ⟨names, hne, hall, rfl⟩⟩
  have hsegments := congrArg segments heq
  rw [segments_foldl_join hnames hne hbase,
    segments_foldl_join (fun n hn => ⟨(hall n hn).noSeparator, (hall n hn).ne_nil⟩) hothers hbase]
    at hsegments
  rw [List.append_cancel_left hsegments]
  exact hall

theorem length_le_of_mem_segments {p name : Path} (h : name ∈ segments p) :
    name.length ≤ p.length := by
  have hp : p = ['/'].intercalate (segments p) := (List.intercalate_splitOn '/').symm
  rw [hp]
  generalize segments p = names at h
  induction names with
  | nil => cases h
  | cons first rest ih =>
    cases rest with
    | nil =>
      rw [mem_singleton.mp h]
      simp [List.intercalate]
    | cons second rest =>
      have hlength : (['/'].intercalate (first :: second :: rest)).length =
          first.length + 1 + (['/'].intercalate (second :: rest)).length := by
        simp [List.intercalate, List.intersperse]
        omega
      rw [hlength]
      rcases mem_cons.mp h with rfl | h
      · omega
      · have := ih h
        omega

theorem IsName.component_eq {name : Path} (h : IsName name) : component name = .normal name := by
  have hblank := h.notBlank
  simp only [isBlank, Bool.or_eq_false_iff, beq_eq_false_iff_ne] at hblank
  rw [component, if_neg hblank.2, if_neg h.notParent]

theorem IsName.mem_components_join {name : Path} (h : IsName name) (base : Path) :
    .normal name ∈ components (join base name) := by
  by_cases hbase : base = []
  · have hsegments : segments (join base name) = [name] := by
      rw [join, if_pos (.inl hbase), segments, splitOn_eq_singleton h.noSeparator]
    simp [components, hsegments, h.ne_nil, h.component_eq]
  · have hsegments : segments (join base name) = segments (trimSeparator base) ++ [name] := by
      rw [join_eq_append hbase h.noSeparator, segments, splitOn_append_cons_self,
        splitOn_eq_singleton h.noSeparator]
      rfl
    obtain ⟨first, rest, hfirst⟩ :=
      List.exists_cons_of_ne_nil (splitOn_ne_nil '/' (trimSeparator base))
    rw [components, hsegments, show segments (trimSeparator base) = first :: rest from hfirst]
    refine List.mem_append_right _ (List.mem_map.mpr ⟨name, ?_, h.component_eq⟩)
    exact List.mem_filter.mpr ⟨by simp, by simp [h.notBlank]⟩

theorem component_eq_normal {segment name : Path} (h : component segment = .normal name) :
    segment = name := by
  unfold component at h
  split at h
  · cases h
  split at h
  · cases h
  · exact Component.normal.inj h

theorem mem_segments_of_mem_components {p name : Path} (h : .normal name ∈ components p) :
    name ∈ segments p := by
  unfold components at h
  split at h
  · cases h
  next first rest hp =>
  rw [hp]
  rcases List.mem_append.mp h with h | h
  · split at h
    · exact mem_cons.mpr (.inl (component_eq_normal (mem_singleton.mp h).symm).symm)
    split at h
    · cases mem_singleton.mp h
    · cases h
  · obtain ⟨segment, hmem, heq⟩ := List.mem_map.mp h
    exact component_eq_normal heq ▸ mem_cons_of_mem _ (List.mem_filter.mp hmem).1

theorem separator_not_mem {p segment : Path} (h : segment ∈ segments p) : '/' ∉ segment := by
  induction p generalizing segment with
  | nil =>
    rw [mem_singleton.mp h]
    exact not_mem_nil
  | cons c p ih =>
    rw [segments, List.splitOn_cons_eq_if_modifyHead] at h
    split at h
    · rcases mem_cons.mp h with rfl | h
      · exact not_mem_nil
      · exact ih h
    · next hc =>
      cases hp : segments p with
      | nil => exact absurd hp (splitOn_ne_nil '/' p)
      | cons first rest =>
        rw [show p.splitOn '/' = first :: rest from hp] at h
        rcases mem_cons.mp h with rfl | h
        · simp only [beq_iff_eq] at hc
          simp [ih (hp ▸ mem_cons_self ..), Ne.symm hc]
        · exact ih (hp ▸ mem_cons_of_mem _ h)

theorem dropBlank_subset (names : List Path) : dropBlank names ⊆ names :=
  (List.rdropWhile_prefix isBlank names).subset

theorem isBlank_getLast? {names : List Path} {last : Path}
    (h : (dropBlank names).getLast? = some last) : isBlank last = false := by
  obtain ⟨front, hfront⟩ := List.getLast?_eq_some_iff.mp h
  have hne : dropBlank names ≠ [] := by simp [hfront]
  have hlast : (dropBlank names).getLast hne = last := by simp [hfront]
  have hget : ¬ isBlank ((dropBlank names).getLast hne) = true :=
    List.rdropWhile_last_not isBlank names hne
  rw [hlast] at hget
  exact Bool.not_eq_true _ ▸ hget

theorem separator_not_mem_fileName {p name : Path} (h : fileName p = some name) : '/' ∉ name := by
  unfold fileName at h
  split at h
  · cases h
  · next first rest hp =>
    have hmem : (dropBlank rest).getLast?.getD first ∈ first :: rest := by
      cases hlast : (dropBlank rest).getLast? with
      | none => exact mem_cons_self ..
      | some last =>
        exact mem_cons_of_mem _ (dropBlank_subset rest (List.mem_of_getLast? hlast))
    obtain ⟨heq, -⟩ := Option.filter_eq_some_iff.mp h
    rw [← Option.some.inj heq]
    exact separator_not_mem (hp ▸ hmem)

theorem separator_not_mem_fileStem {p name : Path} (h : fileStem p = some name) : '/' ∉ name := by
  obtain ⟨file, hfile, rfl⟩ := Option.map_eq_some_iff.mp h
  have hsep := separator_not_mem_fileName hfile
  simp only [splitAtDot]
  split
  · exact fun hmem => hsep (List.mem_of_mem_take hmem)
  · exact hsep

theorem separator_not_mem_extension {p name : Path} (h : extension p = some name) :
    '/' ∉ name := by
  obtain ⟨file, hfile, hext⟩ := Option.bind_eq_some_iff.mp h
  have hsep := separator_not_mem_fileName hfile
  simp only [splitAtDot] at hext
  split at hext
  · rw [← Option.some.inj hext, List.mem_reverse]
    exact fun hmem =>
      hsep (List.mem_reverse.mp ((List.takeWhile_sublist _).subset hmem))
  · cases hext

theorem parent_of_segments {p first name : Path} {rest : List Path}
    (hp : segments p = first :: (rest ++ [name])) (hname : IsName name) :
    parent p = some (joinSegments (first :: dropBlank rest)) := by
  have hdrop : dropBlank (rest ++ [name]) = rest ++ [name] :=
    List.rdropWhile_concat_neg _ _ _ (by simp [hname.notBlank])
  simp [parent, hp, hdrop]

theorem IsName.parent_join {name p folder : Path} (hname : IsName name)
    (h : parent p = some folder) : parent (join folder name) = some folder := by
  unfold parent at h
  split at h
  · cases h
  next first rest hp =>
  split at h
  · split at h
    · cases h
    · cases h
      have hsegments : segments name = [name] := splitOn_eq_singleton hname.noSeparator
      have hjoin : join [] name = name := by simp [join]
      rw [hjoin, parent, hsegments]
      simp [dropBlank, hname.ne_nil]
  next hblank =>
  cases h
  have hfirst : '/' ∉ first := separator_not_mem (hp ▸ mem_cons_self ..)
  have hrest : ∀ segment ∈ dropBlank (dropBlank rest).dropLast, '/' ∉ segment := fun segment hs =>
    separator_not_mem (hp ▸ mem_cons_of_mem _ (dropBlank_subset _
      (List.dropLast_subset _ (dropBlank_subset _ hs))))
  have hidem : dropBlank (dropBlank (dropBlank rest).dropLast) =
      dropBlank (dropBlank rest).dropLast := List.rdropWhile_idempotent ..
  have hlast : (dropBlank (dropBlank rest).dropLast).getLast? ≠ some [] := by
    intro hnil
    cases isBlank_getLast? hnil
  generalize dropBlank (dropBlank rest).dropLast = parts at hrest hidem hlast ⊢
  by_cases hroot : first :: parts = [[]]
  · have hjoin : join ['/'] name = [] ++ '/' :: name :=
      join_eq_append (by simp) hname.noSeparator
    have hsegments : segments (join ['/'] name) = [] :: ([] ++ [name]) := by
      rw [hjoin, segments, splitOn_append_cons_self, splitOn_eq_singleton
        hname.noSeparator]
      rfl
    rw [joinSegments, if_pos hroot, parent_of_segments hsegments hname]
    rfl
  · have hjoined : segments (joinSegments (first :: parts)) = first :: parts := by
      rw [joinSegments, if_neg hroot]
      refine List.splitOn_intercalate '/' (fun segment hs => ?_) (List.cons_ne_nil _ _)
      rcases mem_cons.mp hs with rfl | hs
      · exact hfirst
      · exact hrest segment hs
    have hne : joinSegments (first :: parts) ≠ [] := by
      intro hnil
      rw [hnil] at hjoined
      exact hroot hjoined.symm
    have htrim : trimSeparator (joinSegments (first :: parts)) = joinSegments (first :: parts) := by
      rw [trimSeparator, if_neg]
      intro hsep
      obtain ⟨front, hfront⟩ := List.getLast?_eq_some_iff.mp hsep
      have hsplit : segments (front ++ ['/']) = segments front ++ [[]] :=
        splitOn_append_cons_self front []
      have hcons : segments front ++ [[]] = first :: parts := by
        rw [← hsplit, ← hfront, hjoined]
      cases hparts : segments front with
      | nil => exact absurd hparts (splitOn_ne_nil '/' front)
      | cons head tail =>
        rw [hparts, List.cons_append] at hcons
        rw [← (List.cons.inj hcons).2] at hlast
        exact hlast (by simp)
    have hsegments : segments (join (joinSegments (first :: parts)) name) =
        first :: (parts ++ [name]) := by
      rw [join_eq_append hne hname.noSeparator, htrim, segments, splitOn_append_cons_self,
        splitOn_eq_singleton hname.noSeparator]
      exact congrArg (· ++ [name]) hjoined
    rw [parent_of_segments hsegments hname, hidem]

end Ferrofin.Util
