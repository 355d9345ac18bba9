import Ferrofin.Versions.Rows

/-!
# What is loaded

The stored rows and their primaries make up a pointer graph (`VersionStore.primary`).  For each
queried item `load` reads every row above it, and below each of these every row with its versions
(`Loaded`).  Above: a row that was read has its primary read too, or wanted (`Climbing`).  Below: a
row that is known has its versions read, or is about to (`Descending`).
-/

namespace Ferrofin.Versions

open Lib

variable {ι : Type*} [LinearOrder ι]

/-! ### The graph of the stored rows -/

namespace VersionStore

variable {store : VersionStore ι} {row : BaseItemEntity ι} {id a b : ι}

def find (store : VersionStore ι) (id : ι) : Option (BaseItemEntity ι) :=
  store.rows.find? (·.id = id)

/-- The stored row that a stored row names as its primary. -/
def primary (store : VersionStore ι) (id : ι) : Option ι :=
  ((store.find id).bind (·.primaryVersionId)).filter fun primary => (store.find primary).isSome

theorem find_eq_some_iff : store.find id = some row ↔ row ∈ store.rows ∧ row.id = id := by
  constructor
  · intro h
    exact ⟨List.mem_of_find?_eq_some h, by simpa using List.find?_some h⟩
  · rintro ⟨hmem, rfl⟩
    rcases hfind : store.find row.id with _ | row'
    · exact (List.find?_eq_none.mp hfind row hmem (by simp)).elim
    · have hid : row'.id = row.id := by simpa using List.find?_some hfind
      rw [store.eq_of_id row' (List.mem_of_find?_eq_some hfind) row hmem hid]

theorem find_isSome_iff : (store.find id).isSome = true ↔ ∃ row ∈ store.rows, row.id = id := by
  rw [Option.isSome_iff_exists]
  exact exists_congr fun row => find_eq_some_iff

theorem primary_eq_some_iff : store.primary a = some b ↔
    (∃ row ∈ store.rows, row.id = a ∧ row.primaryVersionId = some b) ∧
      ∃ row ∈ store.rows, row.id = b := by
  rw [primary, Option.filter_eq_some_iff, Option.bind_eq_some_iff, find_isSome_iff]
  simp only [find_eq_some_iff, and_assoc]

theorem primary_eq_some_iff_of_mem (h : row ∈ store.rows) : store.primary row.id = some b ↔
    row.primaryVersionId = some b ∧ ∃ row ∈ store.rows, row.id = b := by
  rw [primary_eq_some_iff]
  refine and_congr_left fun _ => ⟨?_, fun hp => ⟨row, h, rfl, hp⟩⟩
  rintro ⟨row', hrow', hid, hp⟩
  rwa [← store.eq_of_id row' hrow' row h hid]

/-- `c` is a version of `b`: it names `b`, and is another row. -/
def IsVersion (store : VersionStore ι) (b c : ι) : Prop :=
  (∃ row ∈ store.rows, row.id = c ∧ row.primaryVersionId = some b) ∧ c ≠ b

theorem isVersion_iff (hstored : (store.find b).isSome = true) {c : ι} :
    store.IsVersion b c ↔ store.primary c = some b ∧ c ≠ b := by
  rw [IsVersion, primary_eq_some_iff, and_iff_left (find_isSome_iff.mp hstored)]

end VersionStore

variable {store : VersionStore ι} {reader : VersionRowReader store}
  {byId rows : KeyedMap ι (BaseItemEntity ι)} {queried found : List (BaseItemEntity ι)}
  {row : BaseItemEntity ι} {id : ι} {keys known : List ι} {out : VersionRows ι}

def RowsStored (store : VersionStore ι) (rows : KeyedMap ι (BaseItemEntity ι)) : Prop :=
  ∀ id row, rows.lookup id = some row → row ∈ store.rows ∧ row.id = id

theorem rowsStored_empty : RowsStored store ∅ := fun id row h => by
  rw [AList.lookup_empty] at h
  cases h

theorem RowsStored.insertRows {read : List (BaseItemEntity ι)} (h : RowsStored store rows)
    (hread : ∀ row ∈ read, row ∈ store.rows) : RowsStored store (insertRows rows read) := by
  intro id row hlookup
  rcases lookup_insertRows hlookup with ⟨hmem, hid⟩ | hold
  · exact ⟨hread row hmem, hid⟩
  · exact h id row hold

/-! ### Up -/

/-- The row's primary, where it is stored, has been read. -/
def Settled (store : VersionStore ι) (rows : KeyedMap ι (BaseItemEntity ι))
    (row : BaseItemEntity ι) : Prop :=
  ∀ primary, store.primary row.id = some primary → primary = row.id ∨ primary ∈ rows

structure Climbing (store : VersionStore ι) (byId : KeyedMap ι (BaseItemEntity ι))
    (queried : List (BaseItemEntity ι)) (rows : KeyedMap ι (BaseItemEntity ι)) (keys : List ι)
    (found : List (BaseItemEntity ι)) : Prop where
  rows_stored : RowsStored store rows
  byId_stored : RowsStored store byId
  found_stored : ∀ row ∈ found, row ∈ store.rows
  keys : ∀ id, id ∈ rows ∨ id ∈ byId → id ∈ keys
  pending : ∀ row, row ∈ queried ∨ rows.lookup row.id = some row →
    row ∈ found ∨ Settled store rows row

theorem Climbing.rows_wants (h : Climbing store byId queried rows keys found)
    {w : Wants ι} (hw : Wanted byId rows found w) : RowsStored store w.rows := by
  intro id row hlookup
  rcases hw.added id row hlookup with hold | ⟨hby, -⟩
  · exact h.rows_stored id row hold
  · exact h.byId_stored id row hby

theorem Climbing.round (reader : VersionRowReader store)
    (h : Climbing store byId queried rows keys found) {w : Wants ι}
    (hw : Wanted byId rows found w) :
    Climbing store byId queried (insertRows w.rows (reader.rowsById w.wanted))
      (keys ++ (reader.rowsById w.wanted).map (·.id))
      (w.climbing ++ reader.rowsById w.wanted) := by
  have hread : ∀ row ∈ reader.rowsById w.wanted, row ∈ store.rows := fun row hmem =>
    ((reader.mem_rowsById _ _).mp hmem).1
  -- Rows that were read before are still there.
  have hmono : ∀ id ∈ rows, id ∈ insertRows w.rows (reader.rowsById w.wanted) := by
    intro id hid
    obtain ⟨row, hrow⟩ := mem_rows_iff.mp hid
    exact mem_insertRows.mpr (.inl (mem_rows_iff.mpr ⟨row, hw.kept id row hrow⟩))
  have hsettled : ∀ row, row ∈ found ∨ Settled store rows row →
      Settled store (insertRows w.rows (reader.rowsById w.wanted)) row := by
    rintro row (hfound | hsettled) primary hprimary
    · obtain ⟨hname, row', hrow', hid'⟩ :=
        (VersionStore.primary_eq_some_iff_of_mem (h.found_stored row hfound)).mp hprimary
      rcases hw.covered row hfound primary hname with heq | hin | hwanted
      · exact .inl heq
      · exact .inr (mem_insertRows.mpr (.inl hin))
      · refine .inr (mem_insertRows.mpr (.inr ⟨row', ?_, hid'⟩))
        exact (reader.mem_rowsById _ _).mpr ⟨hrow', hid' ▸ hwanted⟩
    · exact (hsettled primary hprimary).imp_right (hmono primary)
  refine ⟨(h.rows_wants hw).insertRows hread, h.byId_stored, fun row hmem => ?_,
    fun id hid => ?_, fun row hrow => ?_⟩
  · rcases List.mem_append.mp hmem with hmem | hmem
    · obtain ⟨id, -, -, hby⟩ := hw.climbing row hmem
      exact (h.byId_stored id row hby).1
    · exact hread row hmem
  · rcases hid with hid | hid
    · rcases mem_insertRows.mp hid with hid | ⟨row, hmem, rfl⟩
      · obtain ⟨row, hrow⟩ := mem_rows_iff.mp hid
        refine List.mem_append_left _ (h.keys id ?_)
        exact (hw.added id row hrow).imp (fun hold => mem_rows_iff.mpr ⟨row, hold⟩)
          (fun hnew => mem_rows_iff.mpr ⟨row, hnew.1⟩)
      · exact List.mem_append_right _ (List.mem_map_of_mem hmem)
    · exact List.mem_append_left _ (h.keys id (.inr hid))
  · rcases hrow with hqueried | hlookup
    · exact .inr (hsettled row (h.pending row (.inl hqueried)))
    · rcases lookup_insertRows hlookup with ⟨hmem, -⟩ | hlookup
      · exact .inl (List.mem_append_right _ hmem)
      · rcases hw.added row.id row hlookup with hold | ⟨-, hclimbing⟩
        · exact .inr (hsettled row (h.pending row (.inr hold)))
        · exact .inl (List.mem_append_left _ hclimbing)

structure Climbed (store : VersionStore ι) (queried : List (BaseItemEntity ι))
    (rows : KeyedMap ι (BaseItemEntity ι)) (keys : List ι) : Prop where
  rows_stored : RowsStored store rows
  keys : ∀ id, id ∈ rows ∨ (∃ row ∈ queried, row.id = id) → id ∈ keys
  settled : ∀ row, row ∈ queried ∨ rows.lookup row.id = some row → Settled store rows row

variable (reader) in
theorem climbed_climb (h : Climbing store byId queried rows keys found)
    (hqueried : ∀ row ∈ queried, row.id ∈ byId) :
    Climbed store queried (climb reader byId rows keys found).1
      (climb reader byId rows keys found).2 := by
  fun_induction climb reader byId rows keys found with
  | case1 rows keys found w hdone =>
    have hw : Wanted byId rows found w := wanted_wants byId rows found
    have hround := h.round reader hw
    have hnil : reader.rowsById w.wanted = [] :=
      List.eq_nil_iff_forall_not_mem.mpr fun row hmem => by
      have hwanted := ((reader.mem_rowsById _ _).mp hmem).2
      rw [hdone.1] at hwanted
      cases hwanted
    rw [hnil, hdone.2] at hround
    refine ⟨hround.rows_stored, fun id hid => ?_, fun row hrow =>
      (hround.pending row hrow).resolve_left nofun⟩
    have hkeys := hround.keys id
    rw [List.map_nil, List.append_nil] at hkeys
    refine hkeys (hid.imp_right ?_)
    rintro ⟨row, hmem, rfl⟩
    exact hqueried row hmem
  | case2 rows keys found w hmore read ih =>
    exact ih (h.round reader (wanted_wants byId rows found))

theorem Climbed.up (h : Climbed store queried rows keys) (hrow : row ∈ queried)
    (hup : Up store.primary row.id id) : id = row.id ∨ id ∈ rows := by
  refine hup.mem (P := fun id => id = row.id ∨ id ∈ rows) (.inl rfl) fun a b ha hab => ?_
  have hsettled : ∀ row', row' ∈ queried ∨ rows.lookup row'.id = some row' → row'.id = a →
      b = a ∨ b ∈ rows := by
    rintro row' hrow' rfl
    exact h.settled row' hrow' b hab
  rcases ha with rfl | ha
  · exact hsettled row (.inl hrow) rfl
  · obtain ⟨row', hlookup⟩ := mem_rows_iff.mp ha
    obtain ⟨-, hid⟩ := h.rows_stored a row' hlookup
    rcases hsettled row' (.inr (hid.symm ▸ hlookup)) hid with rfl | hb
    · exact .inr ha
    · exact .inr hb

/-! ### Down -/

def VersionRows.versionIds (out : VersionRows ι) (b : ι) : List ι :=
  (out.byPrimary.lookup b).getD []

theorem mem_versionIds_file (out : VersionRows ι) (primary : ι) (row : BaseItemEntity ι)
    {b c : ι} : c ∈ (out.file primary row).versionIds b ↔
      c ∈ out.versionIds b ∨ b = primary ∧ c = row.id := by
  rw [VersionRows.versionIds, VersionRows.versionIds, VersionRows.file, KeyedMap.lookup_insert_eq]
  by_cases hb : b = primary
  · subst hb
    rw [if_pos rfl, Option.getD_some]
    by_cases hmem : row.id ∈ (out.byPrimary.lookup b).getD []
    · rw [if_pos hmem]
      exact ⟨.inl, fun h => h.elim id fun h => h.2 ▸ hmem⟩
    · rw [if_neg hmem, List.mem_append, List.mem_singleton, eq_self, true_and]
  · rw [if_neg hb]
    simp only [hb, false_and, or_false]

theorem lookup_file (out : VersionRows ι) (primary : ι) (row : BaseItemEntity ι) {id : ι}
    {row' : BaseItemEntity ι} (h : (out.file primary row).rows.lookup id = some row') :
    out.rows.lookup id = some row' ∨ row' = row ∧ row.id = id := by
  rw [VersionRows.file] at h
  dsimp only at h
  split at h
  · exact .inl h
  · rw [KeyedMap.lookup_insert_eq] at h
    split at h
    · next heq =>
      cases h
      exact .inr ⟨rfl, heq.symm⟩
    · exact .inl h

theorem mem_rows_file (out : VersionRows ι) (primary : ι) (row : BaseItemEntity ι) {id : ι} :
    id ∈ (out.file primary row).rows ↔ id ∈ out.rows ∨ id = row.id := by
  rw [VersionRows.file]
  dsimp only
  split
  · next hmem => exact ⟨.inl, fun h => h.elim (fun h => h) fun h => h ▸ hmem⟩
  · rw [AList.mem_insert, or_comm]

def Found (found : KeyedMap ι (List (BaseItemEntity ι × Bool))) (primary : ι)
    (row : BaseItemEntity ι) : Prop :=
  ∃ flag, (row, flag) ∈ (found.lookup primary).getD []

/-- What `absorb` files. -/
structure Absorbed (out : VersionRows ι) (filed : ι → BaseItemEntity ι → Prop)
    (out' : VersionRows ι) : Prop where
  versionIds : ∀ b c, c ∈ out'.versionIds b ↔
    c ∈ out.versionIds b ∨ ∃ row, filed b row ∧ row.id = c
  lookup : ∀ id row, out'.rows.lookup id = some row →
    out.rows.lookup id = some row ∨ ∃ b, filed b row ∧ row.id = id
  mem_rows : ∀ id, id ∈ out'.rows ↔ id ∈ out.rows ∨ ∃ b row, filed b row ∧ row.id = id

theorem absorbed_absorb (out : VersionRows ι)
    (found : KeyedMap ι (List (BaseItemEntity ι × Bool))) :
    Absorbed out (Found found) (out.absorb found).1 := by
  have hfold : ∀ l : List (ι × BaseItemEntity ι × Bool),
      Absorbed out (fun b row => ∃ flag, (b, row, flag) ∈ l)
        (l.foldl (fun out e => out.file e.1 e.2.1) out) := by
    intro l
    induction l using List.reverseRecOn with
    | nil => exact ⟨fun b c => by simp, fun id row h => .inl h, fun id => by simp⟩
    | append_singleton l e ih =>
      obtain ⟨primary, row, flag⟩ := e
      rw [List.foldl_append, List.foldl_cons, List.foldl_nil]
      refine ⟨fun b c => ?_, fun id row' h => ?_, fun id => ?_⟩
      · rw [mem_versionIds_file, ih.versionIds]
        grind
      · rcases lookup_file _ _ _ h with h | ⟨rfl, hid⟩
        · rcases ih.lookup id row' h with h | ⟨b, ⟨flag', hmem⟩, hid⟩
          · exact .inl h
          · exact .inr ⟨b, ⟨flag', List.mem_append_left _ hmem⟩, hid⟩
        · exact .inr ⟨primary, ⟨flag, List.mem_append_right _ (List.mem_singleton.mpr rfl)⟩, hid⟩
      · rw [mem_rows_file, ih.mem_rows]
        grind
  have hfiled : (fun b row => ∃ flag, (b, row, flag) ∈
      found.entries.flatMap fun e => e.2.map fun p => (e.1, p.1, p.2)) =
      Found found := by
    funext b row
    refine propext (exists_congr fun flag => ?_)
    simp only [List.mem_flatMap, List.mem_map, Prod.mk.injEq]
    constructor
    · rintro ⟨e, he, ⟨row', flag'⟩, hmem, rfl, rfl, rfl⟩
      rw [AList.mem_lookup_iff.mpr he]
      exact hmem
    · intro hmem
      rcases hlookup : found.lookup b with _ | rows
      · rw [hlookup] at hmem
        cases hmem
      · rw [hlookup] at hmem
        exact ⟨⟨b, rows⟩, AList.mem_lookup_iff.mp hlookup, (row, flag), hmem, rfl, rfl, rfl⟩
  rw [← hfiled]
  exact hfold _

theorem found_iff {primary : ι} : Found (reader.rowsByPrimaryFlagged keys) primary row ↔
    primary ∈ keys ∧ row ∈ store.rows ∧ row.primaryVersionId = some primary ∧
      row.id ≠ primary := by
  rw [Found, reader.exists_found]
  refine and_congr_right fun _ => and_congr_right fun hmem => and_congr_right fun hname => ?_
  refine ⟨fun h => h.2, fun h => ⟨fun hplaceholder => ?_, h⟩⟩
  rw [store.placeholder_root row hmem hplaceholder] at hname
  cases hname

def Filed (store : VersionStore ι) (out : VersionRows ι) (known : List ι) (b : ι) : Prop :=
  ∀ c, store.IsVersion b c →
    c ∈ out.versionIds b ∧ ((∃ d, store.IsVersion c d) → c ∈ known)

structure Sound (store : VersionStore ι) (out : VersionRows ι) : Prop where
  rows_stored : RowsStored store out.rows
  versions : ∀ b c, c ∈ out.versionIds b → store.IsVersion b c ∧ c ∈ out.rows

structure Descending (store : VersionStore ι) (out : VersionRows ι) (known keys : List ι) :
    Prop where
  sound : Sound store out
  filed : ∀ b ∈ known, b ∈ keys ∨ Filed store out known b

theorem Sound.absorb (h : Sound store out) :
    Sound store (out.absorb (reader.rowsByPrimaryFlagged keys)).1 := by
  have habsorbed := absorbed_absorb out (reader.rowsByPrimaryFlagged keys)
  refine ⟨fun id row hlookup => ?_, fun b c hc => ?_⟩
  · rcases habsorbed.lookup id row hlookup with hold | ⟨b, hfound, hid⟩
    · exact h.rows_stored id row hold
    · exact ⟨(found_iff.mp hfound).2.1, hid⟩
  · rcases (habsorbed.versionIds b c).mp hc with hold | ⟨row, hfound, hid⟩
    · obtain ⟨hversion, hmem⟩ := h.versions b c hold
      exact ⟨hversion, (habsorbed.mem_rows c).mpr (.inl hmem)⟩
    · obtain ⟨-, hmem, hname, hne⟩ := found_iff.mp hfound
      exact ⟨⟨⟨row, hmem, hid, hname⟩, hid ▸ hne⟩,
        (habsorbed.mem_rows c).mpr (.inr ⟨b, row, hfound, hid⟩)⟩

theorem Descending.round (reader : VersionRowReader store)
    (h : Descending store out known keys) {known' new : List ι}
    (hknown : ∀ id, id ∈ known' ↔
      id ∈ known ∨ id ∈ (out.absorb (reader.rowsByPrimaryFlagged keys)).2)
    (hnew : ∀ id, id ∈ new ↔
      id ∈ (out.absorb (reader.rowsByPrimaryFlagged keys)).2 ∧ id ∉ known) :
    Descending store (out.absorb (reader.rowsByPrimaryFlagged keys)).1 known' new := by
  have habsorbed := absorbed_absorb out (reader.rowsByPrimaryFlagged keys)
  refine ⟨h.sound.absorb, fun b hb => ?_⟩
  by_cases hold : b ∈ known
  · refine .inr fun c hc => ?_
    rcases h.filed b hold with hkey | hfiled
    · obtain ⟨⟨row, hmem, hid, hname⟩, hne⟩ := hc
      have hfound : Found (reader.rowsByPrimaryFlagged keys) b row :=
        found_iff.mpr ⟨hkey, hmem, hname, hid ▸ hne⟩
      refine ⟨(habsorbed.versionIds b c).mpr (.inr ⟨row, hfound, hid⟩), ?_⟩
      rintro ⟨d, ⟨version, hversion, hd, hversionName⟩, hdne⟩
      obtain ⟨flag, hflag⟩ := hfound
      have hset := reader.flagged keys b row flag hflag
        ⟨version, hversion, hid ▸ hversionName, by rw [hd, hid]; exact hdne⟩
      subst hset
      exact (hknown c).mpr (.inr (exists_of_mem_absorb.mpr ⟨b, row, hflag, hid⟩))
    · obtain ⟨hfiled, hversions⟩ := hfiled c hc
      exact ⟨(habsorbed.versionIds b c).mpr (.inl hfiled),
        fun hc => (hknown c).mpr (.inl (hversions hc))⟩
  · exact .inl ((hnew b).mpr ⟨((hknown b).mp hb).resolve_left hold, hold⟩)

variable (reader) in
theorem descended_descend (h : Descending store out known keys) :
    Sound store (descend reader out known keys) ∧
      (∀ id ∈ out.rows, id ∈ (descend reader out known keys).rows) ∧
      ∃ known', (∀ id ∈ known, id ∈ known') ∧
        ∀ b ∈ known', Filed store (descend reader out known keys) known' b := by
  fun_induction descend reader out known keys with
  | case1 out known keys absorbed retained hdone =>
    obtain ⟨hknown, hnew⟩ := retainNew_spec known absorbed.2
    have hround := h.round reader hknown hnew
    refine ⟨hround.sound, fun id hid => ?_, retained.1, fun id hid => (hknown id).mpr (.inl hid),
      fun b hb => (hround.filed b hb).resolve_left ?_⟩
    · exact ((absorbed_absorb out _).mem_rows id).mpr (.inl hid)
    · rw [show (retainNew known absorbed.2).2 = [] from hdone]
      nofun
  | case2 out known keys absorbed retained hmore ih =>
    obtain ⟨hknown, hnew⟩ := retainNew_spec known absorbed.2
    have hsorted : ∀ id, id ∈ retained.2.mergeSort (· ≤ ·) ↔ id ∈ absorbed.2 ∧ id ∉ known :=
      fun id => by rw [List.mem_mergeSort]; exact hnew id
    have hround := h.round reader hknown hsorted
    obtain ⟨hsound, hrows, known', hsub, hfiled⟩ := ih hround
    refine ⟨hsound, fun id hid => hrows id ?_, known', fun id hid =>
      hsub id ((hknown id).mpr (.inl hid)), hfiled⟩
    exact ((absorbed_absorb out _).mem_rows id).mpr (.inl hid)

/-! ### Both -/

/-- For an item, all that its group needs has been read. -/
structure Loaded (store : VersionStore ι) (item : BaseItemEntity ι) (out : VersionRows ι) :
    Prop where
  sound : Sound store out
  up : ∀ id, Up store.primary item.id id → id = item.id ∨ id ∈ out.rows
  down : ∀ top, Up store.primary item.id top → ∀ b, Up store.primary b top →
    ∀ c, store.IsVersion b c → c ∈ out.versionIds b

theorem known_or_no_versions (hfiled : ∀ b ∈ known, Filed store out known b) {b top : ι}
    (htop : top ∈ known) (hup : Up store.primary b top) :
    b ∈ known ∨ ∀ c, ¬ store.IsVersion b c := by
  induction hup using Relation.ReflTransGen.head_induction_on with
  | refl => exact .inl htop
  | @head a b hab _ ih =>
    by_cases hne : a = b
    · exact hne ▸ ih
    · have hversion : store.IsVersion b a :=
        ⟨(VersionStore.primary_eq_some_iff.mp hab).1, hne⟩
      by_cases hversions : ∃ d, store.IsVersion a d
      · refine .inl (((hfiled b (ih.resolve_right ?_)) a hversion).2 hversions)
        exact fun hnone => hnone a hversion
      · exact .inr (not_exists.mp hversions)

variable (reader) in
theorem lookup_load_rows (hne : queried ≠ []) :
    ∃ order, VersionRows.load reader queried =
      { descend reader
          { rows := (climb reader (insertRows ∅ queried) ∅ (insertRows ∅ queried).keys queried).1 }
          (((climb reader (insertRows ∅ queried) ∅ (insertRows ∅ queried).keys
            queried).2.mergeSort (· ≤ ·)).dedup)
          (((climb reader (insertRows ∅ queried) ∅ (insertRows ∅ queried).keys
            queried).2.mergeSort (· ≤ ·)).dedup) with localOrder := order } := by
  rw [VersionRows.load, if_neg hne]
  exact ⟨_, rfl⟩

variable (reader) in
/-- `load` reads all that the groups of the queried items need. -/
theorem loaded_load (hstored : ∀ row ∈ queried, row ∈ store.rows) {item : BaseItemEntity ι}
    (hitem : item ∈ queried) : Loaded store item (VersionRows.load reader queried) := by
  have hempty : ∀ id, id ∉ (∅ : KeyedMap ι (BaseItemEntity ι)) := fun id => AList.notMem_empty id
  have hmem : ∀ id, id ∈ insertRows ∅ queried ↔ ∃ row ∈ queried, row.id = id := fun id => by
    rw [mem_insertRows, or_iff_right (hempty id)]
  have hstart : Climbing store (insertRows ∅ queried) queried ∅ (insertRows ∅ queried).keys
      queried := by
    refine ⟨rowsStored_empty, rowsStored_empty.insertRows hstored, hstored, fun id hid => ?_,
      fun row hrow => ?_⟩
    · exact AList.mem_keys.mp (hid.resolve_left (hempty id))
    · refine .inl (hrow.resolve_right fun hlookup => ?_)
      rw [AList.lookup_empty] at hlookup
      cases hlookup
  have hclimbed := climbed_climb reader hstart fun row hrow =>
    (hmem row.id).mpr ⟨row, hrow, rfl⟩
  obtain ⟨order, hload⟩ := lookup_load_rows reader (List.ne_nil_of_mem hitem)
  rw [hload]
  generalize climb reader (insertRows ∅ queried) ∅ (insertRows ∅ queried).keys queried = climbed
    at hclimbed
  obtain ⟨rows, keys⟩ := climbed
  have hdescending : Descending store { rows := rows } (keys.mergeSort (· ≤ ·)).dedup
      (keys.mergeSort (· ≤ ·)).dedup := by
    refine ⟨⟨hclimbed.rows_stored, fun b c hc => ?_⟩, fun b hb => .inl hb⟩
    rw [VersionRows.versionIds, AList.lookup_empty] at hc
    cases hc
  obtain ⟨hsound, hrows, known, hsub, hfiled⟩ := descended_descend reader hdescending
  refine ⟨⟨hsound.rows_stored, hsound.versions⟩, fun id hup => ?_, fun top htop b hb c hc => ?_⟩
  · exact (hclimbed.up hitem hup).imp_right (hrows id)
  · have hkey : top ∈ keys := by
      refine hclimbed.keys top ((hclimbed.up hitem htop).symm.imp_right ?_)
      exact fun h => ⟨item, hitem, h.symm⟩
    have hknown : top ∈ known :=
      hsub top (List.mem_dedup.mpr (List.mem_mergeSort.mpr hkey))
    rcases known_or_no_versions hfiled hknown hb with hbknown | hnone
    · exact (hfiled b hbknown c hc).1
    · exact absurd hc (hnone c)

end Ferrofin.Versions
