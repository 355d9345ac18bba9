import Ferrofin.Visibility.Tightening

/-!
# Whether the evaluation ends

The hierarchy of a request is loaded in rounds, each of which asks for ids that were never asked for
(`Hierarchy.loaded`), and the walks up to the ancestors and the libraries meet no row twice.
`visible` calls itself on the libraries of a collection, in the order of a hash set, and keeps no
record of them: it ends exactly where no collection leads on and on
(`Context.evaluation_ends_iff`).  What it ends with is the visibility
(`Context.visible_of_visibleIn`).
-/

namespace Ferrofin.Visibility

open Lib

/-! ### Loading -/

def BaseItemEntity.references (row : BaseItemEntity) : List Nat :=
  [row.parentId, row.ownerId, row.channelId, row.seasonId, row.seriesId].filterMap fun id => id

structure Stored where
  rows : List BaseItemEntity
  linkedChildren : Nat → List Nat

def Stored.reachable (stored : Stored) (ids : List Nat) : List BaseItemEntity :=
  let next := fun id => (stored.rows.filter (·.id = id)).flatMap (·.references)
  let walked := walk next (fuelFor (5 * stored.rows.length) (6 * stored.rows.length + ids.length)
    ids.length) ids []
  stored.rows.filter (·.id ∈ walked)

/-- What `load_hierarchy` keeps. -/
structure Hierarchy where
  rows : List BaseItemEntity
  examined : List Nat := []
  requested : List Nat
  links : List (Nat × Nat) := []

namespace Hierarchy

variable (stored : Stored) (playlistLinks : Bool) (h : Hierarchy)

def fresh : List BaseItemEntity := h.rows.filter fun row => row.id ∉ h.examined

def readLinks : Hierarchy :=
  let containers := h.fresh.filter fun row =>
    row.kind = .boxSet || row.kind = .playlist && playlistLinks
  { h with links := h.links ++ containers.flatMap fun row =>
      (stored.linkedChildren row.id).map fun child => (row.id, child) }

def next (row : BaseItemEntity) : List Nat :=
  row.references ++ (h.links.filter (·.1 = row.id)).map (·.2)

/-- What is asked for, of ids that are not loaded and were never asked for. -/
def wanted : List Nat :=
  (h.fresh.flatMap h.next).filter fun id => id ∉ h.rows.map (·.id) ∧ id ∉ h.requested

/-- One round, which is the last one when it asks for nothing. -/
def round : Hierarchy × Bool :=
  if h.fresh = [] then (h, true)
  else
    let h := h.readLinks stored playlistLinks
    let wanted := h.wanted
    let examined := { h with
      examined := h.examined ++ h.fresh.map (·.id), requested := h.requested ++ wanted }
    if wanted = [] then (examined, true)
    else
      ({ examined with rows := h.rows ++ (stored.reachable wanted).filter fun row =>
          row.id ∉ h.rows.map (·.id) }, false)

/-- `load_hierarchy`, of so many rounds; `none` while there is more to do. -/
def load : Nat → Hierarchy → Option Hierarchy
  | 0, _ => none
  | fuel + 1, h =>
    let (h, done) := h.round stored playlistLinks
    if done then some h else load fuel h

end Hierarchy

def Hierarchy.start (rows : List BaseItemEntity) : Hierarchy where
  rows := rows
  requested := rows.map (·.id)

/-! ### The evaluation -/

namespace Context

variable (c : Context) (p : Policy)

/-- What `visible` finds out about an item before it asks for libraries: the answer, or the
libraries of a collection. -/
def visibleStep (item : BaseItemEntity) (skipAllowed : Bool) : Except String Bool ⊕ List Nat :=
  if c.sharedPlaylist item then
    .inl (if c.sharedWith item then c.hasParentalAllowedChild p item else .ok false)
  else if item.kind = .collectionFolder && (!c.folderAllowed p item.id false ||
      (c.options item.id).any (!·.enabled)) then .inl (.ok false)
  else if item.kind = .channel && !c.folderAllowed p item.id true then .inl (.ok false)
  else
    match c.parental p item (skipAllowed || item.kind = .person) with
    | .error e => .inl (.error e)
    | .ok false => .inl (.ok false)
    | .ok true =>
      if c.modernBoxset item then
        if (c.links item.id).isEmpty then .inl (.ok true)
        else
          match c.collectionLibraries item with
          | .error e => .inl (.error e)
          | .ok [] => .inl (.ok true)
          | .ok libraries => .inr libraries
      else if item.kind = .playlist then .inl (c.hasParentalAllowedChild p item)
      else .inl (.ok true)

/-- The libraries one after another: an error is the last answer. -/
def askAll (visible : BaseItemEntity → Option (Except String Bool)) :
    (accessible : Bool) → List BaseItemEntity → Option (Except String Bool)
  | accessible, [] => some (.ok accessible)
  | accessible, row :: rows =>
    match visible row with
    | some (.ok value) => askAll visible (accessible || value) rows
    | answer => answer

/-- `visible`, with a stack of so many calls, `none` where that is too small; the hash set of an
item's libraries comes in the given order. -/
def visibleIn (order : BaseItemEntity → List Nat → List Nat) : Nat → BaseItemEntity → Bool →
    Option (Except String Bool)
  | 0, _, _ => none
  | fuel + 1, item, skipAllowed =>
    match c.visibleStep p item skipAllowed with
    | .inl answer => some answer
    | .inr libraries =>
      match askAll (visibleIn order fuel · false) false
          ((order item libraries).filterMap c.row) with
      | some (.ok true) => some (c.hasParentalAllowedChild p item)
      | answer => answer

/-- `standalone`, the parents. -/
def parentsVisibleIn (order : BaseItemEntity → List Nat → List Nat) (fuel : Nat) :
    List BaseItemEntity → Option (Except String Bool)
  | [] => some (.ok true)
  | parent :: parents =>
    match c.visibleIn p order fuel parent true with
    | some (.ok true) => parentsVisibleIn order fuel parents
    | answer => answer

/-- `standalone`, behind the parents. -/
def standaloneRest (order : BaseItemEntity → List Nat → List Nat) (fuel : Nat)
    (item : BaseItemEntity) (chain : List BaseItemEntity) : Option (Except String Bool) :=
  match item.channelId.filter fun _ =>
      item.kind ∉ [.liveTvProgram, .liveTvChannel, .tvChannel] with
  | some channelId =>
    match c.row channelId with
    | some channel => c.visibleIn p order fuel channel false
    | none => some (.error "missing item channel")
  | none =>
    if item.kind = .channel then some (.ok true)
    else if (nonemptyPath (chain.getLast?.bind (·.path))).isNone then some (.ok true)
    else some ((c.libraries item).map fun libraries =>
      libraries.isEmpty || libraries.any fun id => c.folderAllowed p id false)

/-- `standalone`. -/
def standaloneIn (order : BaseItemEntity → List Nat → List Nat) (fuel : Nat)
    (item : BaseItemEntity) : Option (Except String Bool) :=
  if item.kind = .userRootFolder then some (.ok true)
  else
    match c.visibleIn p order fuel item false with
    | some (.ok true) =>
      if c.sharedPlaylist item || c.modernBoxset item then some (.ok true)
      else
        match c.chain item false with
        | .error e => some (.error e)
        | .ok chain =>
          match c.parentsVisibleIn p order fuel chain.tail with
          | some (.ok true) => c.standaloneRest p order fuel item chain
          | answer => answer
    | answer => answer

/-- An order of hash sets has the elements of the set. -/
def IsOrder (order : BaseItemEntity → List Nat → List Nat) : Prop :=
  ∀ item ids id, id ∈ order item ids ↔ id ∈ ids

def Asked (next asking : BaseItemEntity × Bool) : Prop :=
  next.2 = false ∧ ∃ libraries, c.visibleStep p asking.1 asking.2 = .inr libraries ∧
    ∃ id ∈ libraries, c.row id = some next.1

end Context

/-! ### Loading ends -/

namespace Hierarchy

variable {stored : Stored} {playlistLinks : Bool} {h : Hierarchy}

def referred (stored : Stored) (rows : List BaseItemEntity) : List Nat :=
  rows.flatMap fun row => row.references ++ stored.linkedChildren row.id

/-- What holds between rounds: the rows are known ones, and the links are stored. -/
structure Sound (stored : Stored) (known : List BaseItemEntity) (h : Hierarchy) : Prop where
  rows : ∀ row ∈ h.rows, row ∈ known
  links : ∀ link ∈ h.links, link.2 ∈ stored.linkedChildren link.1

variable {known : List BaseItemEntity}

theorem Sound.readLinks (hs : h.Sound stored known) :
    (h.readLinks stored playlistLinks).Sound stored known where
  rows := hs.rows
  links link hlink := by
    rcases List.mem_append.mp hlink with hlink | hlink
    · exact hs.links link hlink
    · obtain ⟨row, -, hchild⟩ := List.mem_flatMap.mp hlink
      obtain ⟨child, hmem, rfl⟩ := List.mem_map.mp hchild
      exact hmem

theorem Sound.mem_referred (hs : h.Sound stored known) {id : Nat} (hid : id ∈ h.wanted) :
    id ∈ referred stored known := by
  obtain ⟨row, hrow, hnext⟩ := List.mem_flatMap.mp (List.mem_filter.mp hid).1
  refine List.mem_flatMap.mpr ⟨row, hs.rows row (List.mem_filter.mp hrow).1, ?_⟩
  rcases List.mem_append.mp hnext with hnext | hnext
  · exact List.mem_append_left _ hnext
  · obtain ⟨link, hlink, rfl⟩ := List.mem_map.mp hnext
    obtain ⟨hlink, hkey⟩ := List.mem_filter.mp hlink
    exact List.mem_append_right _ (of_decide_eq_true hkey ▸ hs.links link hlink)

/-- **A round that is not the last one asks for an id that was never asked for.** -/
theorem Sound.round (hs : h.Sound stored known) (hstored : ∀ row ∈ stored.rows, row ∈ known)
    (hmore : (h.round stored playlistLinks).2 = false) :
    (h.round stored playlistLinks).1.Sound stored known ∧
      (unwalked (referred stored known) (h.round stored playlistLinks).1.requested).length <
        (unwalked (referred stored known) h.requested).length := by
  have hlinks : (h.readLinks stored playlistLinks).Sound stored known := hs.readLinks
  unfold Hierarchy.round at hmore ⊢
  by_cases hfresh : h.fresh = []
  · rw [if_pos hfresh] at hmore
    cases hmore
  · rw [if_neg hfresh] at hmore ⊢
    by_cases hwanted : (h.readLinks stored playlistLinks).wanted = []
    · simp only [hwanted, if_true] at hmore
      cases hmore
    · simp only [hwanted, if_false]
      refine ⟨⟨fun row hrow => ?_, hlinks.links⟩, ?_⟩
      · rcases List.mem_append.mp hrow with hrow | hrow
        · exact hs.rows row hrow
        · exact hstored row (List.mem_filter.mp (List.mem_filter.mp hrow).1).1
      · obtain ⟨id, hid⟩ := List.exists_mem_of_ne_nil _ hwanted
        have hnew := (of_decide_eq_true (List.mem_filter.mp hid).2).2
        exact unwalked_lt_of_mem (fun b hb => List.mem_append_left _ hb)
          (hlinks.mem_referred hid) hnew (List.mem_append_right _ hid)

/-- **Loading ends.** -/
theorem loaded (stored : Stored) (playlistLinks : Bool) (rows : List BaseItemEntity) :
    ∃ fuel, (load stored playlistLinks fuel (start rows)).isSome := by
  have hall : ∀ fuel h, h.Sound stored (rows ++ stored.rows) →
      (unwalked (referred stored (rows ++ stored.rows)) h.requested).length < fuel →
        (load stored playlistLinks fuel h).isSome := by
    intro fuel
    induction fuel with
    | zero => exact fun h _ hlt => absurd hlt (Nat.not_lt_zero _)
    | succ fuel ih =>
      intro h hs hlt
      rw [load]
      cases hdone : (h.round stored playlistLinks).2 with
      | true => simp [hdone]
      | false =>
        obtain ⟨hround, hless⟩ := hs.round (fun row hrow => List.mem_append_right _ hrow) hdone
        simp only [hdone, Bool.false_eq_true, if_false]
        exact ih _ hround (by omega)
  refine ⟨_, hall _ (start rows) ⟨fun row hrow => List.mem_append_left _ hrow, nofun⟩
    (Nat.lt_succ_self _)⟩

end Hierarchy

/-! ### The walks up end -/

namespace Context

variable {c : Context} {p : Policy} {order : BaseItemEntity → List Nat → List Nat}
  {item row : BaseItemEntity} {skip : Bool}

theorem mem_rows_of_row {id : Nat} (h : c.row id = some row) : row ∈ c.rows :=
  List.mem_of_find?_eq_some h

def unmet (c : Context) (seen : List Nat) : Nat := (unwalked (c.rows.map (·.id)) seen).length

theorem unmet_cons_lt (hrow : row ∈ c.rows) {seen : List Nat} (hnew : row.id ∉ seen) :
    c.unmet (row.id :: seen) < c.unmet seen :=
  unwalked_lt_of_mem (fun _ hb => List.mem_cons_of_mem _ hb) (List.mem_map_of_mem hrow) hnew
    (List.mem_cons_self ..)

theorem unmet_le (seen : List Nat) : c.unmet seen ≤ c.rows.length := by
  unfold unmet unwalked
  exact (List.length_filter_le ..).trans (List.length_map _).le

/-- `chain` has looked at all there is when it has taken as many steps as there are rows. -/
theorem chainLoop_succ (display : Bool) {fuel : Nat} {seen : List Nat}
    (hfuel : c.unmet seen < fuel) (current : BaseItemEntity) :
    c.chainLoop display (fuel + 1) seen current = c.chainLoop display fuel seen current := by
  induction fuel generalizing seen current with
  | zero => exact absurd hfuel (Nat.not_lt_zero _)
  | succ fuel ih =>
    rw [chainLoop, chainLoop]
    cases hnext : c.above display current with
    | none => rfl
    | some parent =>
      dsimp only
      split
      · rfl
      · next hnew =>
        have hmem : parent ∈ c.rows := by
          obtain ⟨id, -, hid⟩ := Option.bind_eq_some_iff.mp hnext
          exact mem_rows_of_row hid
        have hlt := unmet_cons_lt hmem hnew
        rw [ih (by omega) parent]

theorem mem_rows_of_next {current next : BaseItemEntity}
    (h : (current.parentId.bind c.row).or (current.ownerId.bind c.row) = some next) :
    next ∈ c.rows := by
  rcases Option.or_eq_some_iff.mp h with h | ⟨-, h⟩
  · obtain ⟨id, -, hid⟩ := Option.bind_eq_some_iff.mp h
    exact mem_rows_of_row hid
  · obtain ⟨id, -, hid⟩ := Option.bind_eq_some_iff.mp h
    exact mem_rows_of_row hid

/-- One step of `libraries` takes no more fuel where those behind it do not. -/
theorem librariesLoop_congr {fuel : Nat} {seen : List Nat} {current : BaseItemEntity}
    (h : ∀ next ∈ c.rows, current.id ∉ seen →
      c.librariesLoop (fuel + 1) (current.id :: seen) next =
        c.librariesLoop fuel (current.id :: seen) next) :
    c.librariesLoop (fuel + 2) seen current = c.librariesLoop (fuel + 1) seen current := by
  rw [librariesLoop, librariesLoop]
  split
  · rfl
  · next hnew =>
    split
    · rfl
    · dsimp only
      split
      · rfl
      · cases hnext : (current.parentId.bind c.row).or (current.ownerId.bind c.row) with
        | none => rfl
        | some next => exact h next (mem_rows_of_next hnext) hnew

/-- `libraries` likewise. -/
theorem librariesLoop_succ {fuel : Nat} {seen : List Nat} {current : BaseItemEntity}
    (hcurrent : current ∈ c.rows) (hfuel : c.unmet seen ≤ fuel) :
    c.librariesLoop (fuel + 1) seen current = c.librariesLoop fuel seen current := by
  induction fuel generalizing seen current with
  | zero =>
    have hmet : current.id ∈ seen := by
      refine Decidable.byContradiction fun hnew => ?_
      have hlt := unmet_cons_lt hcurrent hnew
      omega
    change c.librariesLoop (0 + 1) seen current = .error "cycle in item visibility ownership"
    rw [librariesLoop]
    exact if_pos hmet
  | succ fuel ih =>
    refine librariesLoop_congr fun next hmem hnew => ih hmem ?_
    have hlt := unmet_cons_lt hcurrent hnew
    omega

/-- `chain` of any item ends before its steps do. -/
theorem chainLoop_add (display : Bool) (item : BaseItemEntity) (extra : Nat) :
    c.chainLoop display (c.rows.length + 1 + extra) [item.id] item =
      c.chainLoop display (c.rows.length + 1) [item.id] item := by
  induction extra with
  | zero => rfl
  | succ extra ih =>
    have hle := c.unmet_le [item.id]
    rw [← Nat.add_assoc, chainLoop_succ display (by omega), ih]

theorem librariesLoop_add (item : BaseItemEntity) (extra : Nat) :
    c.librariesLoop (c.rows.length + 1 + extra) [] item =
      c.librariesLoop (c.rows.length + 1) [] item := by
  induction extra with
  | zero => rfl
  | succ extra ih =>
    have hle := c.unmet_le [item.id]
    rw [← ih, show c.rows.length + 1 + (extra + 1) = c.rows.length + extra + 2 from by omega,
      show c.rows.length + 1 + extra = c.rows.length + extra + 1 from by omega]
    exact librariesLoop_congr fun next hmem _ => librariesLoop_succ hmem (by omega)

/-! ### The evaluation ends -/

theorem askAll_mono {visible visible' : BaseItemEntity → Option (Except String Bool)}
    (hle : ∀ row answer, visible row = some answer → visible' row = some answer)
    {accessible : Bool} {rows : List BaseItemEntity} {answer : Except String Bool}
    (h : askAll visible accessible rows = some answer) :
    askAll visible' accessible rows = some answer := by
  induction rows generalizing accessible with
  | nil => exact h
  | cons row rows ih =>
    rw [askAll] at h ⊢
    cases hrow : visible row with
    | none =>
      rw [hrow] at h
      cases h
    | some value =>
      rw [hrow] at h
      rw [hle row value hrow]
      cases value with
      | error e => exact h
      | ok value => exact ih h

theorem visibleIn_mono {fuel : Nat} {answer : Except String Bool}
    (h : c.visibleIn p order fuel item skip = some answer) {fuel' : Nat} (hle : fuel ≤ fuel') :
    c.visibleIn p order fuel' item skip = some answer := by
  induction fuel generalizing fuel' item skip answer with
  | zero => cases h
  | succ fuel ih =>
    obtain ⟨fuel', rfl⟩ : ∃ n, fuel' = n + 1 := ⟨fuel' - 1, by omega⟩
    rw [visibleIn] at h ⊢
    cases hstep : c.visibleStep p item skip with
    | inl answer' =>
      rw [hstep] at h
      exact h
    | inr libraries =>
      rw [hstep] at h
      dsimp only at h ⊢
      cases hask : askAll (visibleIn c p order fuel · false) false
          ((order item libraries).filterMap c.row) with
      | none =>
        rw [hask] at h
        cases h
      | some value =>
        rw [hask] at h
        rw [askAll_mono (fun row answer hrow => ih hrow (Nat.le_of_succ_le_succ hle)) hask]
        exact h

/-- The answer of a list of libraries whose visibility is the given one. -/
theorem askAll_eq {ask : BaseItemEntity → Option (Except String Bool)}
    {visible : BaseItemEntity → Except String Bool}
    (hask : ∀ row answer, ask row = some answer → visible row = answer)
    {accessible : Bool} {rows : List BaseItemEntity} {answer : Except String Bool}
    (h : askAll ask accessible rows = some answer) :
    answer = (rows.mapM visible).map fun values => accessible || values.any id := by
  induction rows generalizing accessible with
  | nil =>
    cases h
    simp [Except.map, pure, Except.pure]
  | cons row rows ih =>
    rw [askAll] at h
    cases hrow : ask row with
    | none =>
      rw [hrow] at h
      cases h
    | some value =>
      rw [hrow] at h
      rw [List.mapM_cons, hask row value hrow]
      cases value with
      | error e =>
        cases h
        rfl
      | ok value =>
        rw [ih h]
        cases rows.mapM visible with
        | error e => rfl
        | ok values =>
          have hor : (accessible || value || values.any id) =
              (accessible || (value :: values).any id) := by
            rw [List.any_cons, Bool.or_assoc]
            rfl
          exact congrArg Except.ok hor

/-- `visible` finds out about the item, then asks for its libraries. -/
theorem visible_succ (fuel : Nat) : c.visible p (fuel + 1) item skip =
    match c.visibleStep p item skip with
    | .inl answer => answer
    | .inr libraries => do
      let accessible ← (libraries.filterMap c.row).mapM fun row => c.visible p fuel row false
      if accessible.any id then c.hasParentalAllowedChild p item else return false := by
  rw [visible]
  unfold visibleStep
  split
  · split <;> rfl
  · split
    · rfl
    · split
      · rfl
      · cases c.parental p item (skip || item.kind = .person) with
        | error e => rfl
        | ok value =>
          cases value with
          | false => rfl
          | true =>
            change (if c.modernBoxset item then _ else _) = _
            dsimp only
            split
            · split
              · rfl
              · cases c.collectionLibraries item with
                | error e => rfl
                | ok libraries => cases libraries <;> rfl
            · split <;> rfl

/-- **What the evaluation ends with is the visibility**, in the order of the stored libraries. -/
theorem visible_of_visibleIn {fuel : Nat} {answer : Except String Bool}
    (h : c.visibleIn p (fun _ ids => ids) fuel item skip = some answer) :
    c.visible p fuel item skip = answer := by
  induction fuel generalizing item skip answer with
  | zero => cases h
  | succ fuel ih =>
    rw [visibleIn] at h
    rw [visible_succ]
    cases hstep : c.visibleStep p item skip with
    | inl answer' =>
      rw [hstep] at h
      exact Option.some.inj h
    | inr libraries =>
      rw [hstep] at h
      dsimp only at h ⊢
      cases hask : askAll (visibleIn c p (fun _ ids => ids) fuel · false) false
          (libraries.filterMap c.row) with
      | none =>
        rw [hask] at h
        cases h
      | some value =>
        have hvalue : value = ((libraries.filterMap c.row).mapM fun row =>
            c.visible p fuel row false).map fun values => false || values.any id :=
          askAll_eq (fun row answer hrow => ih hrow) hask
        rw [hask] at h
        subst hvalue
        cases hrows : (libraries.filterMap c.row).mapM
            fun row => c.visible p fuel row false with
        | error e =>
          rw [hrows] at h
          exact Option.some.inj h
        | ok values =>
          rw [hrows] at h
          simp only [Except.map, Bool.false_or] at h
          change (if values.any id then _ else _) = _
          cases hany : values.any id with
          | true =>
            rw [hany] at h
            exact Option.some.inj h
          | false =>
            rw [hany] at h
            exact Option.some.inj h

/-- `visible` ends. -/
def VisibleEnds (c : Context) (p : Policy) (order : BaseItemEntity → List Nat → List Nat)
    (item : BaseItemEntity) (skip : Bool) : Prop :=
  ∃ fuel, (c.visibleIn p order fuel item skip).isSome

theorem askAll_ends {rows : List BaseItemEntity}
    (h : ∀ row ∈ rows, c.VisibleEnds p order row false) (accessible : Bool) :
    ∃ fuel, (askAll (visibleIn c p order fuel · false) accessible rows).isSome := by
  induction rows generalizing accessible with
  | nil => exact ⟨0, rfl⟩
  | cons row rows ih =>
    obtain ⟨fuel, hrow⟩ := h row (List.mem_cons_self ..)
    obtain ⟨value, hvalue⟩ := Option.isSome_iff_exists.mp hrow
    cases value with
    | error e => exact ⟨fuel, by rw [askAll, hvalue]; rfl⟩
    | ok value =>
      obtain ⟨fuel', hrest⟩ := ih (fun r hr => h r (List.mem_cons_of_mem _ hr))
        (accessible || value)
      obtain ⟨answer, hanswer⟩ := Option.isSome_iff_exists.mp hrest
      refine ⟨max fuel fuel', ?_⟩
      rw [askAll, visibleIn_mono hvalue (Nat.le_max_left ..)]
      dsimp only
      rw [askAll_mono (fun row answer hrow => visibleIn_mono hrow (Nat.le_max_right ..)) hanswer]
      rfl

/-- **The visibility of an item ends when that of every library it asks for does.** -/
theorem visibleEnds_of_asked (horder : IsOrder order)
    (h : ∀ row, c.Asked p (row, false) (item, skip) → c.VisibleEnds p order row false) :
    c.VisibleEnds p order item skip := by
  cases hstep : c.visibleStep p item skip with
  | inl answer => exact ⟨1, by rw [visibleIn, hstep]; rfl⟩
  | inr libraries =>
    have hrows : ∀ row ∈ (order item libraries).filterMap c.row,
        c.VisibleEnds p order row false := by
      intro row hrow
      obtain ⟨id, hid, hfound⟩ := List.mem_filterMap.mp hrow
      exact h row ⟨rfl, libraries, hstep, id, (horder item libraries id).mp hid, hfound⟩
    obtain ⟨fuel, hask⟩ := askAll_ends hrows false
    obtain ⟨answer, hanswer⟩ := Option.isSome_iff_exists.mp hask
    refine ⟨fuel + 1, ?_⟩
    rw [visibleIn, hstep]
    dsimp only
    rw [hanswer]
    rcases answer with e | ⟨_ | _⟩ <;> rfl

/-- An order that asks first for a library with which the questions go on and on. -/
noncomputable def endlessOrder (c : Context) (p : Policy) (_item : BaseItemEntity)
    (ids : List Nat) : List Nat :=
  open Classical in
  if h : ∃ id ∈ ids, ∃ row, c.row id = some row ∧ ¬Acc (c.Asked p) (row, false) then
    h.choose :: ids
  else ids

theorem isOrder_endlessOrder : IsOrder (c.endlessOrder p) := by
  intro item ids id
  unfold endlessOrder
  split
  · next h =>
    rw [List.mem_cons]
    refine ⟨fun hid => ?_, .inr⟩
    rcases hid with rfl | hid
    · exact h.choose_spec.1
    · exact hid
  · exact Iff.rfl

/-- **Where the questions go on and on**, some order has no answer, however large the stack. -/
theorem visibleIn_endlessOrder (fuel : Nat) (hnot : ¬Acc (c.Asked p) (item, skip)) :
    c.visibleIn p (c.endlessOrder p) fuel item skip = none := by
  induction fuel generalizing item skip with
  | zero => rfl
  | succ fuel ih =>
    obtain ⟨⟨row, b⟩, ⟨hb, libraries, hstep, id, hid, hrow⟩, hrest⟩ :
        ∃ next, c.Asked p next (item, skip) ∧ ¬Acc (c.Asked p) next := by
      refine Classical.byContradiction fun hno => hnot (.intro _ fun next hnext => ?_)
      exact Classical.byContradiction fun hacc => hno ⟨next, hnext, hacc⟩
    obtain rfl : b = false := hb
    have hexists : ∃ id ∈ libraries, ∃ row, c.row id = some row ∧
        ¬Acc (c.Asked p) (row, false) := ⟨id, hid, row, hrow, hrest⟩
    obtain ⟨first, hfirst, hacc⟩ := hexists.choose_spec.2
    rw [visibleIn, hstep]
    dsimp only
    rw [endlessOrder, dif_pos hexists, List.filterMap_cons_some hfirst, askAll, ih hacc]

/-- **Visibility ends** in every order exactly where the questions do not go on and on. -/
theorem visible_ends_iff : (∀ order, IsOrder order → ∀ item skip, c.VisibleEnds p order item skip) ↔
    ∀ item skip, Acc (c.Asked p) (item, skip) := by
  constructor
  · intro h item skip
    refine Classical.byContradiction fun hnot => ?_
    obtain ⟨fuel, hends⟩ := h _ isOrder_endlessOrder item skip
    rw [visibleIn_endlessOrder fuel hnot] at hends
    cases hends
  · intro h order horder item skip
    have hall : ∀ asking, Acc (c.Asked p) asking → c.VisibleEnds p order asking.1 asking.2 := by
      intro asking hacc
      induction hacc with
      | intro asking _ ih => exact visibleEnds_of_asked horder fun row hrow => ih (row, false) hrow
    exact hall (item, skip) (h item skip)

/-! ### Standalone -/

theorem visible_ends_together (h : ∀ item skip, c.VisibleEnds p order item skip)
    (questions : List (BaseItemEntity × Bool)) :
    ∃ fuel, ∀ q ∈ questions, (c.visibleIn p order fuel q.1 q.2).isSome := by
  induction questions with
  | nil => exact ⟨0, fun q hq => absurd hq List.not_mem_nil⟩
  | cons q questions ih =>
    obtain ⟨fuel, hrest⟩ := ih
    obtain ⟨fuel', hq⟩ := h q.1 q.2
    refine ⟨max fuel fuel', fun q' hq' => ?_⟩
    rcases List.mem_cons.mp hq' with rfl | hq'
    · obtain ⟨answer, hanswer⟩ := Option.isSome_iff_exists.mp hq
      rw [visibleIn_mono hanswer (Nat.le_max_right ..)]
      rfl
    · obtain ⟨answer, hanswer⟩ := Option.isSome_iff_exists.mp (hrest q' hq')
      rw [visibleIn_mono hanswer (Nat.le_max_left ..)]
      rfl

theorem parentsVisibleIn_isSome {fuel : Nat} {parents : List BaseItemEntity}
    (h : ∀ parent ∈ parents, (c.visibleIn p order fuel parent true).isSome) :
    (c.parentsVisibleIn p order fuel parents).isSome := by
  induction parents with
  | nil => rfl
  | cons parent parents ih =>
    obtain ⟨answer, hanswer⟩ := Option.isSome_iff_exists.mp (h parent (List.mem_cons_self ..))
    rw [parentsVisibleIn, hanswer]
    rcases answer with e | ⟨_ | _⟩
    · rfl
    · rfl
    · exact ih fun row hrow => h row (List.mem_cons_of_mem _ hrow)

theorem standaloneRest_isSome {fuel : Nat} {chain : List BaseItemEntity}
    (h : ∀ channel, item.channelId.bind c.row = some channel →
      (c.visibleIn p order fuel channel false).isSome) :
    (c.standaloneRest p order fuel item chain).isSome := by
  unfold standaloneRest
  split
  · next channelId hid =>
    split
    · next channel hchannel =>
      refine h channel ?_
      rw [(Option.filter_eq_some_iff.mp hid).1]
      exact hchannel
    · rfl
  · split
    · rfl
    · split <;> rfl

/-- `standalone` ends. -/
def StandaloneEnds (c : Context) (p : Policy) (order : BaseItemEntity → List Nat → List Nat)
    (item : BaseItemEntity) : Prop :=
  ∃ fuel, (c.standaloneIn p order fuel item).isSome

/-- **`standalone` ends where visibility does**: it asks for the item, its parents and its
channel. -/
theorem standalone_ends (h : ∀ item skip, c.VisibleEnds p order item skip)
    (item : BaseItemEntity) : c.StandaloneEnds p order item := by
  let parents := ((c.chain item false).toOption.getD []).tail
  obtain ⟨fuel, hall⟩ := visible_ends_together h ((item, false) ::
    ((item.channelId.bind c.row).toList.map fun channel => (channel, false)) ++
    parents.map fun parent => (parent, true))
  have hitem := hall (item, false) (List.mem_append_left _ (List.mem_cons_self ..))
  have hchannel : ∀ channel, item.channelId.bind c.row = some channel →
      (c.visibleIn p order fuel channel false).isSome := by
    intro channel hchannel
    refine hall (channel, false) (List.mem_append_left _ (List.mem_cons_of_mem _ ?_))
    exact List.mem_map.mpr ⟨channel, Option.mem_toList.mpr hchannel, rfl⟩
  have hparents : ∀ parent ∈ parents, (c.visibleIn p order fuel parent true).isSome :=
    fun parent hparent => hall (parent, true)
      (List.mem_append_right _ (List.mem_map.mpr ⟨parent, hparent, rfl⟩))
  obtain ⟨answer, hanswer⟩ := Option.isSome_iff_exists.mp hitem
  refine ⟨fuel, ?_⟩
  unfold standaloneIn
  split
  · rfl
  · rw [hanswer]
    rcases answer with e | ⟨_ | _⟩
    · rfl
    · rfl
    · dsimp only
      split
      · rfl
      · cases hchain : c.chain item false with
        | error e => rfl
        | ok chain =>
          have htail : parents = chain.tail := by
            simp only [parents, hchain, Except.toOption, Option.getD_some]
          obtain ⟨answer, hanswer⟩ := Option.isSome_iff_exists.mp
            (parentsVisibleIn_isSome (htail ▸ hparents))
          dsimp only
          rw [hanswer]
          rcases answer with e | ⟨_ | _⟩
          · rfl
          · rfl
          · exact standaloneRest_isSome hchannel

/-- What a collection links to, itself or by the collections it links to. -/
inductive Linked (c : Context) (item : BaseItemEntity) : Nat → Prop
  | link {id : Nat} : id ∈ c.links item.id → c.Linked item id
  | through {id id' : Nat} : c.Linked item id → (c.row id).any (·.kind = .boxSet) = true →
    id' ∈ c.links id → c.Linked item id'

/-- The fuel of the members' queue is enough: nothing that is linked is left out. -/
theorem mem_collectionMembers (hitem : item ∈ c.rows) {id : Nat} (h : c.Linked item id)
    (hrow : c.row id = some row) (hkind : row.kind ≠ .boxSet) :
    row ∈ c.collectionMembers item := by
  have hmem : ∀ {r : BaseItemEntity} {b : Nat}, r ∈ c.rows → b ∈ r.id :: c.links r.id →
      b ∈ c.rows.flatMap fun row => row.id :: c.links row.id := fun hr hb =>
    List.mem_flatMap.mpr ⟨_, hr, hb⟩
  -- only stored collections go on to others
  have hstored : ∀ {a : Nat}, (c.row a).any (·.kind = .boxSet) = true →
      ∃ r ∈ c.rows, r.id = a := by
    intro a hany
    obtain ⟨r, hr, -⟩ := (Option.any_eq_true ..).mp hany
    exact ⟨r, mem_row hr⟩
  have hdegree : ∀ a,
      (if (c.row a).any (·.kind = .boxSet) then c.links a else []).length ≤
        (c.rows.map fun row => (c.links row.id).length).foldl max 0 := by
    intro a
    split
    · next hany =>
      obtain ⟨r, hr, rfl⟩ := hstored hany
      rw [List.foldl_max]
      exact Nat.le_trans (List.le_max?_getD_of_mem (List.mem_map.mpr ⟨r, hr, rfl⟩))
        (Nat.le_max_right ..)
    · exact Nat.zero_le _
  obtain ⟨hqueued, hclosed⟩ := @walk_closed Nat _
    (fun id => if (c.row id).any (·.kind = .boxSet) then c.links id else []) _ _ _
    (c.links item.id) [item.id] (fun a _ b hb => by
      split at hb
      · next hany =>
        obtain ⟨r, hr, rfl⟩ := hstored hany
        exact hmem hr (List.mem_cons_of_mem _ hb)
      · cases hb)
    (fun a _ => hdegree a) (fun a ha => hmem hitem (List.mem_cons_of_mem _ ha))
    (fun a ha b hb => by
      cases List.mem_singleton.mp ha
      split at hb
      · exact .inr hb
      · cases hb)
    (Nat.add_le_add_left (Nat.mul_le_mul_right _ (List.length_filter_le ..)) _)
  refine List.mem_filter.mpr ⟨List.mem_filterMap.mpr ⟨id, ?_, hrow⟩, by simpa using hkind⟩
  clear hrow
  induction h with
  | link hl => exact hqueued _ hl
  | through _ hany hb ih => exact hclosed _ ih _ (by rwa [if_pos hany])

/-- Every part of the evaluation ends: loading in some number of rounds, the walks up within as many
steps as there are rows, the queue of a collection's members with nothing left out, and visibility
in every order of the hash sets with some stack. -/
structure EvaluationEnds (stored : Stored) (playlistLinks : Bool) (rows : List BaseItemEntity)
    (c : Context) (p : Policy) : Prop where
  loads : ∃ fuel, (Hierarchy.load stored playlistLinks fuel (Hierarchy.start rows)).isSome
  chain : ∀ display item extra, c.chainLoop display (c.rows.length + 1 + extra) [item.id] item =
    c.chainLoop display (c.rows.length + 1) [item.id] item
  libraries : ∀ item extra, c.librariesLoop (c.rows.length + 1 + extra) [] item =
    c.librariesLoop (c.rows.length + 1) [] item
  members : ∀ item ∈ c.rows, ∀ id row, c.Linked item id → c.row id = some row →
    row.kind ≠ .boxSet → row ∈ c.collectionMembers item
  visible : ∀ order, IsOrder order → ∀ item skip, c.VisibleEnds p order item skip
  standalone : ∀ order, IsOrder order → ∀ item, c.StandaloneEnds p order item

/-- **The evaluation ends exactly where no collection asks on and on.** -/
theorem evaluation_ends_iff (stored : Stored) (playlistLinks : Bool) (rows : List BaseItemEntity)
    (c : Context) (p : Policy) :
    EvaluationEnds stored playlistLinks rows c p ↔
      ∀ item skip, Acc (c.Asked p) (item, skip) := by
  refine ⟨fun h => visible_ends_iff.mp h.visible, fun h => ?_⟩
  have hvisible := visible_ends_iff.mpr h
  exact ⟨Hierarchy.loaded stored playlistLinks rows, chainLoop_add, librariesLoop_add,
    fun _ hitem _ _ h => mem_collectionMembers hitem h, hvisible,
    fun order horder => standalone_ends (hvisible order horder)⟩

/-- A collection that its own data names as its library, with a link to a row that is gone. -/
def ownLibrary : BaseItemEntity :=
  { id := 1, kind := .boxSet, data := { libraryFolderIds := some [1] } }

def ownLibraryContext : Context where
  service := ratesFive
  userId := some 7
  rows := [ownLibrary]
  nodup := by decide
  libraryIds := []
  links := fun id => if id = 1 then [2] else []
  options := fun _ => none
  playlists := fun _ => none

/-- Its visibility asks for its visibility. -/
theorem ownLibrary_endless :
    ¬EvaluationEnds ⟨[ownLibrary], ownLibraryContext.links⟩ false [ownLibrary] ownLibraryContext
      {} := by
  intro h
  obtain ⟨fuel, hends⟩ := h.visible (fun _ ids => ids) (fun _ _ _ => Iff.rfl) ownLibrary false
  have hnone : ∀ fuel, ownLibraryContext.visibleIn {} (fun _ ids => ids) fuel ownLibrary false =
      none := by
    intro fuel
    induction fuel with
    | zero => rfl
    | succ fuel ih =>
      have hstep : ownLibraryContext.visibleStep {} ownLibrary false = .inr [1] := by rfl
      have hrow : [1].filterMap ownLibraryContext.row = [ownLibrary] := by rfl
      rw [visibleIn, hstep]
      dsimp only
      rw [hrow, askAll, ih]
  rw [hnone fuel] at hends
  cases hends

end Context

end Ferrofin.Visibility
