import Ferrofin.MergeVersions.Groups

/-!
# Merging and splitting by hand

`merge_versions` points the given videos, and the merged versions of each, at one of them, and
`remove_alternate_sources` clears the pointers of a group again.  A version is merged when a row of
`LinkedChildren` links it or when it points at its primary without being a file that the scan found
with it (`getMergedVersionIds`).  A write moves the row with the pointer; a scan that finds a
version with another file leaves the rows of other parents, and the version of such a row does not
move (`stale_row_left`).  A merge is flat where no video has such a row
(`VersionLinks.Follows`).

The videos are worked off one after another, and the versions of each are read from what the ones
before it left: `Merging` is what holds in between.
-/

namespace Ferrofin.MergeVersions

open Lib
open List (foldl_cons mem_append mem_cons mem_cons_of_mem mem_cons_self mem_filter mem_map
  mem_singleton)

/-! ### Rows -/

/-- `LinkedChildType`, of the types that are given here. -/
inductive LinkedChildType where
  | manual | localAlternateVersion | linkedAlternateVersion
deriving DecidableEq

/-- A row of `LinkedChildren`. -/
structure LinkedChild where
  parentId : Nat
  childId : Nat
  childType : LinkedChildType
deriving DecidableEq

/-- The pointers and the rows of `LinkedChildren`. -/
@[ext] structure VersionLinks where
  primaryVersionId : Nat → Option Nat
  linkedChildren : List LinkedChild

/-- `ServiceError`, of the errors that are given here. -/
inductive ServiceError where
  | invalidInput (message : String)
  | notFound (id : Nat)
deriving DecidableEq

namespace VersionLinks

variable (c : Catalog) (s : VersionLinks)

def setPrimaryVersionId (item : Nat) (primary : Option Nat) : VersionLinks where
  primaryVersionId := Function.update s.primaryVersionId item primary
  linkedChildren :=
    (s.linkedChildren.filter fun row => ¬(row.childId = item ∧ row.childType ≠ .manual)) ++
      (primary.map fun primary => ⟨primary, item, .linkedAlternateVersion⟩).toList

def lists (parent child : Nat) : Bool := s.linkedChildren.any (· = ⟨parent, child, .manual⟩)

def rerouteLinkedChildren (source target : Nat) : VersionLinks where
  primaryVersionId := s.primaryVersionId
  linkedChildren :=
    (s.linkedChildren.filter fun row =>
      ¬(row.childId = source ∧ row.childType = .manual ∧ s.lists row.parentId target = true)).map
        fun row => if row.childId = source ∧ row.childType = .manual then
          { row with childId := target } else row

def getMergedVersionIds (primary : Nat) : List Nat :=
  ((s.linkedChildren.filter fun row =>
      row.parentId = primary ∧ row.childType = .linkedAlternateVersion).map (·.childId) ++
    (c.items.filter fun item => s.primaryVersionId item.id = some primary ∧
      ¬(item.ownerId = some primary ∧ item.extraType = none) ∧
      (⟨primary, item.id, .localAlternateVersion⟩ : LinkedChild) ∉ s.linkedChildren).map
        (·.id)).dedup

/-- An item is the primary of another one (`get_items_by_primary_version_batch`). -/
def hasVersions (item : BaseItemEntity) : Bool :=
  c.items.any fun version => s.primaryVersionId version.id = some item.id

end VersionLinks

/-! ### Merging and splitting -/

namespace Catalog

variable (c : Catalog)

def supplied (ids : List Nat) : List BaseItemEntity :=
  ((ids.filterMap c.retrieveItem).insertionSort fun a b => a.id ≤ b.id).destutter
    fun a b => a.id ≠ b.id

def primaryAmong (s : VersionLinks) (items : List BaseItemEntity) : Option BaseItemEntity :=
  (items.find? fun item => (s.primaryVersionId item.id).isNone && s.hasVersions c item).or
    items[preferredPrimaryVersion items]?

def moveVersions (merging : List Nat) (primary : Nat) (versions : List Nat) (s : VersionLinks) :
    VersionLinks :=
  versions.foldl (fun s version =>
    if version ≠ primary ∧ version ∉ merging then s.setPrimaryVersionId version (some primary)
    else s) s

/-- What is done for one of the videos, which are as they were `loaded`. -/
def mergeItem (reroutes : Bool) (loaded : VersionLinks) (merging : List Nat) (primary : Nat)
    (s : VersionLinks) (item : Nat) : VersionLinks :=
  if item = primary then
    if (loaded.primaryVersionId item).isSome then s.setPrimaryVersionId item none else s
  else
    let s := if loaded.primaryVersionId item ≠ some primary then
      s.setPrimaryVersionId item (some primary) else s
    let s := if reroutes then s.rerouteLinkedChildren item primary else s
    moveVersions merging primary (s.getMergedVersionIds c item) s

/-- `merge_versions`; `reroutes` says whether there is a service for the linked children. -/
def mergeVersions (reroutes : Bool) (ids : List Nat) (s : VersionLinks) :
    Except ServiceError VersionLinks :=
  let items := c.supplied ids
  if items.length < 2 then
    .error (.invalidInput "please supply at least two videos to merge")
  else
    match c.primaryAmong s items with
    | some primary =>
      let merging := items.map (·.id)
      .ok (merging.foldl (c.mergeItem reroutes s merging primary.id) s)
    | none => .ok s

def splitVersions (versions : List Nat) (s : VersionLinks) : VersionLinks :=
  versions.foldl (fun s version => s.setPrimaryVersionId version none) s

def removeAlternateSources (itemId : Nat) (s : VersionLinks) : Except ServiceError VersionLinks :=
  match c.retrieveItem itemId with
  | none => .error (.notFound itemId)
  | some _ =>
    let primary := if s.getMergedVersionIds c itemId = [] then
      (s.primaryVersionId itemId).getD itemId else itemId
    let s := splitVersions (s.getMergedVersionIds c primary) s
    .ok (if (c.retrieveItem primary).isSome ∧ (s.primaryVersionId primary).isSome then
      s.setPrimaryVersionId primary none else s)

end Catalog

/-! ### What a write changes -/

namespace VersionLinks

variable {c : Catalog} {s : VersionLinks} {x v w : Nat}

theorem mem_getMergedVersionIds : v ∈ s.getMergedVersionIds c x ↔
    ⟨x, v, .linkedAlternateVersion⟩ ∈ s.linkedChildren ∨
    (s.primaryVersionId v = some x ∧ (⟨x, v, .localAlternateVersion⟩ : LinkedChild) ∉
      s.linkedChildren ∧ ∃ item ∈ c.items, item.id = v ∧
        ¬(item.ownerId = some x ∧ item.extraType = none)) := by
  unfold getMergedVersionIds
  rw [List.mem_dedup, mem_append]
  refine or_congr ⟨fun h => ?_, fun h => ?_⟩ ⟨fun h => ?_, ?_⟩
  · obtain ⟨⟨p, v, t⟩, hrow, rfl⟩ := mem_map.mp h
    obtain ⟨hmem, hrow⟩ := mem_filter.mp hrow
    obtain ⟨rfl, rfl⟩ := of_decide_eq_true hrow
    exact hmem
  · exact mem_map.mpr ⟨_, mem_filter.mpr ⟨h, decide_eq_true ⟨rfl, rfl⟩⟩, rfl⟩
  · obtain ⟨item, hitem, rfl⟩ := mem_map.mp h
    obtain ⟨hmem, hitem⟩ := mem_filter.mp hitem
    obtain ⟨hp, howned, hlocal⟩ := of_decide_eq_true hitem
    exact ⟨hp, hlocal, item, hmem, rfl, howned⟩
  · rintro ⟨hp, hlocal, item, hmem, rfl, howned⟩
    exact mem_map.mpr
      ⟨item, mem_filter.mpr ⟨hmem, decide_eq_true ⟨hp, howned, hlocal⟩⟩, rfl⟩

def Follows (s : VersionLinks) (videos : List Nat) : Prop :=
  ∀ x ∈ videos, ∀ v, ⟨x, v, .linkedAlternateVersion⟩ ∈ s.linkedChildren →
    s.primaryVersionId v = some x

theorem Follows.primaryVersionId_of_mem {videos : List Nat} (h : s.Follows videos)
    (hx : x ∈ videos) (hv : v ∈ s.getMergedVersionIds c x) : s.primaryVersionId v = some x := by
  rcases mem_getMergedVersionIds.mp hv with hv | ⟨hv, -⟩
  · exact h x hx v hv
  · exact hv

@[simp] theorem primaryVersionId_set (item : Nat) (primary : Option Nat) :
    (s.setPrimaryVersionId item primary).primaryVersionId item = primary :=
  Function.update_self ..

theorem primaryVersionId_set_of_ne (h : v ≠ w) (primary : Option Nat) :
    (s.setPrimaryVersionId w primary).primaryVersionId v = s.primaryVersionId v :=
  Function.update_of_ne h ..

theorem mem_linkedChildren_set (h : v ≠ w) (primary : Option Nat) (t : LinkedChildType) :
    ⟨x, v, t⟩ ∈ (s.setPrimaryVersionId w primary).linkedChildren ↔
      ⟨x, v, t⟩ ∈ s.linkedChildren := by
  unfold setPrimaryVersionId
  dsimp only
  rw [mem_append, mem_filter]
  constructor
  · rintro (⟨hmem, -⟩ | hmem)
    · exact hmem
    · obtain ⟨p, -, hrow⟩ := Option.map_eq_some_iff.mp (Option.mem_toList.mp hmem)
      exact absurd (congrArg LinkedChild.childId hrow).symm h
  · exact fun hmem => .inl ⟨hmem, decide_eq_true fun hrow => h hrow.1⟩

theorem mem_getMergedVersionIds_set (h : v ≠ w) (primary : Option Nat) :
    v ∈ (s.setPrimaryVersionId w primary).getMergedVersionIds c x ↔
      v ∈ s.getMergedVersionIds c x := by
  rw [mem_getMergedVersionIds, mem_getMergedVersionIds, mem_linkedChildren_set h,
    mem_linkedChildren_set h, primaryVersionId_set_of_ne h]

theorem mem_linkedChildren_set_self {primary : Option Nat}
    (h : ⟨x, v, .linkedAlternateVersion⟩ ∈ (s.setPrimaryVersionId v primary).linkedChildren) :
    primary = some x := by
  rcases mem_append.mp h with h | h
  · exact absurd ⟨rfl, LinkedChildType.noConfusion⟩ (of_decide_eq_true (mem_filter.mp h).2)
  · obtain ⟨p, hp, hrow⟩ := Option.map_eq_some_iff.mp (Option.mem_toList.mp h)
    rw [hp]
    exact congrArg some (congrArg LinkedChild.parentId hrow)

theorem ne_of_mem_set {primary : Option Nat} (hne : primary ≠ some x)
    (h : v ∈ (s.setPrimaryVersionId w primary).getMergedVersionIds c x) : v ≠ w := by
  rintro rfl
  rcases mem_getMergedVersionIds.mp h with h | ⟨h, -⟩
  · exact hne (mem_linkedChildren_set_self h)
  · exact hne ((primaryVersionId_set v primary).symm.trans h)

theorem Follows.set {videos : List Nat} (h : s.Follows videos) (item : Nat)
    (primary : Option Nat) : (s.setPrimaryVersionId item primary).Follows videos := by
  intro x hx v hv
  by_cases hvi : v = item
  · subst hvi
    rw [primaryVersionId_set]
    exact mem_linkedChildren_set_self hv
  · rw [primaryVersionId_set_of_ne hvi]
    exact h x hx v ((mem_linkedChildren_set hvi ..).mp hv)

theorem mem_linkedChildren_reroute (source target : Nat) {t : LinkedChildType}
    (ht : t ≠ .manual) : ⟨x, v, t⟩ ∈ (s.rerouteLinkedChildren source target).linkedChildren ↔
      ⟨x, v, t⟩ ∈ s.linkedChildren := by
  unfold rerouteLinkedChildren
  dsimp only
  rw [mem_map]
  constructor
  · rintro ⟨row, hrow, heq⟩
    split at heq
    · next hmanual =>
      have htype := congrArg LinkedChild.childType heq
      exact absurd (htype.symm.trans hmanual.2) ht
    · exact heq ▸ (mem_filter.mp hrow).1
  · intro hmem
    refine ⟨_, mem_filter.mpr ⟨hmem, decide_eq_true fun h => ht h.2.1⟩, ?_⟩
    exact if_neg fun h => ht h.2

theorem Follows.reroute {videos : List Nat} (h : s.Follows videos) (source target : Nat) :
    (s.rerouteLinkedChildren source target).Follows videos := fun x hx v hv =>
  h x hx v ((mem_linkedChildren_reroute _ _ (by exact nofun)).mp hv)

theorem mem_getMergedVersionIds_reroute (source target : Nat) :
    v ∈ (s.rerouteLinkedChildren source target).getMergedVersionIds c x ↔
      v ∈ s.getMergedVersionIds c x := by
  rw [mem_getMergedVersionIds, mem_getMergedVersionIds,
    mem_linkedChildren_reroute _ _ (by exact nofun),
    mem_linkedChildren_reroute _ _ (by exact nofun)]
  rfl

def Unlisted (s : VersionLinks) (x : Nat) : Prop :=
  ∀ row ∈ s.linkedChildren, row.childId = x → row.childType ≠ .manual

theorem Unlisted.set (h : s.Unlisted x) (item : Nat) (primary : Option Nat) :
    (s.setPrimaryVersionId item primary).Unlisted x := by
  intro row hrow hx
  rcases mem_append.mp hrow with hrow | hrow
  · exact h row (mem_filter.mp hrow).1 hx
  · obtain ⟨p, -, rfl⟩ := Option.map_eq_some_iff.mp (Option.mem_toList.mp hrow)
    exact nofun

theorem unlisted_reroute {source target : Nat} (h : source ≠ target) :
    (s.rerouteLinkedChildren source target).Unlisted source := by
  intro row hrow hx
  obtain ⟨old, -, rfl⟩ := mem_map.mp hrow
  split at hx
  · exact absurd hx h.symm
  · next hkept => rw [if_neg hkept]; exact fun htype => hkept ⟨hx, htype⟩

theorem Unlisted.reroute (h : s.Unlisted x) {target : Nat} (hne : x ≠ target) (source : Nat) :
    (s.rerouteLinkedChildren source target).Unlisted x := by
  intro row hrow hx
  obtain ⟨old, hold, rfl⟩ := mem_map.mp hrow
  split at hx
  · exact absurd hx.symm hne
  · next hkept => rw [if_neg hkept]; exact h old (mem_filter.mp hold).1 hx

theorem rerouteLinkedChildren_eq_self {source target : Nat} (h : s.Unlisted source) :
    s.rerouteLinkedChildren source target = s := by
  refine VersionLinks.ext rfl ?_
  unfold rerouteLinkedChildren
  dsimp only
  have hfilter : (s.linkedChildren.filter fun row => ¬(row.childId = source ∧
      row.childType = .manual ∧ s.lists row.parentId target = true)) = s.linkedChildren :=
    List.filter_eq_self.mpr fun row hrow =>
      decide_eq_true fun hrow' => h row hrow hrow'.1 hrow'.2.1
  rw [hfilter]
  refine List.map_congr_left (g := id) (fun row hrow => if_neg fun hrow' => ?_) |>.trans
    (List.map_id _)
  exact h row hrow hrow'.1 hrow'.2

end VersionLinks

/-! ### The videos one after another -/

structure Merging (c : Catalog) (reroutes : Bool) (s₀ : VersionLinks) (merging : List Nat)
    (primary : Nat) (done rest : List Nat) (s : VersionLinks) : Prop where
  done_eq : ∀ x ∈ done, s.primaryVersionId x = if x = primary then none else some primary
  rest_eq : ∀ x ∈ rest, s.primaryVersionId x = s₀.primaryVersionId x
  /-- The versions of a video that is done are videos that are merged themselves. -/
  versions : ∀ x ∈ done, x ≠ primary → ∀ v ∈ s.getMergedVersionIds c x, v ∈ merging
  /-- Nothing becomes a version but of the primary. -/
  subset : ∀ x, x ≠ primary → ∀ v ∈ s.getMergedVersionIds c x, v ∈ s₀.getMergedVersionIds c x
  /-- A version stays one or has moved to the primary. -/
  moved : ∀ x, ∀ v ∉ merging, v ∈ s₀.getMergedVersionIds c x →
    v ∈ s.getMergedVersionIds c x ∨ s.primaryVersionId v = some primary
  changed : ∀ v ∉ merging, s.primaryVersionId v ≠ s₀.primaryVersionId v →
    s.primaryVersionId v = some primary ∧ ∃ x ∈ merging, v ∈ s₀.getMergedVersionIds c x
  unlisted : reroutes = true → ∀ x ∈ done, x ≠ primary → s.Unlisted x
  follows : s.Follows merging

namespace Merging

open VersionLinks

variable {c : Catalog} {reroutes : Bool} {s₀ s : VersionLinks} {merging done rest : List Nat}
  {primary x : Nat}

theorem start (c : Catalog) (reroutes : Bool) {s : VersionLinks} {merging : List Nat}
    (hs : s.Follows merging) (primary : Nat) :
    Merging c reroutes s merging primary [] merging s where
  done_eq := nofun
  rest_eq _ _ := rfl
  versions := nofun
  subset _ _ _ h := h
  moved _ _ _ h := .inl h
  changed _ _ h := absurd rfl h
  unlisted _ := nofun
  follows := hs

theorem tail (h : Merging c reroutes s₀ merging primary done (x :: rest) s) :
    Merging c reroutes s₀ merging primary done rest s :=
  { h with rest_eq := fun y hy => h.rest_eq y (mem_cons_of_mem _ hy) }

/-- Whatever is written of a video that is neither done nor left, or of a version that moves, makes
nothing a version but of the primary. -/
theorem subset_set {p : Option Nat} (hp : ∀ y, y ≠ primary → p ≠ some y) {y v w : Nat}
    (hne : y ≠ primary) (hv : v ∈ (s.setPrimaryVersionId w p).getMergedVersionIds c y) :
    v ≠ w ∧ v ∈ s.getMergedVersionIds c y := by
  have hvw := ne_of_mem_set (hp y hne) hv
  exact ⟨hvw, (mem_getMergedVersionIds_set hvw p).mp hv⟩

/-- A video that is being merged is pointed at the primary, or is the primary. -/
theorem set (h : Merging c reroutes s₀ merging primary done rest s) (hx : x ∈ merging)
    (hdone : x ∉ done) (hrest : x ∉ rest) {p : Option Nat}
    (hp : ∀ y, y ≠ primary → p ≠ some y) :
    Merging c reroutes s₀ merging primary done rest (s.setPrimaryVersionId x p) where
  done_eq y hy := by
    rw [primaryVersionId_set_of_ne (ne_of_mem_of_not_mem hy hdone)]
    exact h.done_eq y hy
  rest_eq y hy := by
    rw [primaryVersionId_set_of_ne (ne_of_mem_of_not_mem hy hrest)]
    exact h.rest_eq y hy
  versions y hy hne v hv := h.versions y hy hne v (subset_set hp hne hv).2
  subset y hne v hv := h.subset y hne v (subset_set hp hne hv).2
  moved y v hv hmem := by
    have hvx : v ≠ x := (ne_of_mem_of_not_mem hx hv).symm
    rw [mem_getMergedVersionIds_set hvx, primaryVersionId_set_of_ne hvx]
    exact h.moved y v hv hmem
  changed v hv hne := by
    have hvx : v ≠ x := (ne_of_mem_of_not_mem hx hv).symm
    rw [primaryVersionId_set_of_ne hvx] at hne ⊢
    exact h.changed v hv hne
  unlisted hr y hy hne := (h.unlisted hr y hy hne).set x p
  follows := h.follows.set x p

theorem move (h : Merging c reroutes s₀ merging primary done rest s)
    (hsub : ∀ y ∈ done ++ rest, y ∈ merging) (hx : x ∈ merging) {w : Nat} (hw : w ∉ merging)
    (hversion : w ∈ s₀.getMergedVersionIds c x) :
    Merging c reroutes s₀ merging primary done rest (s.setPrimaryVersionId w (some primary)) where
  done_eq y hy := by
    have hyw : y ≠ w := ne_of_mem_of_not_mem (hsub y (List.mem_append_left _ hy)) hw
    rw [primaryVersionId_set_of_ne hyw]
    exact h.done_eq y hy
  rest_eq y hy := by
    have hyw : y ≠ w := ne_of_mem_of_not_mem (hsub y (List.mem_append_right _ hy)) hw
    rw [primaryVersionId_set_of_ne hyw]
    exact h.rest_eq y hy
  versions y hy hne v hv :=
    h.versions y hy hne v (subset_set (fun _ hne heq => hne (Option.some.inj heq).symm) hne hv).2
  subset y hne v hv :=
    h.subset y hne v (subset_set (fun _ hne heq => hne (Option.some.inj heq).symm) hne hv).2
  moved y v hv hmem := by
    by_cases hvw : v = w
    · exact .inr (hvw ▸ primaryVersionId_set ..)
    · rw [mem_getMergedVersionIds_set hvw, primaryVersionId_set_of_ne hvw]
      exact h.moved y v hv hmem
  changed v hv hne := by
    by_cases hvw : v = w
    · subst hvw
      exact ⟨primaryVersionId_set .., x, hx, hversion⟩
    · rw [primaryVersionId_set_of_ne hvw] at hne ⊢
      exact h.changed v hv hne
  unlisted hr y hy hne := (h.unlisted hr y hy hne).set w _
  follows := h.follows.set w _

theorem reroute (h : Merging c reroutes s₀ merging primary done rest s) :
    Merging c reroutes s₀ merging primary done rest (s.rerouteLinkedChildren x primary) where
  done_eq := h.done_eq
  rest_eq := h.rest_eq
  versions y hy hne v hv := h.versions y hy hne v ((mem_getMergedVersionIds_reroute ..).mp hv)
  subset y hne v hv := h.subset y hne v ((mem_getMergedVersionIds_reroute ..).mp hv)
  moved y v hv hmem := (h.moved y v hv hmem).imp_left (mem_getMergedVersionIds_reroute ..).mpr
  changed := h.changed
  unlisted hr y hy hne := (h.unlisted hr y hy hne).reroute hne x
  follows := h.follows.reroute x primary

/-- **The versions of a video move**: then none is left behind it but those that are merged. -/
theorem moveVersions (hsub : ∀ y ∈ done ++ rest, y ∈ merging) (hx : x ∈ merging)
    (hne : x ≠ primary) {versions : List Nat}
    (h : Merging c reroutes s₀ merging primary done rest s)
    (hversions : ∀ v ∈ versions, v ∈ s₀.getMergedVersionIds c x)
    (hall : ∀ v ∈ s.getMergedVersionIds c x, v ∈ versions ∨ v ∈ merging)
    (hprimary : primary ∈ merging) :
    let t := Catalog.moveVersions merging primary versions s
    Merging c reroutes s₀ merging primary done rest t ∧
      (∀ v ∈ t.getMergedVersionIds c x, v ∈ merging) ∧
      (∀ y ∈ merging, t.primaryVersionId y = s.primaryVersionId y) ∧
      ∀ y, s.Unlisted y → t.Unlisted y := by
  induction versions generalizing s with
  | nil => exact ⟨h, fun v hv => (hall v hv).resolve_left nofun, fun _ _ => rfl, fun _ hy => hy⟩
  | cons w versions ih =>
    have hlater : ∀ v ∈ versions, v ∈ s₀.getMergedVersionIds c x := fun v hv =>
      hversions v (mem_cons_of_mem _ hv)
    dsimp only [Catalog.moveVersions, foldl_cons]
    by_cases hmoves : w ≠ primary ∧ w ∉ merging
    · rw [if_pos hmoves]
      have hmove := h.move hsub hx hmoves.2 (hversions w (mem_cons_self ..))
      have hleft : ∀ v ∈ (s.setPrimaryVersionId w (some primary)).getMergedVersionIds c x,
          v ∈ versions ∨ v ∈ merging := by
        intro v hv
        obtain ⟨hvw, hmem⟩ :=
          subset_set (fun _ hne heq => hne (Option.some.inj heq).symm) hne hv
        refine (hall v hmem).imp_left fun hv => ?_
        exact (mem_cons.mp hv).resolve_left hvw
      obtain ⟨hm, hlast, hkept, hlists⟩ := ih hmove hlater hleft
      refine ⟨hm, hlast, fun y hy => ?_, fun y hy => hlists y (hy.set w _)⟩
      exact (hkept y hy).trans
        (primaryVersionId_set_of_ne (ne_of_mem_of_not_mem hy hmoves.2) (some primary))
    · rw [if_neg hmoves]
      have hw : w ∈ merging := by
        refine Decidable.byContradiction fun hw => hmoves ⟨?_, hw⟩
        exact (ne_of_mem_of_not_mem hprimary hw).symm
      refine ih h hlater fun v hv => ?_
      rcases hall v hv with hv | hv
      · rcases mem_cons.mp hv with rfl | hv
        · exact .inr hw
        · exact .inl hv
      · exact .inr hv

/-- **One video is merged.** -/
theorem mergeItem (h : Merging c reroutes s₀ merging primary done (x :: rest) s)
    (hsub : ∀ y ∈ done ++ x :: rest, y ∈ merging) (hnodup : (done ++ x :: rest).Nodup)
    (hprimary : primary ∈ merging) :
    Merging c reroutes s₀ merging primary (done ++ [x]) rest
      (c.mergeItem reroutes s₀ merging primary s x) := by
  have hx : x ∈ merging := hsub x (by simp)
  have hdone : x ∉ done := fun hmem => by
    simpa using (List.nodup_append.mp hnodup).2.2 x hmem x (mem_cons_self ..)
  have hrest : x ∉ rest := (List.nodup_cons.mp (List.nodup_append.mp hnodup).2.1).1
  have hsub' : ∀ y ∈ done ++ rest, y ∈ merging := fun y hy => hsub y <| by
    rcases mem_append.mp hy with hy | hy
    · exact List.mem_append_left _ hy
    · exact List.mem_append_right _ (mem_cons_of_mem _ hy)
  have heq := h.rest_eq x (mem_cons_self ..)
  have hcurrent := h.tail
  -- What is left to show of the video itself.
  have hfinish : ∀ t : VersionLinks, Merging c reroutes s₀ merging primary done rest t →
      t.primaryVersionId x = (if x = primary then none else some primary) →
      (x ≠ primary → ∀ v ∈ t.getMergedVersionIds c x, v ∈ merging) →
      (reroutes = true → x ≠ primary → t.Unlisted x) →
      Merging c reroutes s₀ merging primary (done ++ [x]) rest t := by
    intro t ht hpointer hversions hlists
    refine { ht with done_eq := ?_, versions := ?_, unlisted := ?_ } <;> intro hr
    · intro hy
      rcases mem_append.mp hy with hy | hy
      · exact ht.done_eq _ hy
      · exact mem_singleton.mp hy ▸ hpointer
    · intro hy hne
      rcases mem_append.mp hy with hy | hy
      · exact ht.versions _ hy hne
      · obtain rfl := mem_singleton.mp hy
        exact hversions hne
    · intro y hy hne
      rcases mem_append.mp hy with hy | hy
      · exact ht.unlisted hr y hy hne
      · obtain rfl := mem_singleton.mp hy
        exact hlists hr hne
  unfold Catalog.mergeItem
  by_cases hself : x = primary
  · rw [if_pos hself]
    split
    · refine hfinish _ (hcurrent.set hx hdone hrest nofun) ?_ (absurd hself) fun _ => absurd hself
      rw [primaryVersionId_set, if_pos hself]
    · next hnone =>
      refine hfinish _ hcurrent ?_ (absurd hself) fun _ => absurd hself
      rw [heq, if_pos hself]
      exact Option.not_isSome_iff_eq_none.mp hnone
  · rw [if_neg hself]
    dsimp only
    -- The video is pointed at the primary, which it may be already.
    generalize ht₁ : (if s₀.primaryVersionId x ≠ some primary then
      s.setPrimaryVersionId x (some primary) else s) = t₁
    have hpointed : Merging c reroutes s₀ merging primary done rest t₁ ∧
        t₁.primaryVersionId x = some primary := by
      rw [← ht₁]
      split
      · exact ⟨hcurrent.set hx hdone hrest fun _ hne h => hne (Option.some.inj h).symm,
          primaryVersionId_set ..⟩
      · next hsame => exact ⟨hcurrent, heq.trans (Decidable.not_not.mp hsame)⟩
    generalize ht₂ : (if reroutes then t₁.rerouteLinkedChildren x primary else t₁) = t₂
    have hrerouted : Merging c reroutes s₀ merging primary done rest t₂ ∧
        t₂.primaryVersionId x = some primary ∧ (reroutes = true → t₂.Unlisted x) := by
      rw [← ht₂]
      split
      · exact ⟨hpointed.1.reroute, hpointed.2, fun _ => unlisted_reroute hself⟩
      · next hno => exact ⟨hpointed.1, hpointed.2, fun hr => absurd hr hno⟩
    obtain ⟨hm, hp, hlists⟩ := hrerouted
    obtain ⟨hmoved, hversions, hkept, hunlisted⟩ := moveVersions hsub' hx hself hm
      (hm.subset x hself) (fun v hv => .inl hv) hprimary
    refine hfinish _ hmoved ?_ (fun _ => hversions) fun hr _ => hunlisted x (hlists hr)
    rw [hkept x hx, hp, if_neg hself]

/-- **All videos are merged.** -/
theorem run (h : Merging c reroutes s₀ merging primary done rest s)
    (hsub : ∀ y ∈ done ++ rest, y ∈ merging) (hnodup : (done ++ rest).Nodup)
    (hprimary : primary ∈ merging) :
    Merging c reroutes s₀ merging primary (done ++ rest) []
      (rest.foldl (c.mergeItem reroutes s₀ merging primary) s) := by
  induction rest generalizing done s with
  | nil => rwa [List.append_nil]
  | cons x rest ih =>
    have hassoc : done ++ x :: rest = done ++ [x] ++ rest := by simp
    rw [foldl_cons, hassoc]
    exact ih (h.mergeItem hsub hnodup hprimary) (hassoc ▸ hsub) (hassoc ▸ hnodup)

end Merging

/-! ### The videos that are merged -/

namespace Catalog

variable {c : Catalog} {reroutes : Bool} {ids : List Nat} {s : VersionLinks}

theorem exists_mem_destutter' {a b : BaseItemEntity} {l : List BaseItemEntity}
    (h : b ∈ a :: l) : ∃ d ∈ l.destutter' (fun a b => a.id ≠ b.id) a, d.id = b.id := by
  induction l generalizing a b with
  | nil => exact ⟨a, List.mem_singleton_self a, by rw [mem_singleton.mp h]⟩
  | cons e l ih =>
    rw [List.destutter'_cons]
    split
    · rcases mem_cons.mp h with rfl | h
      · exact ⟨b, mem_cons_self .., rfl⟩
      · obtain ⟨d, hd, hid⟩ := ih h
        exact ⟨d, mem_cons_of_mem _ hd, hid⟩
    · next heq =>
      have hae : a.id = e.id := Decidable.not_not.mp heq
      rcases mem_cons.mp h with rfl | h
      · exact ih (mem_cons_self ..)
      · rcases mem_cons.mp h with rfl | h
        · obtain ⟨d, hd, hid⟩ := ih (mem_cons_self (a := a) (l := l))
          exact ⟨d, hd, hid.trans hae⟩
        · exact ih (mem_cons_of_mem _ h)

theorem mem_map_supplied {x : Nat} :
    x ∈ (c.supplied ids).map (·.id) ↔ x ∈ ids ∧ c.Stored x := by
  constructor
  · intro h
    obtain ⟨item, hitem, rfl⟩ := mem_map.mp h
    have hmem := (List.mem_insertionSort _).mp ((List.destutter_sublist _ _).subset hitem)
    obtain ⟨id, hid, hitem⟩ := List.mem_filterMap.mp hmem
    obtain ⟨hstored, rfl⟩ := retrieveItem_eq_some_iff.mp hitem
    exact ⟨hid, item, hstored, rfl⟩
  · rintro ⟨hid, item, hstored, rfl⟩
    have hmem : item ∈ (ids.filterMap c.retrieveItem).insertionSort fun a b => a.id ≤ b.id :=
      (List.mem_insertionSort _).mpr
        (List.mem_filterMap.mpr ⟨item.id, hid, retrieveItem_self hstored⟩)
    unfold supplied
    cases hsorted : (ids.filterMap c.retrieveItem).insertionSort fun a b => a.id ≤ b.id with
    | nil =>
      rw [hsorted] at hmem
      cases hmem
    | cons a l =>
      obtain ⟨d, hd, heq⟩ := exists_mem_destutter' (hsorted ▸ hmem)
      exact mem_map.mpr ⟨d, hd, heq⟩

theorem nodup_supplied : ((c.supplied ids).map (·.id)).Nodup := by
  have hsorted : (c.supplied ids).Pairwise fun a b => a.id ≤ b.id := by
    have htotal : Std.Total fun a b : BaseItemEntity => a.id ≤ b.id :=
      ⟨fun a b => Nat.le_total a.id b.id⟩
    have htrans : IsTrans BaseItemEntity fun a b => a.id ≤ b.id :=
      ⟨fun a b d => Nat.le_trans⟩
    exact (List.pairwise_insertionSort (fun a b : BaseItemEntity => a.id ≤ b.id)
      (ids.filterMap c.retrieveItem)).sublist (List.destutter_sublist _ _)
  have hchain : (c.supplied ids).IsChain fun a b => a.id ≠ b.id := List.isChain_destutter _ _
  have hlt : (c.supplied ids).IsChain fun a b => a.id < b.id := by
    generalize c.supplied ids = l at hsorted hchain
    induction l with
    | nil => exact .nil
    | cons a l ih =>
      cases l with
      | nil => exact .singleton a
      | cons b l =>
        rw [List.isChain_cons_cons] at hchain ⊢
        have hle := (List.pairwise_cons.mp hsorted).1 b (mem_cons_self ..)
        exact ⟨Nat.lt_of_le_of_ne hle hchain.1, ih (List.pairwise_cons.mp hsorted).2 hchain.2⟩
  have htrans : IsTrans BaseItemEntity fun a b => a.id < b.id :=
    ⟨fun a b d => Nat.lt_trans⟩
  exact List.pairwise_map.mpr
    ((List.isChain_iff_pairwise.mp hlt).imp fun hab => Nat.ne_of_lt hab)

theorem two_le_length_supplied {a b : Nat} (ha : a ∈ ids ∧ c.Stored a) (hb : b ∈ ids ∧ c.Stored b)
    (hne : a ≠ b) : ¬ (c.supplied ids).length < 2 := by
  intro hlt
  have ha := mem_map_supplied.mpr ha
  have hb := mem_map_supplied.mpr hb
  match hmap : c.supplied ids with
  | [] =>
    rw [hmap] at ha
    cases ha
  | [item] =>
    rw [hmap] at ha hb
    exact hne ((mem_singleton.mp ha).trans (mem_singleton.mp hb).symm)
  | _ :: _ :: l =>
    rw [hmap] at hlt
    exact absurd hlt (by simp)

theorem exists_primaryAmong (s : VersionLinks) {items : List BaseItemEntity} (h : items ≠ []) :
    ∃ primary ∈ items, c.primaryAmong s items = some primary := by
  unfold primaryAmong
  cases hfind : items.find? fun item =>
      (s.primaryVersionId item.id).isNone && s.hasVersions c item with
  | some primary => exact ⟨primary, List.mem_of_find?_eq_some hfind, rfl⟩
  | none =>
    have hlt := preferredPrimaryVersion_lt h
    exact ⟨_, List.getElem_mem hlt, (Option.none_or).trans (List.getElem?_eq_getElem hlt)⟩

/-- **A merge** is that of the videos one after another. -/
theorem mergeVersions_spec (reroutes : Bool) {a b : Nat} (ha : a ∈ ids ∧ c.Stored a)
    (hb : b ∈ ids ∧ c.Stored b) (hne : a ≠ b)
    (hs : s.Follows ((c.supplied ids).map (·.id))) :
    ∃ s' primary, c.mergeVersions reroutes ids s = .ok s' ∧
      primary ∈ (c.supplied ids).map (·.id) ∧
      Merging c reroutes s ((c.supplied ids).map (·.id)) primary ((c.supplied ids).map (·.id)) []
        s' := by
  have htwo := two_le_length_supplied ha hb hne
  have hnil : c.supplied ids ≠ [] := fun hnil => htwo (by rw [hnil]; exact Nat.zero_lt_two)
  obtain ⟨item, hitem, hprimary⟩ := exists_primaryAmong s hnil
  have hmem : item.id ∈ (c.supplied ids).map (·.id) := List.mem_map_of_mem hitem
  refine ⟨_, item.id, ?_, hmem, (Merging.start c reroutes hs item.id).run (fun _ h => h)
    nodup_supplied hmem⟩
  unfold mergeVersions
  dsimp only
  rw [if_neg htwo, hprimary]

variable {s' : VersionLinks} {merging : List Nat} {primary x v : Nat}

theorem getMergedVersionIds_eq_nil
    (h : Merging c reroutes s merging primary merging [] s') (hx : x ∈ merging)
    (hne : x ≠ primary) : s'.getMergedVersionIds c x = [] := by
  refine List.eq_nil_iff_forall_not_mem.mpr fun v hv => ?_
  have hp := h.follows.primaryVersionId_of_mem hx hv
  rw [h.done_eq v (h.versions x hx hne v hv)] at hp
  split at hp
  · cases hp
  · exact hne (Option.some.inj hp).symm

theorem primaryVersionId_of_version
    (h : Merging c reroutes s merging primary merging [] s') (hs : s.Follows merging)
    (hx : x ∈ merging) (hv : v ∈ s.getMergedVersionIds c x) (hne : v ≠ primary) :
    s'.primaryVersionId v = some primary := by
  by_cases hmerging : v ∈ merging
  · rw [h.done_eq v hmerging, if_neg hne]
  · by_cases hself : x = primary
    · by_cases hsame : s'.primaryVersionId v = s.primaryVersionId v
      · exact hsame.trans (hself ▸ hs.primaryVersionId_of_mem hx hv)
      · exact (h.changed v hmerging hsame).1
    · refine (h.moved x v hmerging hv).resolve_left fun hmem => ?_
      rw [getMergedVersionIds_eq_nil h hx hself] at hmem
      cases hmem

/-- **A merge is done once**: the videos that are merged are merged again to the same. -/
theorem mergeVersions_again {a b : Nat} (ha : a ∈ ids ∧ c.Stored a) (hb : b ∈ ids ∧ c.Stored b)
    (hne : a ≠ b) (hprimary : primary ∈ (c.supplied ids).map (·.id))
    (h : Merging c reroutes s ((c.supplied ids).map (·.id)) primary
      ((c.supplied ids).map (·.id)) [] s') :
    c.mergeVersions reroutes ids s' = .ok s' := by
  -- The primary is the only one without a pointer, and has versions.
  have hnone : ∀ item ∈ c.supplied ids, (s'.primaryVersionId item.id).isNone = true →
      item.id = primary := by
    intro item hitem hnone
    rw [h.done_eq _ (List.mem_map_of_mem hitem)] at hnone
    split at hnone
    · assumption
    · cases hnone
  obtain ⟨other, hother, hstored, hdiff⟩ : ∃ other ∈ (c.supplied ids).map (·.id),
      c.Stored other ∧ other ≠ primary := by
    by_cases hap : a = primary
    · exact ⟨b, mem_map_supplied.mpr hb, hb.2, hap ▸ hne.symm⟩
    · exact ⟨a, mem_map_supplied.mpr ha, ha.2, hap⟩
  obtain ⟨first, hfirst, hid⟩ : ∃ first, c.primaryAmong s' (c.supplied ids) = some first ∧
      first.id = primary := by
    obtain ⟨item, hitem, rfl⟩ := mem_map.mp hprimary
    have hfound : ((c.supplied ids).find? fun item =>
        (s'.primaryVersionId item.id).isNone && s'.hasVersions c item).isSome = true := by
      rw [List.find?_isSome]
      refine ⟨item, hitem, Bool.and_eq_true_iff.mpr ⟨?_, ?_⟩⟩
      · rw [h.done_eq _ hprimary, if_pos rfl]
        rfl
      · obtain ⟨version, hversion, rfl⟩ := hstored
        refine List.any_eq_true.mpr ⟨version, hversion, decide_eq_true ?_⟩
        rw [h.done_eq _ hother, if_neg hdiff]
    obtain ⟨first, hfirst⟩ := Option.isSome_iff_exists.mp hfound
    have hboth := List.find?_eq_some_iff_append.mp hfirst
    refine ⟨first, ?_, hnone first (List.mem_of_find?_eq_some hfirst)
      (Bool.and_eq_true_iff.mp hboth.1).1⟩
    rw [primaryAmong, hfirst]
    rfl
  -- Nothing is written of any of them.
  have hitem : ∀ x ∈ (c.supplied ids).map (·.id),
      c.mergeItem reroutes s' ((c.supplied ids).map (·.id)) primary s' x = s' := by
    intro x hx
    have hp := h.done_eq x hx
    unfold mergeItem
    by_cases hself : x = primary
    · rw [if_pos hself] at hp ⊢
      rw [hp]
      rfl
    · rw [if_neg hself] at hp ⊢
      dsimp only
      rw [if_neg (not_not_intro hp)]
      have hreroute : (if reroutes then s'.rerouteLinkedChildren x primary else s') = s' := by
        split
        · next hr => exact VersionLinks.rerouteLinkedChildren_eq_self (h.unlisted hr x hx hself)
        · rfl
      rw [hreroute, getMergedVersionIds_eq_nil h hx hself]
      rfl
  have hfold : ∀ l : List Nat, (∀ x ∈ l, x ∈ (c.supplied ids).map (·.id)) →
      l.foldl (c.mergeItem reroutes s' ((c.supplied ids).map (·.id)) primary) s' = s' := by
    intro l hl
    induction l with
    | nil => rfl
    | cons x l ih =>
      rw [foldl_cons, hitem x (hl x (mem_cons_self ..))]
      exact ih fun y hy => hl y (mem_cons_of_mem _ hy)
  unfold mergeVersions
  dsimp only
  rw [if_neg (two_le_length_supplied ha hb hne), hfirst]
  dsimp only
  rw [hid, hfold _ fun _ h => h]

/-! ### Splitting -/

theorem primaryVersionId_splitVersions (versions : List Nat) (s : VersionLinks) (v : Nat) :
    (splitVersions versions s).primaryVersionId v =
      if v ∈ versions then none else s.primaryVersionId v := by
  unfold splitVersions
  induction versions generalizing s with
  | nil => rfl
  | cons w versions ih =>
    rw [foldl_cons, ih]
    by_cases hvw : v = w
    · subst hvw
      simp
    · rw [VersionLinks.primaryVersionId_set_of_ne hvw]
      simp [hvw]

theorem mem_getMergedVersionIds_splitVersions (versions : List Nat) (s : VersionLinks)
    (h : v ∈ (splitVersions versions s).getMergedVersionIds c x) :
    v ∉ versions ∧ v ∈ s.getMergedVersionIds c x := by
  unfold splitVersions at h
  induction versions generalizing s with
  | nil => exact ⟨nofun, h⟩
  | cons w versions ih =>
    obtain ⟨hnot, hmem⟩ := ih _ h
    have hvw := VersionLinks.ne_of_mem_set (by exact nofun) hmem
    rw [VersionLinks.mem_getMergedVersionIds_set hvw] at hmem
    exact ⟨fun hv => (mem_cons.mp hv).elim hvw hnot, hmem⟩

/-- **A split** of a group, asked for any of its videos, leaves them on their own. -/
theorem removeAlternateSources_spec (h : Merging c reroutes s merging primary merging [] s')
    (hprimary : primary ∈ merging) (hx : x ∈ merging) (hstored : c.Stored x) :
    ∃ s'', c.removeAlternateSources x s' = .ok s'' ∧ s''.primaryVersionId primary = none ∧
      (∀ v ∈ s'.getMergedVersionIds c primary, s''.primaryVersionId v = none) ∧
      (∀ v ∉ s'.getMergedVersionIds c primary, s''.primaryVersionId v = s'.primaryVersionId v) ∧
      s''.getMergedVersionIds c primary = [] := by
  obtain ⟨item, hitem⟩ := Option.isSome_iff_exists.mp (stored_iff.mp hstored)
  have hnone : s'.primaryVersionId primary = none := by
    rw [h.done_eq _ hprimary, if_pos rfl]
  have hstands : (if s'.getMergedVersionIds c x = [] then (s'.primaryVersionId x).getD x else x) =
      primary := by
    by_cases hself : x = primary
    · rw [hself, hnone]
      exact ite_self primary
    · rw [if_pos (getMergedVersionIds_eq_nil h hx hself), h.done_eq x hx, if_neg hself]
      rfl
  have hsplit := primaryVersionId_splitVersions (s'.getMergedVersionIds c primary) s'
  have hclear : (splitVersions (s'.getMergedVersionIds c primary) s').primaryVersionId primary =
      none := by
    rw [hsplit, hnone, ite_self]
  refine ⟨splitVersions (s'.getMergedVersionIds c primary) s', ?_, hclear, fun v hv => ?_,
    fun v hv => ?_, ?_⟩
  · unfold removeAlternateSources
    rw [hitem]
    dsimp only
    rw [hstands, if_neg]
    rw [hclear]
    exact nofun
  · rw [hsplit, if_pos hv]
  · rw [hsplit, if_neg hv]
  · refine List.eq_nil_iff_forall_not_mem.mpr fun v hv => ?_
    obtain ⟨hnot, hmem⟩ := mem_getMergedVersionIds_splitVersions _ _ hv
    exact hnot hmem

end Catalog

/-- **Merging is flat and is taken back**: of the stored videos that are given one has no pointer
afterwards, and the others and the merged versions of all of them point at it; nobody else's pointer
moves, the same merge writes nothing more, and a split, asked for any of them, clears the pointers
of its versions. -/
theorem merge_versions_flat (c : Catalog) (reroutes : Bool) (s : VersionLinks) {ids : List Nat}
    {a b : Nat} (ha : a ∈ ids ∧ c.Stored a) (hb : b ∈ ids ∧ c.Stored b) (hne : a ≠ b)
    (hs : ∀ x, x ∈ ids ∧ c.Stored x → ∀ v,
      ⟨x, v, .linkedAlternateVersion⟩ ∈ s.linkedChildren → s.primaryVersionId v = some x) :
    ∃ s' primary, c.mergeVersions reroutes ids s = .ok s' ∧ (primary ∈ ids ∧ c.Stored primary) ∧
      s'.primaryVersionId primary = none ∧
      (∀ x, x ∈ ids ∧ c.Stored x → x ≠ primary → s'.primaryVersionId x = some primary) ∧
      (∀ x, x ∈ ids ∧ c.Stored x → ∀ v, v ≠ primary →
        v ∈ s.getMergedVersionIds c x ∨ v ∈ s'.getMergedVersionIds c x →
          s'.primaryVersionId v = some primary) ∧
      (∀ v, ¬(v ∈ ids ∧ c.Stored v) →
        (∀ x, x ∈ ids ∧ c.Stored x → v ∉ s.getMergedVersionIds c x) →
          s'.primaryVersionId v = s.primaryVersionId v) ∧
      c.mergeVersions reroutes ids s' = .ok s' ∧
      ∀ x, x ∈ ids ∧ c.Stored x →
        ∃ s'', c.removeAlternateSources x s' = .ok s'' ∧ s''.primaryVersionId primary = none ∧
          (∀ v ∈ s'.getMergedVersionIds c primary, s''.primaryVersionId v = none) ∧
          (∀ v ∉ s'.getMergedVersionIds c primary,
            s''.primaryVersionId v = s'.primaryVersionId v) ∧
          s''.getMergedVersionIds c primary = [] := by
  have hfollows : s.Follows ((c.supplied ids).map (·.id)) := fun x hx =>
    hs x (Catalog.mem_map_supplied.mp hx)
  obtain ⟨s', primary, hmerge, hprimary, h⟩ :=
    Catalog.mergeVersions_spec reroutes ha hb hne hfollows
  have hmem : ∀ {x}, x ∈ ids ∧ c.Stored x → x ∈ (c.supplied ids).map (·.id) :=
    Catalog.mem_map_supplied.mpr
  refine ⟨s', primary, hmerge, Catalog.mem_map_supplied.mp hprimary, ?_, fun x hx hxp => ?_,
    fun x hx v hvp hv => ?_, fun v hv hversions => ?_,
    Catalog.mergeVersions_again ha hb hne hprimary h,
    fun x hx => Catalog.removeAlternateSources_spec h hprimary (hmem hx) hx.2⟩
  · rw [h.done_eq _ hprimary, if_pos rfl]
  · rw [h.done_eq x (hmem hx), if_neg hxp]
  · rcases hv with hv | hv
    · exact Catalog.primaryVersionId_of_version h hfollows (hmem hx) hv hvp
    · by_cases hself : x = primary
      · exact hself ▸ h.follows.primaryVersionId_of_mem (hmem hx) hv
      · rw [Catalog.getMergedVersionIds_eq_nil h (hmem hx) hself] at hv
        cases hv
  · refine Decidable.byContradiction fun hchanged => ?_
    obtain ⟨-, x, hx, hmerged⟩ := h.changed v (mt Catalog.mem_map_supplied.mp hv) hchanged
    exact hversions x (Catalog.mem_map_supplied.mp hx) hmerged

def fourVideos : Catalog where
  items := [1, 2, 3, 4].map fun id => { id, isMovie := true }
  nodup := by decide
  tmdb := fun _ => none
  locationsExcluded := []
  folders := []
  parseUuid := fun _ => none
  simple := fun _ => ""
  toLowercase := id
  createSortName := id

/-- Two of them are versions of each other, and the third one is a version of the second. -/
def looped : VersionLinks where
  primaryVersionId := fun id => if id = 1 ∨ id = 3 then some 2 else if id = 2 then some 1 else none
  linkedChildren := [⟨2, 3, .linkedAlternateVersion⟩]

theorem merge_versions_flat_looped :
    ∃ s' primary, fourVideos.mergeVersions true [2, 1, 2] looped = .ok s' ∧
      s'.primaryVersionId primary = none ∧ s'.primaryVersionId 3 = some primary ∧
      fourVideos.mergeVersions true [2, 1, 2] s' = .ok s' := by
  have hstored : ∀ id ∈ [1, 2], fourVideos.Stored id := by
    intro id hid
    refine ⟨{ id, isMovie := true }, ?_, rfl⟩
    exact List.mem_map_of_mem (List.mem_append_left [3, 4] hid)
  have h₁ : 1 ∈ [2, 1, 2] ∧ fourVideos.Stored 1 := ⟨by decide, hstored 1 (by decide)⟩
  have h₂ : 2 ∈ [2, 1, 2] ∧ fourVideos.Stored 2 := ⟨by decide, hstored 2 (by decide)⟩
  obtain ⟨s', primary, hmerge, hprimary, hnone, -, hversions, -, hagain, -⟩ :=
    merge_versions_flat fourVideos true looped h₁ h₂ (by decide) fun x _ v hv => by
      obtain ⟨rfl, rfl⟩ : x = 2 ∧ v = 3 := by simpa [looped] using hv
      rfl
  have hthird : 3 ≠ primary := by
    rintro rfl
    exact absurd hprimary.1 (by decide)
  exact ⟨s', primary, hmerge, hnone, hversions 2 h₂ 3 hthird
    (.inl (by decide)), hagain⟩

/-- The third video was merged with the first one until a scan found it with the fourth one. -/
def stale : VersionLinks where
  primaryVersionId := fun id => if id = 3 then some 4 else none
  linkedChildren := [⟨1, 3, .linkedAlternateVersion⟩, ⟨4, 3, .localAlternateVersion⟩]

theorem stale_row_left : ∃ s', fourVideos.mergeVersions true [1, 2] stale = .ok s' ∧
    3 ∈ stale.getMergedVersionIds fourVideos 1 ∧ s'.primaryVersionId 1 = none ∧
      s'.primaryVersionId 2 = some 1 ∧ s'.primaryVersionId 3 = some 4 :=
  ⟨_, rfl, by decide, by decide, by decide, by decide⟩

end Ferrofin.MergeVersions
