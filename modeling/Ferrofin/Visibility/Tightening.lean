import Ferrofin.Lib.Fallible
import Ferrofin.Visibility.Context

/-!
# A tighter policy reveals nothing

One policy is tighter than another when each rule of it refuses more (`Policy.Tightens`).  What is
visible under the tighter one is visible under the other (`tightening_reveals_nothing`): each rule
is monotone, and where the hierarchy has no circle the evaluation under the other policy comes to
an end too (`exists_visible`).

The one list that is not monotone by itself is that of the blocked folders: the first folder in it
takes the place of the enabled ones, so that a folder that was not enabled is visible then
(`first_blocked_folder_reveals`).
-/

namespace Ferrofin.Visibility

open Lib Util
open List (any_eq_true mem_cons mem_filter mem_filterMap not_mem_nil)

/-! ### Policies -/

def Lowers (bound bound' : Option Int) : Prop := ∀ max, bound = some max →
  ∃ max', bound' = some max' ∧ max' ≤ max

/-- The folders, or channels, of a policy are restricted: more are blocked, fewer enabled.  Where
none was blocked and some are now, all were enabled. -/
structure Restricts (c : Context) (p p' : Policy) (blocked enabled : PreferenceKind)
    (all : PermissionKind) : Prop where
  blocks : ∀ id ∈ c.parsed p blocked, id ∈ c.parsed p' blocked
  enables : ∀ id ∈ c.parsed p' enabled, id ∈ c.parsed p enabled
  enablesAll : p'.permission all = some true → p.permission all = some true
  first : c.parsed p blocked = [] → c.parsed p' blocked ≠ [] → p.permission all = some true

structure Policy.Tightens (c : Context) (p p' : Policy) : Prop where
  blockedTags : ∀ t ∈ p.preference .blockedTags, t ∈ p'.preference .blockedTags
  blockUnrated : ∀ v ∈ p.preference .blockUnratedItems, v ∈ p'.preference .blockUnratedItems
  maxScore : Lowers p.maxParentalRatingScore p'.maxParentalRatingScore
  maxSubScore : Lowers p.maxParentalRatingSubScore p'.maxParentalRatingSubScore
  folders : Restricts c p p' .blockedMediaFolders .enabledFolders .enableAllFolders
  channels : Restricts c p p' .blockedChannels .enabledChannels .enableAllChannels
  allowedTags : p.preference .allowedTags ≠ [] → p'.preference .allowedTags ≠ [] ∧
    ∀ t ∈ p'.preference .allowedTags, t ∈ p.preference .allowedTags

/-- The hierarchy has no circle: the rows are numbered so that what a row refers to above it, and
the libraries that its data names, come before it. -/
structure Context.Acyclic (c : Context) (rank : Nat → Nat) : Prop where
  lt : ∀ row ∈ c.rows, rank row.id < c.rows.length
  above : ∀ row ∈ c.rows, ∀ next ∈ c.rows, some next.id ∈ [row.parentId, row.ownerId,
    row.seasonId, row.seriesId] → rank next.id < rank row.id
  named : ∀ row ∈ c.rows, ∀ ids, row.data.libraryFolderIds = some ids →
    ∀ library ∈ c.rows, library.id ∈ ids → rank library.id < rank row.id
  /-- The libraries are collection folders. -/
  libraries : ∀ id ∈ c.libraryIds, ∀ row, c.row id = some row → row.kind = .collectionFolder

namespace Context

variable {c : Context} {p p' : Policy} {item row : BaseItemEntity} {id : Nat}
  {parents : List BaseItemEntity} {libraries : List Nat} {skip : Bool}

/-! ### Folders -/

theorem folderAllowed_of_restricts {blocked enabled : PreferenceKind} {all : PermissionKind}
    (h : Restricts c p p' blocked enabled all)
    (hallowed : (if c.parsed p' blocked ≠ [] then !(c.parsed p' blocked).contains id
      else (p'.permission all).getD false || (c.parsed p' enabled).contains id) = true) :
    (if c.parsed p blocked ≠ [] then !(c.parsed p blocked).contains id
      else (p.permission all).getD false || (c.parsed p enabled).contains id) = true := by
  have hall : (p'.permission all).getD false = true → (p.permission all).getD false = true := by
    intro htrue
    cases hp : p'.permission all with
    | none => simp [hp] at htrue
    | some value =>
      rw [hp, Option.getD_some] at htrue
      rw [h.enablesAll (htrue ▸ hp)]
      rfl
  by_cases hnil : c.parsed p blocked = []
  · rw [if_neg (not_not_intro hnil)]
    by_cases hnil' : c.parsed p' blocked = []
    · rw [if_neg (not_not_intro hnil'), Bool.or_eq_true] at hallowed
      rw [Bool.or_eq_true]
      refine hallowed.imp hall fun henabled => ?_
      exact List.contains_iff_mem.mpr (h.enables id (List.contains_iff_mem.mp henabled))
    · rw [h.first hnil hnil']
      rfl
  · have hnil' : c.parsed p' blocked ≠ [] := by
      obtain ⟨other, hother⟩ := List.exists_mem_of_ne_nil _ hnil
      exact List.ne_nil_of_mem (h.blocks other hother)
    rw [if_pos hnil'] at hallowed
    rw [if_pos hnil]
    rw [Bool.not_eq_true', ← Bool.not_eq_true, List.contains_iff_mem] at hallowed ⊢
    exact fun hblocked => hallowed (h.blocks id hblocked)

theorem folderAllowed_of_tightens (h : p.Tightens c p') {channel : Bool}
    (hallowed : c.folderAllowed p' id channel = true) : c.folderAllowed p id channel = true := by
  cases channel
  · exact folderAllowed_of_restricts h.folders hallowed
  · exact folderAllowed_of_restricts h.channels hallowed

/-! ### Tags and ratings -/

theorem hasTag_mono {list list' tags : List String} (h : ∀ t ∈ list, t ∈ list')
    (htag : c.hasTag list tags = true) : c.hasTag list' tags = true := by
  obtain ⟨t, ht, hclean⟩ := any_eq_true.mp htag
  obtain ⟨hmem, hblank⟩ := mem_filter.mp ht
  exact any_eq_true.mpr ⟨t, mem_filter.mpr ⟨h t hmem, hblank⟩, hclean⟩

theorem tagsRefuse_of_tightens (h : p.Tightens c p')
    (hrefuse : c.tagsRefuse p item parents libraries skip = true) :
    c.tagsRefuse p' item parents libraries skip = true := by
  unfold tagsRefuse at hrefuse ⊢
  rw [Bool.and_eq_true, Bool.or_eq_true, Bool.or_eq_true] at hrefuse ⊢
  obtain ⟨hsome, hblocked | hnone⟩ := hrefuse
  · have htag := hasTag_mono h.blockedTags hblocked
    refine ⟨.inl ?_, .inl htag⟩
    obtain ⟨t, ht, _⟩ := any_eq_true.mp htag
    have hne := List.ne_nil_of_mem (mem_filter.mp ht).1
    simpa using hne
  · simp only [Bool.and_eq_true, Bool.not_eq_true', List.isEmpty_eq_false_iff] at hnone ⊢
    obtain ⟨⟨hroot, hne⟩, hno⟩ := hnone
    obtain ⟨hne', hsub⟩ := h.allowedTags hne
    refine ⟨.inr hne', .inr ⟨⟨hroot, hne'⟩, Bool.eq_false_iff.mpr fun htag => ?_⟩⟩
    rw [hasTag_mono hsub htag] at hno
    cases hno

theorem blockUnrated_of_tightens (h : p.Tightens c p')
    (hblock : c.blockUnrated p item = true) : c.blockUnrated p' item = true := by
  unfold blockUnrated at hblock ⊢
  split at hblock
  · cases hblock
  · next hseason =>
    rw [if_neg hseason]
    split at hblock
    · cases hblock
    · next hfolder =>
      rw [if_neg hfolder]
      rw [List.contains_iff_mem, mem_filterMap] at hblock ⊢
      obtain ⟨v, hv, hparse⟩ := hblock
      exact ⟨v, h.blockUnrated v hv, hparse⟩

theorem ratingAllows_of_tightens (h : p.Tightens c p') {score : Option ParentalRatingScore}
    (hallows : c.ratingAllows p' item score = true) : c.ratingAllows p item score = true := by
  cases score with
  | none =>
    simp only [ratingAllows, Bool.not_eq_true'] at hallows ⊢
    refine Bool.eq_false_iff.mpr fun hblock => ?_
    rw [blockUnrated_of_tightens h hblock] at hallows
    cases hallows
  | some score =>
    unfold ratingAllows at hallows ⊢
    cases hmax : p.maxParentalRatingScore with
    | none => rfl
    | some max =>
      obtain ⟨max', hmax', hle⟩ := h.maxScore max hmax
      simp only [hmax'] at hallows ⊢
      split at hallows
      · next hne =>
        have hlt := of_decide_eq_true hallows
        rw [if_pos (by omega)]
        exact decide_eq_true (by omega)
      · next heq =>
        by_cases hsame : score.score = max
        · rw [if_neg (not_not_intro hsame), Option.all_eq_true]
          intro sub hsub
          obtain ⟨sub', hsub', hle'⟩ := h.maxSubScore sub hsub
          rw [hsub'] at hallows
          have hlt := of_decide_eq_true hallows
          exact decide_eq_true (by omega)
        · rw [if_pos hsame]
          exact decide_eq_true (by omega)

/-- **The parental check.** -/
theorem parental_of_tightens (h : p.Tightens c p')
    (hallows : c.parental p' item skip = .ok true) : c.parental p item skip = .ok true := by
  unfold parental at hallows ⊢
  cases hchain : c.chain item false with
  | error e => rw [hchain] at hallows; cases hallows
  | ok parents =>
    cases hlibs : c.libraries item with
    | error e => rw [hchain, hlibs] at hallows; cases hallows
    | ok libraries =>
      simp only [hchain, hlibs, bind, Except.bind, pure, Except.pure] at hallows ⊢
      split at hallows
      · cases hallows
      · next hrefuse' =>
        rw [if_neg fun hrefuse => hrefuse' (tagsRefuse_of_tightens h hrefuse)]
        cases hscore : c.ratingScore item with
        | error e => rw [hscore] at hallows; cases hallows
        | ok score =>
          simp only [hscore] at hallows ⊢
          rw [ratingAllows_of_tightens h (Except.ok.inj hallows)]

/-! ### Without circles -/

theorem mem_row (h : c.row id = some row) : row ∈ c.rows ∧ row.id = id :=
  ⟨List.mem_of_find?_eq_some h, by simpa using List.find?_some h⟩

theorem row_self (h : row ∈ c.rows) : c.row row.id = some row := find?_key c.nodup h

theorem fuel_of_boxset {rank : Nat → Nat} {fuel : Nat}
    (hfuel : rank item.id + 1 < fuel + 1 ∨ 0 < fuel + 1 ∧ item.kind = .collectionFolder)
    (hboxset : c.modernBoxset item = true) : rank item.id < fuel := by
  have hkind : item.kind = .boxSet := by
    simp only [modernBoxset, Bool.and_eq_true, decide_eq_true_eq] at hboxset
    exact hboxset.1
  exact Nat.lt_of_succ_lt_succ (hfuel.resolve_right fun h => by cases hkind.symm.trans h.2)

section Acyclic

variable {rank : Nat → Nat} (hc : c.Acyclic rank)
include hc

theorem Acyclic.rank_above (hitem : item ∈ c.rows) {display : Bool}
    (h : c.above display item = some row) : row ∈ c.rows ∧ rank row.id < rank item.id := by
  obtain ⟨id, hid, hrow⟩ := Option.bind_eq_some_iff.mp h
  obtain ⟨hmem, rfl⟩ := mem_row hrow
  refine ⟨hmem, hc.above item hitem row hmem ?_⟩
  split at hid
  · split at hid <;> simp [hid]
  · simp [hid]

theorem Acyclic.exists_chain (hitem : item ∈ c.rows) (display : Bool) :
    ∃ rows, c.chain item display = .ok rows ∧ ∀ row ∈ rows, row ∈ c.rows := by
  have hloop : ∀ (fuel : Nat) (seen : List Nat) (current : BaseItemEntity), current ∈ c.rows →
      (∀ s ∈ seen, rank current.id ≤ rank s) → rank current.id < fuel →
        ∃ rows, c.chainLoop display fuel seen current = .ok rows ∧ ∀ row ∈ rows, row ∈ c.rows := by
    intro fuel
    induction fuel with
    | zero => exact fun _ _ _ _ hlt => absurd hlt (Nat.not_lt_zero _)
    | succ fuel ih =>
      intro seen current hcurrent hseen hlt
      unfold chainLoop
      split
      · exact ⟨[], rfl, fun _ h => absurd h not_mem_nil⟩
      · next parent habove =>
        obtain ⟨hmem, hrank⟩ := hc.rank_above hcurrent habove
        have hnew : parent.id ∉ seen := fun hin =>
          absurd (hseen _ hin) (Nat.not_le_of_lt hrank)
        rw [if_neg hnew]
        obtain ⟨rows, hrows, hall⟩ := ih (parent.id :: seen) parent hmem (fun s hs => by
          rcases mem_cons.mp hs with rfl | hs
          · exact le_rfl
          · exact Nat.le_trans (Nat.le_of_lt hrank) (hseen s hs)) (by omega)
        refine ⟨parent :: rows, by rw [hrows]; rfl, fun row hrow => ?_⟩
        rcases mem_cons.mp hrow with rfl | hrow
        · exact hmem
        · exact hall row hrow
  obtain ⟨rows, hrows, hall⟩ := hloop (c.rows.length + 1) [item.id] item hitem
    (fun s hs => by rw [List.mem_singleton.mp hs]) (Nat.lt_succ_of_lt (hc.lt item hitem))
  refine ⟨item :: rows, by rw [chain, hrows]; rfl, fun row hrow => ?_⟩
  rcases mem_cons.mp hrow with rfl | hrow
  · exact hitem
  · exact hall row hrow

theorem Acyclic.exists_libraries (hitem : item ∈ c.rows) :
    ∃ ids, c.libraries item = .ok ids ∧
      ∀ id ∈ ids, ∀ row, c.row id = some row → row.kind = .collectionFolder := by
  have hloop : ∀ (fuel : Nat) (seen : List Nat) (current : BaseItemEntity), current ∈ c.rows →
      (∀ s ∈ seen, rank current.id < rank s) → rank current.id < fuel →
        ∃ ids, c.librariesLoop fuel seen current = .ok ids ∧
          ∀ id ∈ ids, ∀ row, c.row id = some row → row.kind = .collectionFolder := by
    intro fuel
    induction fuel with
    | zero => exact fun _ _ _ _ hlt => absurd hlt (Nat.not_lt_zero _)
    | succ fuel ih =>
      intro seen current hcurrent hseen hlt
      have hat : ∀ id ∈ c.librariesAt current, ∀ row, c.row id = some row →
          row.kind = .collectionFolder := by
        intro id hid
        unfold librariesAt at hid
        split at hid
        · cases hid
        · exact hc.libraries id (mem_filter.mp hid).1
      have hnew : current.id ∉ seen := fun hin => absurd (hseen _ hin) (Nat.lt_irrefl _)
      simp only [librariesLoop, if_neg hnew]
      split
      · next hkind =>
        refine ⟨_, rfl, fun id hid row hrow => ?_⟩
        rw [List.mem_singleton.mp hid, row_self hcurrent] at hrow
        cases hrow
        exact hkind
      · split
        · exact ⟨_, rfl, hat⟩
        · split
          · exact ⟨_, rfl, hat⟩
          · next next hnext =>
            have hnext' : next ∈ c.rows ∧ rank next.id < rank current.id := by
              rcases Option.or_eq_some_iff.mp hnext with hp | ⟨_, ho⟩
              · obtain ⟨id, hid, hrow⟩ := Option.bind_eq_some_iff.mp hp
                obtain ⟨hmem, rfl⟩ := mem_row hrow
                exact ⟨hmem, hc.above current hcurrent _ hmem (by simp [hid])⟩
              · obtain ⟨id, hid, hrow⟩ := Option.bind_eq_some_iff.mp ho
                obtain ⟨hmem, rfl⟩ := mem_row hrow
                exact ⟨hmem, hc.above current hcurrent _ hmem (by simp [hid])⟩
            refine ih (current.id :: seen) next hnext'.1 (fun s hs => ?_) (by omega)
            rcases mem_cons.mp hs with rfl | hs
            · exact hnext'.2
            · exact Nat.lt_trans hnext'.2 (hseen s hs)
  exact hloop (c.rows.length + 1) [] item hitem nofun (Nat.lt_succ_of_lt (hc.lt item hitem))

theorem Acyclic.exists_ratingScore (hitem : item ∈ c.rows) :
    ∃ score, c.ratingScore item = .ok score := by
  obtain ⟨display, hdisplay, _⟩ := hc.exists_chain hitem true
  obtain ⟨parents, hparents, _⟩ := hc.exists_chain hitem false
  obtain ⟨libraries, hlibraries, _⟩ := hc.exists_libraries hitem
  simp only [ratingScore, metadataCountry, hdisplay, hparents, hlibraries, bind, Except.bind, pure,
    Except.pure]
  exact ⟨_, rfl⟩

theorem Acyclic.exists_parental (p : Policy) (hitem : item ∈ c.rows) (skip : Bool) :
    ∃ allows, c.parental p item skip = .ok allows := by
  obtain ⟨parents, hparents, _⟩ := hc.exists_chain hitem false
  obtain ⟨libraries, hlibraries, _⟩ := hc.exists_libraries hitem
  obtain ⟨score, hscore⟩ := hc.exists_ratingScore hitem
  simp only [parental, hparents, hlibraries, hscore, bind, Except.bind, pure, Except.pure]
  split
  · exact ⟨_, rfl⟩
  · exact ⟨_, rfl⟩

theorem Acyclic.exists_hasParentalAllowedChild (p : Policy) (item : BaseItemEntity) :
    ∃ allows, c.hasParentalAllowedChild p item = .ok allows := by
  unfold hasParentalAllowedChild
  dsimp only
  split
  · exact ⟨_, rfl⟩
  · refine exists_anyM fun member hmember => ?_
    obtain ⟨id, _, hrow⟩ := mem_filterMap.mp hmember
    exact hc.exists_parental p (mem_row hrow).1 true

theorem Acyclic.exists_collectionLibraries (hitem : item ∈ c.rows) :
    ∃ ids, c.collectionLibraries item = .ok ids ∧ ∀ id ∈ ids, ∀ row, c.row id = some row →
      rank row.id < rank item.id ∨ row.kind = .collectionFolder := by
  unfold collectionLibraries
  split
  · next ids hids =>
    refine ⟨ids, rfl, fun id hid row hrow => .inl ?_⟩
    obtain ⟨hmem, rfl⟩ := mem_row hrow
    exact hc.named item hitem ids hids _ hmem hid
  · have hrows : ∀ row ∈ c.collectionMembers item, row ∈ c.rows := by
      intro row hrow
      obtain ⟨id, _, hid⟩ := mem_filterMap.mp (mem_filter.mp hrow).1
      exact (mem_row hid).1
    obtain ⟨lists, hlists⟩ := exists_mapM (h := c.libraries) fun row hrow =>
      (hc.exists_libraries (hrows row hrow)).imp fun _ h => h.1
    refine ⟨lists.flatten, by rw [hlists]; rfl, fun id hid row hrow => .inr ?_⟩
    obtain ⟨list, hlist, hid⟩ := List.mem_flatten.mp hid
    obtain ⟨member, hmember, heq⟩ := exists_of_mem_mapM hlists hlist
    obtain ⟨ids, hids, hkind⟩ := hc.exists_libraries (hrows member hmember)
    cases heq.symm.trans hids
    exact hkind id hid row hrow

/-- With a stack for what comes before it, the evaluation of an item comes to an end. -/
theorem Acyclic.exists_visible (p : Policy) {fuel : Nat} (hitem : item ∈ c.rows)
    (hfuel : rank item.id + 1 < fuel ∨ 0 < fuel ∧ item.kind = .collectionFolder) (skip : Bool) :
    ∃ visible, c.visible p fuel item skip = .ok visible := by
  induction fuel generalizing item skip with
  | zero => rcases hfuel with hlt | ⟨hlt, _⟩ <;> exact absurd hlt (Nat.not_lt_zero _)
  | succ fuel ih =>
    obtain ⟨child, hchild⟩ := hc.exists_hasParentalAllowedChild p item
    obtain ⟨allows, hallows⟩ := hc.exists_parental p hitem (skip || item.kind = .person)
    obtain ⟨libraries, hlibraries, hbefore⟩ := hc.exists_collectionLibraries hitem
    simp only [visible, hchild, hallows, hlibraries, bind, Except.bind, pure, Except.pure]
    split
    · split <;> exact ⟨_, rfl⟩
    split
    · exact ⟨_, rfl⟩
    split
    · exact ⟨_, rfl⟩
    split
    · exact ⟨_, rfl⟩
    split
    · next hboxset =>
      have hlt := fuel_of_boxset hfuel hboxset
      obtain ⟨answers, hanswers⟩ := exists_mapM (l := libraries.filterMap c.row)
        (h := fun row => c.visible p fuel row false) fun row hrow => by
          obtain ⟨id, hid, hrow⟩ := mem_filterMap.mp hrow
          refine ih (mem_row hrow).1 ?_ false
          rcases hbefore id hid row hrow with hrank | hfolder
          · exact .inl (by omega)
          · exact .inr ⟨by omega, hfolder⟩
      simp only [hanswers]
      split
      · exact ⟨_, rfl⟩
      split
      · exact ⟨_, rfl⟩
      split <;> exact ⟨_, rfl⟩
    · split <;> exact ⟨_, rfl⟩

/-! ### A tighter policy -/

theorem Acyclic.hasParentalAllowedChild_of_tightens (h : p.Tightens c p')
    (hallows : c.hasParentalAllowedChild p' item = .ok true) :
    c.hasParentalAllowedChild p item = .ok true := by
  unfold hasParentalAllowedChild at hallows ⊢
  dsimp only at hallows ⊢
  cases hmax : p.maxParentalRatingScore with
  | none => rfl
  | some max =>
    obtain ⟨max', hmax', _⟩ := h.maxScore max hmax
    simp only [hmax', Option.isNone_some, Bool.false_or] at hallows ⊢
    split at hallows
    · next hnone => rw [if_pos hnone]
    · next hsome =>
      rw [if_neg hsome]
      refine anyM_mono (fun _ _ => parental_of_tightens h) (fun member hmember => ?_) hallows
      obtain ⟨id, _, hrow⟩ := mem_filterMap.mp hmember
      exact hc.exists_parental p (mem_row hrow).1 true

/-- **Visibility**: what the tighter policy sees, the policy sees. -/
theorem Acyclic.visible_of_tightens (h : p.Tightens c p') {fuel : Nat} (hitem : item ∈ c.rows)
    (hfuel : rank item.id + 1 < fuel ∨ 0 < fuel ∧ item.kind = .collectionFolder)
    (hvisible : c.visible p' fuel item skip = .ok true) :
    c.visible p fuel item skip = .ok true := by
  induction fuel generalizing item skip with
  | zero => cases hvisible
  | succ fuel ih =>
    obtain ⟨libraries, hlibraries, hbefore⟩ := hc.exists_collectionLibraries hitem
    have hchild : c.hasParentalAllowedChild p' item = .ok true →
        c.hasParentalAllowedChild p item = .ok true :=
      hc.hasParentalAllowedChild_of_tightens h
    simp only [visible, hlibraries, bind, Except.bind, pure, Except.pure] at hvisible ⊢
    split at hvisible
    · next hshared =>
      rw [if_pos hshared]
      split at hvisible
      · next hwith => rw [if_pos hwith, hchild hvisible]
      · cases hvisible
    next hshared =>
    rw [if_neg hshared]
    split at hvisible
    · cases hvisible
    next hfolder' =>
    have hfolder : ¬ (item.kind = .collectionFolder && (!c.folderAllowed p item.id false ||
        (c.options item.id).any (!·.enabled))) = true := by
      simp only [Bool.and_eq_true, Bool.or_eq_true, not_and, not_or] at hfolder' ⊢
      refine fun hkind => ⟨fun hno => (hfolder' hkind).1 ?_, (hfolder' hkind).2⟩
      rw [Bool.not_eq_true'] at hno ⊢
      refine Bool.eq_false_iff.mpr fun hallowed => ?_
      rw [folderAllowed_of_tightens h hallowed] at hno
      cases hno
    rw [if_neg hfolder]
    split at hvisible
    · cases hvisible
    next hchannel' =>
    have hchannel : ¬ (item.kind = .channel && !c.folderAllowed p item.id true) = true := by
      simp only [Bool.and_eq_true, not_and] at hchannel' ⊢
      refine fun hkind hno => hchannel' hkind ?_
      rw [Bool.not_eq_true'] at hno ⊢
      refine Bool.eq_false_iff.mpr fun hallowed => ?_
      rw [folderAllowed_of_tightens h hallowed] at hno
      cases hno
    rw [if_neg hchannel]
    cases hparental : c.parental p' item (skip || item.kind = .person) with
    | error e => rw [hparental] at hvisible; cases hvisible
    | ok allows =>
    cases allows with
    | false => rw [hparental] at hvisible; cases hvisible
    | true =>
    simp only [hparental, parental_of_tightens h hparental, Bool.not_true, Bool.false_eq_true,
      if_false] at hvisible ⊢
    split at hvisible
    · next hboxset =>
      rw [if_pos hboxset]
      split at hvisible
      · next hempty => rw [if_pos hempty]
      next hlinks =>
      rw [if_neg hlinks]
      split at hvisible
      · next hempty => rw [if_pos hempty]
      next hsome =>
      rw [if_neg hsome]
      have hbelow : ∀ row ∈ libraries.filterMap c.row, row ∈ c.rows ∧
          (rank row.id + 1 < fuel ∨ 0 < fuel ∧ row.kind = .collectionFolder) := by
        intro row hrow
        obtain ⟨id, hid, hrow⟩ := mem_filterMap.mp hrow
        have hlt := fuel_of_boxset hfuel hboxset
        refine ⟨(mem_row hrow).1, ?_⟩
        rcases hbefore id hid row hrow with hrank | hkind
        · exact .inl (by omega)
        · exact .inr ⟨by omega, hkind⟩
      obtain ⟨answers, hanswers⟩ := exists_mapM (l := libraries.filterMap c.row)
        (h := fun row => c.visible p fuel row false) fun row hrow =>
          hc.exists_visible p (hbelow row hrow).1 (hbelow row hrow).2 false
      cases hanswers' : (libraries.filterMap c.row).mapM fun row => c.visible p' fuel row false with
      | error e => rw [hanswers'] at hvisible; cases hvisible
      | ok answers' =>
      simp only [hanswers, hanswers'] at hvisible ⊢
      split at hvisible
      · next hany =>
        -- A library that the tighter policy sees.
        obtain ⟨answer, hanswer, htrue⟩ := any_eq_true.mp hany
        obtain ⟨row, hrow, hseen⟩ := exists_of_mem_mapM hanswers' hanswer
        rw [show answer = true from htrue] at hseen
        have hsees := ih (hbelow row hrow).1 (hbelow row hrow).2 hseen
        obtain ⟨answer, hanswer, heq⟩ := mem_mapM hanswers hrow
        cases hsees.symm.trans heq
        rw [if_pos (any_eq_true.mpr ⟨true, hanswer, rfl⟩), hchild hvisible]
      · cases hvisible
    · next hboxset =>
      rw [if_neg hboxset]
      split at hvisible
      · next hplaylist => rw [if_pos hplaylist, hchild hvisible]
      · next hplaylist => rw [if_neg hplaylist]

theorem Acyclic.isVisible_of_tightens (h : p.Tightens c p') (hitem : item ∈ c.rows)
    (hvisible : c.isVisible p' item skip = .ok true) : c.isVisible p item skip = .ok true :=
  hc.visible_of_tightens h hitem (.inl (Nat.succ_lt_succ (hc.lt item hitem))) hvisible

theorem Acyclic.parentsVisible_of_tightens (h : p.Tightens c p')
    (hparents : ∀ row ∈ parents, row ∈ c.rows)
    (hvisible : c.parentsVisible p' parents = .ok true) :
    c.parentsVisible p parents = .ok true := by
  induction parents with
  | nil => rfl
  | cons parent parents ih =>
    simp only [parentsVisible, bind, Except.bind, pure, Except.pure] at hvisible ⊢
    cases hparent : c.isVisible p' parent true with
    | error e => rw [hparent] at hvisible; cases hvisible
    | ok sees =>
    cases sees with
    | false => rw [hparent] at hvisible; cases hvisible
    | true =>
      simp only [hparent, Bool.not_true, Bool.false_eq_true, if_false,
        hc.isVisible_of_tightens h (hparents parent (List.mem_cons_self ..)) hparent]
        at hvisible ⊢
      exact ih (fun row hrow => hparents row (List.mem_cons_of_mem _ hrow)) hvisible

/-- **Visibility of an item by itself.** -/
theorem Acyclic.standalone_of_tightens (h : p.Tightens c p') (hitem : item ∈ c.rows)
    (hvisible : c.standalone p' item = .ok true) : c.standalone p item = .ok true := by
  obtain ⟨chain, hchain, hrows⟩ := hc.exists_chain hitem false
  obtain ⟨libraries, hlibraries, _⟩ := hc.exists_libraries hitem
  simp only [standalone, hchain, hlibraries, bind, Except.bind, pure, Except.pure] at hvisible ⊢
  split at hvisible
  · next hroot => rw [if_pos hroot]
  next hroot =>
  rw [if_neg hroot]
  cases hself : c.isVisible p' item false with
  | error e => rw [hself] at hvisible; cases hvisible
  | ok sees =>
  cases sees with
  | false => rw [hself] at hvisible; cases hvisible
  | true =>
  simp only [hself, hc.isVisible_of_tightens h hitem hself, Bool.not_true, Bool.false_eq_true,
    if_false] at hvisible ⊢
  split at hvisible
  · next hshared => rw [if_pos hshared]
  next hshared =>
  rw [if_neg hshared]
  cases hparents : c.parentsVisible p' chain.tail with
  | error e => rw [hparents] at hvisible; cases hvisible
  | ok sees =>
  cases sees with
  | false => rw [hparents] at hvisible; cases hvisible
  | true =>
  have htail : ∀ row ∈ chain.tail, row ∈ c.rows := fun row hrow =>
    hrows row (List.mem_of_mem_tail hrow)
  simp only [hparents, hc.parentsVisible_of_tightens h htail hparents, Bool.not_true,
    Bool.false_eq_true, if_false] at hvisible ⊢
  split at hvisible
  · next channelId _ =>
    split at hvisible
    · next channel hrow => exact hc.isVisible_of_tightens h (mem_row hrow).1 hvisible
    · cases hvisible
  · split at hvisible
    · next hkind => rw [if_pos hkind]
    next hkind =>
    rw [if_neg hkind]
    split at hvisible
    · next hpath => rw [if_pos hpath]
    next hpath =>
    rw [if_neg hpath]
    simp only [Except.ok.injEq, Bool.or_eq_true] at hvisible ⊢
    refine hvisible.imp_right fun hany => ?_
    obtain ⟨id, hid, hallowed⟩ := any_eq_true.mp hany
    exact any_eq_true.mpr ⟨id, hid, folderAllowed_of_tightens h hallowed⟩

end Acyclic

end Context

/-- **A tighter policy reveals nothing**: an item that is visible by itself under the tighter
policy is visible under the policy, and so for the parental check alone. -/
theorem tightening_reveals_nothing {c : Context} {rank : Nat → Nat} (hc : c.Acyclic rank)
    (p p' : Policy) (h : p.Tightens c p') {item : BaseItemEntity} (hitem : item ∈ c.rows) :
    (c.standalone p' item = .ok true → c.standalone p item = .ok true) ∧
      ∀ skip, c.parental p' item skip = .ok true → c.parental p item skip = .ok true :=
  ⟨hc.standalone_of_tightens h hitem, fun _ => Context.parental_of_tightens h⟩

def ratesFive : Service where
  dataPath := "/data".toList
  expand := id
  toLowercase := id
  getCleanValue := id
  getRatingScore := fun _ _ => some ⟨5, none⟩
  parseDotnetGuid := fun s => if s = "1" then some 1 else if s = "2" then some 2 else none
  parseUnrated := fun _ => none

def movieLibrary : BaseItemEntity :=
  { id := 1, kind := .collectionFolder, path := some "/media".toList }

def ratedMovie : BaseItemEntity :=
  { id := 3, kind := .movie, parentId := some 1, path := some "/media/m.mkv".toList,
    officialRating := some "PG" }

def movieServer : Context where
  service := ratesFive
  userId := some 7
  rows := [movieLibrary, ratedMovie]
  nodup := by decide
  libraryIds := [1]
  links := fun _ => []
  options := fun _ => none
  playlists := fun _ => none

theorem movieServer_acyclic : movieServer.Acyclic fun id => if id = 1 then 0 else 1 where
  lt := by decide
  above := by
    intro row hrow next _ hid
    simp only [movieServer, mem_cons, not_mem_nil, or_false] at hrow
    rcases hrow with rfl | rfl
    · simp [movieLibrary] at hid
    · simp only [ratedMovie, mem_cons, Option.some.injEq, reduceCtorEq, not_mem_nil,
        or_false] at hid
      rw [hid]
      decide
  named := by
    intro row hrow ids hids
    simp only [movieServer, mem_cons, not_mem_nil, or_false] at hrow
    rcases hrow with rfl | rfl <;> cases hids
  libraries := by
    intro id hid row hrow
    rw [List.mem_singleton.mp hid] at hrow
    cases hrow
    rfl

theorem tightening_reveals_nothing_rated :
    movieServer.standalone { permission := fun _ => some true } ratedMovie = .ok true :=
  (tightening_reveals_nothing movieServer_acyclic { permission := fun _ => some true }
    { permission := fun _ => some true, maxParentalRatingScore := some 6 }
    { blockedTags := fun _ => id
      blockUnrated := fun _ => id
      maxScore := fun _ h => by cases h
      maxSubScore := fun _ h => by cases h
      folders := ⟨fun _ => id, fun _ => id, id, by decide⟩
      channels := ⟨fun _ => id, fun _ => id, id, by decide⟩
      allowedTags := by decide }
    (List.mem_cons_of_mem _ (List.mem_cons_self ..))).1 (by decide)

/-- The first folder that is blocked takes the place of the enabled ones: a library that was not
enabled is visible then. -/
theorem first_blocked_folder_reveals :
    movieServer.standalone {} movieLibrary = .ok false ∧
      movieServer.standalone
        { preference := fun
            | .blockedMediaFolders => ["2"]
            | _ => [] } movieLibrary = .ok true := by
  decide

end Ferrofin.Visibility
