import Mathlib.Data.List.Flatten
import Mathlib.Data.List.Nodup
import Mathlib.Data.List.Perm.Basic

/-!
# Folders planned in parallel

`fanout::map` splits its entries into chunks.  The first chunk is planned inline, the later ones by
workers, each on a copy of the maps of the context, as long as permits and threads are to be had;
what a worker leaves is merged into the context in the order of the chunks, the maps as a whole.

The rows come in the order of the entries, the lists get what each entry adds, and the permits are
released (`Fanout.map_spec`).  The maps come out as by one entry after another exactly when each key
is left alike (`Fanout.Settles`): a key that the context holds is as the last worker has it, which
copied it before anybody else wrote it.
-/

namespace Ferrofin.Scan.Fanout

open List (append_assoc append_nil filterMap_cons flatMap_append foldl_cons mem_cons_self mem_map)

/-! ### The context -/

def effectiveLimit (setting : Int) (processors : Nat) : Nat :=
  if 0 < setting then setting.toNat else max (processors - 3) 1

/-- `Budget::try_acquire`: the active extra workers, with one more if the limit allows it. -/
def tryAcquire (setting : Int) (processors active : Nat) : Option Nat :=
  if active < effectiveLimit setting processors - 1 then some (active + 1) else none

/-- The maps of a `PlanCtx` that planning fills. -/
inductive MapField where
  | ownerPaths | directFileCounts | albumAncestors | folderAncestors | episodeFolders
deriving DecidableEq

/-- The lists of a `PlanCtx` that planning fills. -/
inductive ListField where
  | excluded | superseded | unlisted | inaccessible | ripFolds | localVersions
deriving DecidableEq

/-- `PlanCtx`, what planning fills; keys and values stand for those of any of the fields.  The
listings a walk hands over (`prelisted`), which planning uses up, are left out. -/
@[ext] structure PlanCtx (K V A : Type) where
  maps : MapField → K → Option V
  lists : ListField → List A

/-- What is planned of an entry: its result, and what it puts into the maps and the lists. -/
structure Plan (R K V A : Type) where
  row : R
  inserts : List (MapField × K × V) := []
  pushes : List (ListField × A) := []

variable {T R K V A : Type} [DecidableEq K]

namespace PlanCtx

def insert (ctx : PlanCtx K V A) (write : MapField × K × V) : PlanCtx K V A :=
  { ctx with maps := fun field key =>
      if write.1 = field ∧ write.2.1 = key then some write.2.2 else ctx.maps field key }

def push (ctx : PlanCtx K V A) (item : ListField × A) : PlanCtx K V A :=
  { ctx with lists := fun field =>
      if item.1 = field then ctx.lists field ++ [item.2] else ctx.lists field }

def apply (ctx : PlanCtx K V A) (plan : Plan R K V A) : PlanCtx K V A :=
  plan.pushes.foldl push (plan.inserts.foldl insert ctx)

omit [DecidableEq K] in
/-- `Seed::of` and `Seed::context`: a worker starts with the maps and with empty lists. -/
def seed (ctx : PlanCtx K V A) : PlanCtx K V A := { ctx with lists := fun _ => [] }

def merge (effects ctx : PlanCtx K V A) : PlanCtx K V A where
  maps := fun field key => (effects.maps field key).or (ctx.maps field key)
  lists := fun field => ctx.lists field ++ effects.lists field

end PlanCtx

/-! ### Planning -/

/-- What is outside: whether there is a budget, the setting and the active extra workers at each try
to get a permit, and which threads can be spawned. -/
structure Environment where
  hasBudget : Bool := true
  processors : Nat := 1
  look : Nat → Int × Nat
  spawns : Nat → Bool := fun _ => true

/-- The permits that are got: the first try in vain is the last one. -/
def Environment.permits (env : Environment) (entries : Nat) : List Nat :=
  if env.hasBudget then
    (List.range (entries - 1)).takeWhile fun i =>
      (tryAcquire (env.look i).1 env.processors (env.look i).2).isSome
  else []

/-- `slice::chunks`, of so many chunks at most. -/
def chunksFrom (width : Nat) : (fuel : Nat) → List T → List (List T)
  | 0, _ => []
  | _ + 1, [] => []
  | fuel + 1, t :: ts => (t :: ts).take width :: chunksFrom width fuel ((t :: ts).drop width)

def chunks (width : Nat) (entries : List T) : List (List T) :=
  chunksFrom width entries.length entries

section Map

variable [Inhabited R] (run : T → PlanCtx K V A → Plan R K V A) (isCancelled : T → Bool)

def runChunk : List T → PlanCtx K V A → List R × PlanCtx K V A
  | [], ctx => ([], ctx)
  | entry :: entries, ctx =>
    if isCancelled entry then
      let (rows, ctx) := runChunk entries ctx
      (default :: rows, ctx)
    else
      let plan := run entry ctx
      let (rows, ctx) := runChunk entries (ctx.apply plan)
      (plan.row :: rows, ctx)

/-- What `map` keeps while it hands out the chunks. -/
structure Progress (T R K V A : Type) where
  ctx : PlanCtx K V A
  /-- The results of a chunk. -/
  results : Nat → List R := fun _ => []
  /-- The chunks that workers plan, each with the worker's permit. -/
  handles : List ((List T × Nat) × Option Nat) := []
  permits : List Nat
  canSpawn : Bool := true
  released : List Nat := []

def Progress.inline (p : Progress T R K V A) (chunk : List T × Nat) : Progress T R K V A :=
  let (rows, ctx) := runChunk run isCancelled chunk.1 p.ctx
  { p with ctx, results := Function.update p.results chunk.2 rows }

/-- One chunk is handed out: to a worker, or else it is planned inline without its permit. -/
def Progress.handOut (spawns : Nat → Bool) (p : Progress T R K V A) (chunk : List T × Nat) :
    Progress T R K V A :=
  let permit := p.permits.head?
  let p := { p with permits := p.permits.tail }
  if p.canSpawn && spawns chunk.2 then { p with handles := p.handles ++ [(chunk, permit)] }
  else
    let p := { p with canSpawn := false, released := p.released ++ permit.toList }
    p.inline run isCancelled chunk

def Progress.join (seed : PlanCtx K V A) (p : Progress T R K V A)
    (handle : (List T × Nat) × Option Nat) : Progress T R K V A :=
  let (rows, effects) := runChunk run isCancelled handle.1.1 seed
  { p with
    ctx := effects.merge p.ctx
    results := Function.update p.results handle.1.2 rows
    released := p.released ++ handle.2.toList }

/-- What `map` returns and leaves. -/
structure Done (R K V A : Type) where
  rows : List R
  ctx : PlanCtx K V A
  taken : List Nat := []
  released : List Nat := []

def mapChunks (spawns : Nat → Bool) (permits : List Nat) (numbered : List (List T × Nat))
    (ctx : PlanCtx K V A) : Done R K V A :=
  let p := numbered.tail.foldl (Progress.handOut run isCancelled spawns) { ctx, permits }
  -- The permits that are left over go first.
  let p := { p with permits := [], released := p.released ++ p.permits }
  let p := numbered.head?.toList.foldl (Progress.inline run isCancelled) p
  let p := p.handles.foldl (Progress.join run isCancelled ctx.seed) p
  { rows := (List.range numbered.length).flatMap p.results
    ctx := p.ctx
    taken := permits
    released := p.released }

def Environment.numbered (env : Environment) (entries : List T) : List (List T × Nat) :=
  (chunks ((entries.length + (env.permits entries.length).length) /
    ((env.permits entries.length).length + 1)) entries).zipIdx

def map (env : Environment) (entries : List T) (ctx : PlanCtx K V A) : Done R K V A :=
  if env.permits entries.length = [] then
    let (rows, ctx) := runChunk run isCancelled entries ctx
    { rows, ctx }
  else
    mapChunks run isCancelled env.spawns (env.permits entries.length) (env.numbered entries) ctx

end Map

/-! ### What entries write -/

section Writes

variable (plan : T → Plan R K V A)

def lastWrite (entries : List T) (field : MapField) (key : K) : Option V :=
  ((entries.flatMap fun t => (plan t).inserts).filterMap fun write =>
    if write.1 = field ∧ write.2.1 = key then some write.2.2 else none).getLast?

omit [DecidableEq K] in
def pushed (entries : List T) (field : ListField) : List A :=
  (entries.flatMap fun t => (plan t).pushes).filterMap fun item =>
    if item.1 = field then some item.2 else none

def after (ctx : PlanCtx K V A) (entries : List T) : PlanCtx K V A where
  maps := fun field key => (lastWrite plan entries field key).or (ctx.maps field key)
  lists := fun field => ctx.lists field ++ pushed plan entries field

variable {plan} {ctx : PlanCtx K V A} {a b : List T} {field : MapField} {key : K}

@[simp] theorem lastWrite_nil : lastWrite plan [] field key = none := rfl

theorem lastWrite_append : lastWrite plan (a ++ b) field key =
    (lastWrite plan b field key).or (lastWrite plan a field key) := by
  rw [lastWrite, flatMap_append, List.filterMap_append, List.getLast?_append]
  rfl

omit [DecidableEq K] in
theorem pushed_append (field : ListField) :
    pushed plan (a ++ b) field = pushed plan a field ++ pushed plan b field := by
  rw [pushed, flatMap_append, List.filterMap_append]
  rfl

theorem after_nil : after plan ctx [] = ctx := by
  refine PlanCtx.ext (funext fun field => funext fun key => ?_) (funext fun field => ?_)
  · exact Option.none_or
  · exact append_nil _

theorem after_append : after plan ctx (a ++ b) = after plan (after plan ctx a) b := by
  refine PlanCtx.ext (funext fun field => funext fun key => ?_) (funext fun field => ?_)
  · simp only [after, lastWrite_append, Option.or_assoc]
  · simp only [after, pushed_append, append_assoc]

theorem maps_foldl_insert (writes : List (MapField × K × V)) (ctx : PlanCtx K V A) :
    (writes.foldl PlanCtx.insert ctx).maps field key =
      ((writes.filterMap fun write =>
        if write.1 = field ∧ write.2.1 = key then some write.2.2 else none).getLast?).or
          (ctx.maps field key) ∧
    (writes.foldl PlanCtx.insert ctx).lists = ctx.lists := by
  induction writes generalizing ctx with
  | nil => exact ⟨rfl, rfl⟩
  | cons write writes ih =>
    obtain ⟨hmaps, hlists⟩ := ih (ctx.insert write)
    rw [foldl_cons, hmaps, hlists]
    refine ⟨?_, rfl⟩
    by_cases hkey : write.1 = field ∧ write.2.1 = key
    · rw [filterMap_cons, if_pos hkey, PlanCtx.insert]
      dsimp only
      rw [if_pos hkey, List.getLast?_cons]
      cases List.getLast? _ <;> rfl
    · rw [filterMap_cons, if_neg hkey, PlanCtx.insert]
      dsimp only
      rw [if_neg hkey]

omit [DecidableEq K] in
theorem lists_foldl_push (items : List (ListField × A)) (ctx : PlanCtx K V A) (field : ListField) :
    (items.foldl PlanCtx.push ctx).lists field = ctx.lists field ++ items.filterMap (fun item =>
      if item.1 = field then some item.2 else none) ∧
    (items.foldl PlanCtx.push ctx).maps = ctx.maps := by
  induction items generalizing ctx with
  | nil => exact ⟨(append_nil _).symm, rfl⟩
  | cons item items ih =>
    obtain ⟨hlists, hmaps⟩ := ih (ctx.push item)
    rw [foldl_cons, hlists, hmaps]
    refine ⟨?_, rfl⟩
    by_cases hfield : item.1 = field
    · rw [filterMap_cons, if_pos hfield, PlanCtx.push]
      dsimp only
      rw [if_pos hfield, append_assoc]
      rfl
    · rw [filterMap_cons, if_neg hfield, PlanCtx.push]
      dsimp only
      rw [if_neg hfield]

theorem apply_eq (t : T) : ctx.apply (plan t) = after plan ctx [t] := by
  refine PlanCtx.ext (funext fun field => funext fun key => ?_) (funext fun field => ?_)
  · rw [PlanCtx.apply, (lists_foldl_push (plan t).pushes _ .excluded).2,
      (maps_foldl_insert (plan t).inserts ctx).1]
    simp [after, lastWrite]
  · rw [PlanCtx.apply, (lists_foldl_push (plan t).pushes _ field).1]
    have hlists : ((plan t).inserts.foldl PlanCtx.insert ctx).lists = ctx.lists := by
      generalize (plan t).inserts = writes
      induction writes generalizing ctx with
      | nil => rfl
      | cons write writes ih => exact ih
    rw [hlists]
    simp [after, pushed]

end Writes

/-! ### Chunks -/

theorem flatten_chunksFrom {width : Nat} (hwidth : 0 < width) (fuel : Nat) (entries : List T)
    (h : entries.length ≤ fuel) : (chunksFrom width fuel entries).flatten = entries := by
  induction fuel generalizing entries with
  | zero => exact (List.length_eq_zero_iff.mp (Nat.le_zero.mp h)).symm
  | succ fuel ih =>
    cases entries with
    | nil => rfl
    | cons t ts =>
      have hless : ((t :: ts).drop width).length ≤ fuel := by
        rw [List.length_drop]
        omega
      rw [chunksFrom, List.flatten_cons, ih _ hless, List.take_append_drop]

theorem flatMap_numbered (l : List (List T)) : l.zipIdx.flatMap (·.1) = l.flatten := by
  rw [List.flatMap_def, ← List.unzip_fst, List.unzip_zipIdx_eq_prod]

/-- The chunks that workers plan: those up to the first thread that is not to be had. -/
def Environment.workers (env : Environment) (entries : List T) : List (List T × Nat) :=
  if env.permits entries.length = [] then []
  else (env.numbered entries).tail.takeWhile fun chunk => env.spawns chunk.2

/-- The entries that are planned inline, in their order: the first chunk is the last. -/
def Environment.inline (env : Environment) (entries : List T) : List T :=
  if env.permits entries.length = [] then entries
  else (((env.numbered entries).tail.dropWhile fun chunk => env.spawns chunk.2) ++
    (env.numbered entries).head?.toList).flatMap (·.1)

theorem flatMap_numbered_entries (env : Environment) {entries : List T} (h : entries ≠ []) :
    (env.numbered entries).flatMap (·.1) = entries := by
  rw [Environment.numbered, flatMap_numbered]
  refine flatten_chunksFrom (Nat.div_pos ?_ (Nat.succ_pos _)) _ _ (Nat.le_refl _)
  have hpos := List.length_pos_iff.mpr h
  omega

theorem ne_nil_of_permits {env : Environment} {entries : List T}
    (h : env.permits entries.length ≠ []) : entries ≠ [] := by
  rintro rfl
  refine h ?_
  unfold Environment.permits
  split <;> rfl

theorem inline_append_workers_perm (env : Environment) (entries : List T) :
    (env.inline entries ++ (env.workers entries).flatMap (·.1)).Perm entries := by
  unfold Environment.inline Environment.workers
  by_cases hnone : env.permits entries.length = []
  · rw [if_pos hnone, if_pos hnone, List.flatMap_nil, append_nil]
  · rw [if_neg hnone, if_neg hnone]
    have hall := flatMap_numbered_entries env (ne_nil_of_permits hnone)
    generalize env.numbered entries = numbered at hall ⊢
    have hparts : numbered = numbered.head?.toList ++
        (numbered.tail.takeWhile (fun chunk => env.spawns chunk.2) ++
          numbered.tail.dropWhile fun chunk => env.spawns chunk.2) := by
      rw [List.takeWhile_append_dropWhile]
      cases numbered <;> rfl
    have hperm : ((numbered.tail.dropWhile (fun chunk => env.spawns chunk.2) ++
        numbered.head?.toList) ++ numbered.tail.takeWhile fun chunk => env.spawns chunk.2).Perm
          numbered := by
      refine List.Perm.trans ?_ (.of_eq hparts.symm)
      refine List.perm_append_comm.trans ?_
      rw [← append_assoc]
      exact List.perm_append_comm
    rw [← flatMap_append]
    exact (hperm.flatMap_right _).trans (.of_eq hall)

/-! ### Handing out and joining -/

section Run

variable [Inhabited R] {run : T → PlanCtx K V A → Plan R K V A} {isCancelled : T → Bool}
  {plan : T → Plan R K V A} {ctx : PlanCtx K V A}

theorem runChunk_eq (hrun : ∀ t c, run t c = plan t) {entries : List T}
    (hcancel : ∀ t ∈ entries, isCancelled t = false) (c : PlanCtx K V A) :
    runChunk run isCancelled entries c =
      (entries.map fun t => (plan t).row, after plan c entries) := by
  induction entries generalizing c with
  | nil => rw [runChunk, after_nil, List.map_nil]
  | cons t ts ih =>
    have ht := hcancel t (mem_cons_self ..)
    have hrest := ih fun u hu => hcancel u (List.mem_cons_of_mem _ hu)
    rw [runChunk, if_neg (by rw [ht]; exact Bool.false_ne_true)]
    dsimp only
    rw [hrest, hrun, apply_eq, ← after_append]
    rfl

/-- What holds while the chunks are handed out: some are planned inline, and some by workers. -/
structure Progress.Sound (plan : T → Plan R K V A) (ctx : PlanCtx K V A) (taken : List Nat)
    (inlined spawned : List (List T × Nat)) (p : Progress T R K V A) : Prop where
  ctx_eq : p.ctx = after plan ctx (inlined.flatMap (·.1))
  handles_eq : p.handles.map (·.1) = spawned
  results_eq : ∀ chunk ∈ inlined, p.results chunk.2 = chunk.1.map fun t => (plan t).row
  permits : (p.released ++ p.handles.flatMap (·.2.toList) ++ p.permits).Perm taken

variable {taken : List Nat} {inlined spawned : List (List T × Nat)} {p : Progress T R K V A}
  {chunk : List T × Nat}

theorem Progress.Sound.inline (h : p.Sound plan ctx taken inlined spawned)
    (hrun : ∀ t c, run t c = plan t) (hcancel : ∀ t ∈ chunk.1, isCancelled t = false)
    (hnew : chunk.2 ∉ inlined.map (·.2)) :
    (p.inline run isCancelled chunk).Sound plan ctx taken (inlined ++ [chunk]) spawned := by
  unfold Progress.inline
  rw [runChunk_eq hrun hcancel]
  refine ⟨?_, h.handles_eq, fun c hc => ?_, h.permits⟩
  · dsimp only
    rw [h.ctx_eq, ← after_append, flatMap_append]
    simp
  · dsimp only
    rcases List.mem_append.mp hc with hc | hc
    · have hne : c.2 ≠ chunk.2 := fun heq => hnew (heq ▸ List.mem_map_of_mem hc)
      rw [Function.update_of_ne hne]
      exact h.results_eq c hc
    · rw [List.mem_singleton.mp hc, Function.update_self]

omit [Inhabited R] in
theorem Progress.Sound.takePermit (h : p.Sound plan ctx taken inlined spawned) :
    (p.released ++ p.handles.flatMap (·.2.toList) ++ (p.permits.head?.toList ++
      p.permits.tail)).Perm taken := by
  have hparts : p.permits.head?.toList ++ p.permits.tail = p.permits := by
    cases p.permits <;> rfl
  rw [hparts]
  exact h.permits

theorem Progress.Sound.spawn (run : T → PlanCtx K V A → Plan R K V A) (isCancelled : T → Bool)
    (h : p.Sound plan ctx taken inlined spawned) {spawns : Nat → Bool} (hcan : p.canSpawn = true)
    (hspawns : spawns chunk.2 = true) :
    (p.handOut run isCancelled spawns chunk).Sound plan ctx taken inlined (spawned ++ [chunk]) ∧
      (p.handOut run isCancelled spawns chunk).canSpawn = true := by
  unfold Progress.handOut
  dsimp only
  rw [hcan, hspawns, Bool.and_self, if_pos rfl]
  refine ⟨⟨h.ctx_eq, ?_, h.results_eq, ?_⟩, rfl⟩
  · rw [List.map_append, h.handles_eq]
    rfl
  · have := h.takePermit
    simpa [append_assoc] using this

theorem Progress.Sound.noSpawn (h : p.Sound plan ctx taken inlined spawned) (spawns : Nat → Bool)
    (hcan : (p.canSpawn && spawns chunk.2) = false) (hrun : ∀ t c, run t c = plan t)
    (hcancel : ∀ t ∈ chunk.1, isCancelled t = false) (hnew : chunk.2 ∉ inlined.map (·.2)) :
    (p.handOut run isCancelled spawns chunk).Sound plan ctx taken (inlined ++ [chunk]) spawned ∧
      (p.handOut run isCancelled spawns chunk).canSpawn = false := by
  unfold Progress.handOut
  dsimp only
  rw [hcan, if_neg Bool.false_ne_true]
  refine ⟨Progress.Sound.inline ⟨h.ctx_eq, h.handles_eq, h.results_eq, ?_⟩ hrun hcancel hnew, rfl⟩
  have hpermit := h.takePermit
  dsimp only
  generalize p.permits.head?.toList = permit at hpermit ⊢
  generalize p.handles.flatMap (·.2.toList) = held at hpermit ⊢
  refine List.Perm.trans ?_ hpermit
  simp only [append_assoc]
  refine .append_left _ ?_
  rw [← append_assoc, ← append_assoc]
  exact .append_right _ List.perm_append_comm

omit [Inhabited R] in
theorem Progress.Sound.release (h : p.Sound plan ctx taken inlined spawned) :
    { p with permits := [], released := p.released ++ p.permits }.Sound plan ctx taken inlined
      spawned := by
  refine ⟨h.ctx_eq, h.handles_eq, h.results_eq, List.Perm.trans ?_ h.permits⟩
  rw [append_nil, append_assoc, append_assoc]
  exact .append_left _ List.perm_append_comm

/-- The first chunk, if there is one, is planned inline. -/
theorem Progress.Sound.inlineFirst (isCancelled : T → Bool)
    (h : p.Sound plan ctx taken inlined spawned)
    (hrun : ∀ t c, run t c = plan t) (first : Option (List T × Nat))
    (hcancel : ∀ c ∈ first, ∀ t ∈ c.1, isCancelled t = false)
    (hnew : ∀ c ∈ first, c.2 ∉ inlined.map (·.2)) :
    let p' := first.toList.foldl (Progress.inline run isCancelled) p
    p'.Sound plan ctx taken (inlined ++ first.toList) spawned ∧ p'.permits = p.permits := by
  cases first with
  | none => exact ⟨(append_nil inlined).symm ▸ h, rfl⟩
  | some c => exact ⟨h.inline hrun (hcancel c rfl) (hnew c rfl), rfl⟩

theorem Progress.Sound.handOut_inline (spawns : Nat → Bool) (hrun : ∀ t c, run t c = plan t)
    (l : List (List T × Nat)) (hcancel : ∀ c ∈ l, ∀ t ∈ c.1, isCancelled t = false)
    (hnodup : ((inlined ++ l).map (·.2)).Nodup) (h : p.Sound plan ctx taken inlined spawned)
    (hcan : p.canSpawn = false) :
    (l.foldl (Progress.handOut run isCancelled spawns) p).Sound plan ctx taken (inlined ++ l)
      spawned := by
  induction l generalizing p inlined with
  | nil => rwa [append_nil]
  | cons c l ih =>
    have hassoc : inlined ++ c :: l = inlined ++ [c] ++ l := by simp
    have hnew : c.2 ∉ inlined.map (·.2) := by
      rw [List.map_append, List.nodup_append] at hnodup
      exact fun hmem => hnodup.2.2 _ hmem _ (mem_cons_self ..) rfl
    obtain ⟨hsound, hcan'⟩ := h.noSpawn spawns (by rw [hcan, Bool.false_and]) hrun
      (hcancel c (mem_cons_self ..)) hnew
    rw [foldl_cons, hassoc]
    exact ih (fun d hd => hcancel d (List.mem_cons_of_mem _ hd)) (hassoc ▸ hnodup) hsound hcan'

/-- **The chunks are handed out**: to workers up to the first thread that is not to be had. -/
theorem Progress.Sound.handOut (spawns : Nat → Bool) (hrun : ∀ t c, run t c = plan t)
    (l : List (List T × Nat)) (hcancel : ∀ c ∈ l, ∀ t ∈ c.1, isCancelled t = false)
    (hnodup : (l.map (·.2)).Nodup) (h : p.Sound plan ctx taken [] spawned)
    (hcan : p.canSpawn = true) :
    (l.foldl (Progress.handOut run isCancelled spawns) p).Sound plan ctx taken
      (l.dropWhile fun c => spawns c.2) (spawned ++ l.takeWhile fun c => spawns c.2) := by
  induction l generalizing p spawned with
  | nil =>
    rw [List.takeWhile_nil, append_nil]
    exact h
  | cons c l ih =>
    have hlater : ∀ d ∈ l, ∀ t ∈ d.1, isCancelled t = false := fun d hd =>
      hcancel d (List.mem_cons_of_mem _ hd)
    by_cases hspawns : spawns c.2 = true
    · obtain ⟨hsound, hcan'⟩ := h.spawn run isCancelled hcan hspawns
      have hrest := ih hlater (List.nodup_cons.mp hnodup).2 hsound hcan'
      rw [foldl_cons, List.dropWhile_cons, if_pos hspawns, List.takeWhile_cons, if_pos hspawns]
      rwa [append_assoc, List.singleton_append] at hrest
    · obtain ⟨hsound, hcan'⟩ := h.noSpawn spawns
        (by rw [Bool.and_eq_false_iff]; exact .inr (Bool.not_eq_true _ ▸ hspawns)) hrun
        (hcancel c (mem_cons_self ..)) nofun
      have hrest := Progress.Sound.handOut_inline spawns hrun l hlater hnodup hsound
        hcan'
      rw [foldl_cons, List.dropWhile_cons, if_neg hspawns, List.takeWhile_cons, if_neg hspawns,
        append_nil]
      exact hrest

/-- **The workers are joined.** -/
theorem join_spec (ctx : PlanCtx K V A) (hrun : ∀ t c, run t c = plan t)
    (handles : List ((List T × Nat) × Option Nat))
    (hcancel : ∀ h ∈ handles, ∀ t ∈ h.1.1, isCancelled t = false)
    (hnodup : (handles.map (·.1.2)).Nodup) (p : Progress T R K V A) :
    let q := handles.foldl (Progress.join run isCancelled ctx.seed) p
    (∀ field key, q.ctx.maps field key =
      if (ctx.maps field key).isSome then
        (handles.getLast?.map fun h => (lastWrite plan h.1.1 field key).or
          (ctx.maps field key)).getD (p.ctx.maps field key)
      else (lastWrite plan (handles.flatMap (·.1.1)) field key).or (p.ctx.maps field key)) ∧
    (∀ field, q.ctx.lists field =
      p.ctx.lists field ++ pushed plan (handles.flatMap (·.1.1)) field) ∧
    (∀ h ∈ handles, q.results h.1.2 = h.1.1.map fun t => (plan t).row) ∧
    (∀ i ∉ handles.map (·.1.2), q.results i = p.results i) ∧
    q.released = p.released ++ handles.flatMap (·.2.toList) := by
  induction handles generalizing p with
  | nil =>
    refine ⟨fun field key => ?_, fun field => (append_nil _).symm, nofun, fun _ _ => rfl,
      (append_nil _).symm⟩
    exact (ite_self _).symm
  | cons h handles ih =>
    have hnodup' := List.nodup_cons.mp hnodup
    have hchunk := runChunk_eq hrun (hcancel h (mem_cons_self ..)) ctx.seed
    have hone : p.join run isCancelled ctx.seed h =
        { p with
          ctx := (after plan ctx.seed h.1.1).merge p.ctx
          results := Function.update p.results h.1.2 (h.1.1.map fun t => (plan t).row)
          released := p.released ++ h.2.toList } := by
      unfold Progress.join
      rw [hchunk]
    obtain ⟨hmaps, hlists, hresults, hother, hreleased⟩ :=
      ih (fun g hg => hcancel g (List.mem_cons_of_mem _ hg)) hnodup'.2
        (p.join run isCancelled ctx.seed h)
    dsimp only at hmaps hlists hresults hother hreleased ⊢
    rw [foldl_cons]
    refine ⟨fun field key => ?_, fun field => ?_, fun g hg => ?_, fun i hi => ?_, ?_⟩
    · rw [hmaps, hone]
      simp only [PlanCtx.merge, after, PlanCtx.seed]
      cases hheld : ctx.maps field key with
      | none =>
        simp only [Option.isSome_none, Bool.false_eq_true, if_false, Option.or_none,
          List.flatMap_cons, lastWrite_append, Option.or_assoc]
      | some held =>
        simp only [Option.isSome_some, if_true]
        cases handles with
        | nil =>
          cases hwrite : lastWrite plan h.1.1 field key <;> simp [hwrite]
        | cons g handles => simp [List.getLast?_cons]
    · rw [hlists, hone]
      simp only [PlanCtx.merge, after, PlanCtx.seed, List.flatMap_cons, pushed_append,
        List.nil_append, append_assoc]
    · rcases List.mem_cons.mp hg with rfl | hg
      · rw [hother _ hnodup'.1, hone]
        exact Function.update_self ..
      · exact hresults g hg
    · rw [List.map_cons, List.mem_cons, not_or] at hi
      rw [hother i hi.2, hone]
      exact Function.update_of_ne hi.1 ..
    · rw [hreleased, hone, List.flatMap_cons, append_assoc]

/-- The entries that decide what is left under a key: those of the last worker, if there is one and
the context holds the key, and else all of them as they are planned and merged. -/
def deciding (env : Environment) (entries : List T) (ctx : PlanCtx K V A) (field : MapField)
    (key : K) : List T :=
  match (env.workers entries).getLast? with
  | some chunk =>
    if (ctx.maps field key).isSome then chunk.1
    else env.inline entries ++ (env.workers entries).flatMap (·.1)
  | none => env.inline entries

omit [DecidableEq K] [Inhabited R] in
theorem pushed_perm {a b : List T} (h : a.Perm b) (field : ListField) :
    (pushed plan a field).Perm (pushed plan b field) :=
  (h.flatMap_right _).filterMap _

/-- **The chunks are planned**: the later ones by workers up to the first thread that is not to be
had. -/
theorem mapChunks_spec (ctx : PlanCtx K V A) (hrun : ∀ t c, run t c = plan t) (spawns : Nat → Bool)
    (permits : List Nat) {numbered : List (List T × Nat)}
    (hcancel : ∀ c ∈ numbered, ∀ t ∈ c.1, isCancelled t = false)
    (hindices : numbered.map (·.2) = List.range numbered.length) :
    let workers := numbered.tail.takeWhile fun c => spawns c.2
    let inlined := (numbered.tail.dropWhile fun c => spawns c.2) ++ numbered.head?.toList
    let done := mapChunks run isCancelled spawns permits numbered ctx
    done.rows = numbered.flatMap (fun c => c.1.map fun t => (plan t).row) ∧
    (∀ field key, done.ctx.maps field key =
      if (ctx.maps field key).isSome then
        (workers.getLast?.map fun c => (lastWrite plan c.1 field key).or
          (ctx.maps field key)).getD ((after plan ctx (inlined.flatMap (·.1))).maps field key)
      else (lastWrite plan (workers.flatMap (·.1)) field key).or
        ((after plan ctx (inlined.flatMap (·.1))).maps field key)) ∧
    (∀ field, done.ctx.lists field = ctx.lists field ++ pushed plan (inlined.flatMap (·.1)) field ++
      pushed plan (workers.flatMap (·.1)) field) ∧
    done.released.Perm permits ∧ done.taken = permits := by
  intro workers inlined
  have hnodup : (numbered.map (·.2)).Nodup := hindices ▸ List.nodup_range
  have hparts : numbered = numbered.head?.toList ++ numbered.tail := by
    cases numbered <;> rfl
  have htail : ∀ c ∈ numbered.tail, c ∈ numbered := fun c => List.mem_of_mem_tail
  have hworkers : ∀ c ∈ workers, c ∈ numbered := fun c hc =>
    htail c ((List.takeWhile_sublist _).subset hc)
  -- The later chunks are handed out, and the permits that are left over go.
  have hstart : Progress.Sound plan ctx permits ([] : List (List T × Nat)) []
      ({ ctx, permits } : Progress T R K V A) :=
    ⟨after_nil.symm, rfl, nofun, .refl _⟩
  have hhanded : (numbered.tail.foldl (Progress.handOut run isCancelled spawns)
      { ctx, permits }).Sound plan ctx permits
        (numbered.tail.dropWhile fun c => spawns c.2) ([] ++ workers) :=
    Progress.Sound.handOut spawns hrun numbered.tail (fun c hc => hcancel c (htail c hc))
      (hnodup.sublist ((List.tail_sublist numbered).map _)) hstart rfl
  unfold mapChunks
  dsimp only
  generalize numbered.tail.foldl (Progress.handOut run isCancelled spawns) _ = p₁ at hhanded ⊢
  obtain ⟨hsound, hempty⟩ := hhanded.release.inlineFirst isCancelled hrun
    numbered.head? (fun c hc => hcancel c (List.mem_of_mem_head? hc)) fun c hc hin => by
      obtain ⟨d, hd, heq⟩ := mem_map.mp hin
      rw [hparts, Option.mem_def.mp hc, List.map_append, List.nodup_append] at hnodup
      exact hnodup.2.2 c.2 (mem_cons_self ..) d.2
        (List.mem_map_of_mem ((List.dropWhile_sublist _).subset hd)) heq.symm
  generalize numbered.head?.toList.foldl (Progress.inline run isCancelled) _ = p₂ at hsound hempty ⊢
  -- The workers are joined.
  have hfst : p₂.handles.map (·.1) = workers := hsound.handles_eq
  have hchunks : ∀ h ∈ p₂.handles, h.1 ∈ workers := fun h hh => hfst ▸ List.mem_map_of_mem hh
  have hsnd : p₂.handles.map (·.1.2) = workers.map (·.2) := by
    rw [← hfst, List.map_map]
    rfl
  have hflat : p₂.handles.flatMap (·.1.1) = workers.flatMap (·.1) := by
    rw [← hfst, List.flatMap_map]
  have hlast : ∀ g : List T × Nat → Option V, (p₂.handles.getLast?.map fun h => g h.1) =
      workers.getLast?.map g := by
    intro g
    rw [← hfst, List.getLast?_map, Option.map_map]
    rfl
  have hsub : (workers.map (·.2)).Nodup :=
    hnodup.sublist (((List.takeWhile_sublist _).trans (List.tail_sublist numbered)).map _)
  obtain ⟨hmaps, hlists, hresults, hother, hreleased⟩ := join_spec ctx hrun p₂.handles
    (fun h hh => hcancel h.1 (hworkers h.1 (hchunks h hh))) (hsnd ▸ hsub) p₂
  generalize p₂.handles.foldl (Progress.join run isCancelled ctx.seed) p₂ = q
    at hmaps hlists hresults hother hreleased ⊢
  refine ⟨?_, fun field key => ?_, fun field => ?_, ?_, rfl⟩
  · rw [← hindices, List.flatMap_map]
    refine List.flatMap_congr fun c hc => ?_
    by_cases hworker : c ∈ workers
    · obtain ⟨h, hh, rfl⟩ := mem_map.mp (hfst ▸ hworker)
      exact hresults h hh
    · have hin : c ∈ inlined := by
        rw [hparts] at hc
        rcases List.mem_append.mp hc with hc | hc
        · exact List.mem_append_right _ hc
        · rw [← List.takeWhile_append_dropWhile (p := fun c => spawns c.2)
            (l := numbered.tail)] at hc
          exact List.mem_append_left _ ((List.mem_append.mp hc).resolve_left hworker)
      have hnew : c.2 ∉ p₂.handles.map (·.1.2) := by
        rw [hsnd]
        intro hmem
        obtain ⟨d, hd, heq⟩ := mem_map.mp hmem
        exact hworker (List.inj_on_of_nodup_map hnodup (hworkers d hd) hc heq ▸ hd)
      rw [hother _ hnew]
      exact hsound.results_eq c hin
  · rw [hmaps, hflat, hsound.ctx_eq, hlast fun c => (lastWrite plan c.1 field key).or
      (ctx.maps field key)]
  · rw [hlists, hflat, hsound.ctx_eq]
    rfl
  · rw [hreleased]
    have hall := hsound.permits
    rwa [hempty, append_nil] at hall

/-- **What `map` returns and leaves.** -/
theorem map_spec (ctx : PlanCtx K V A) (env : Environment) {entries : List T}
    (hrun : ∀ t c, run t c = plan t)
    (hcancel : ∀ t ∈ entries, isCancelled t = false) :
    let done := map run isCancelled env entries ctx
    done.rows = entries.map (fun t => (plan t).row) ∧
    (∀ field key, done.ctx.maps field key =
      (after plan ctx (deciding env entries ctx field key)).maps field key) ∧
    (∀ field, (done.ctx.lists field).Perm ((after plan ctx entries).lists field)) ∧
    done.released.Perm done.taken := by
  unfold map
  by_cases hnone : env.permits entries.length = []
  · rw [if_pos hnone, runChunk_eq hrun hcancel]
    refine ⟨rfl, fun field key => ?_, fun field => .refl _, .refl _⟩
    unfold deciding Environment.workers Environment.inline
    rw [if_pos hnone, if_pos hnone]
    rfl
  · rw [if_neg hnone]
    have hall := flatMap_numbered_entries env (ne_nil_of_permits hnone)
    have hperm := inline_append_workers_perm env entries
    have hindices : (env.numbered entries).map (·.2) =
        List.range (env.numbered entries).length := by
      rw [Environment.numbered, List.length_zipIdx, List.range_eq_range']
      exact List.zipIdx_map_snd 0 _
    obtain ⟨hrows, hmaps, hlists, hreleased, htaken⟩ := mapChunks_spec ctx hrun env.spawns
      (env.permits entries.length) (fun c hc t ht => hcancel t
        (hall ▸ List.mem_flatMap.mpr ⟨c, hc, ht⟩)) hindices
    dsimp only at hrows hmaps hlists hreleased htaken ⊢
    have hworkers : env.workers entries =
        (env.numbered entries).tail.takeWhile fun c => env.spawns c.2 := if_neg hnone
    have hinline : env.inline entries = (((env.numbered entries).tail.dropWhile fun c =>
        env.spawns c.2) ++ (env.numbered entries).head?.toList).flatMap (·.1) := if_neg hnone
    rw [← hworkers, ← hinline] at hmaps hlists
    refine ⟨?_, fun field key => ?_, fun field => ?_, htaken.symm ▸ hreleased⟩
    · rw [hrows, ← List.map_flatMap, hall]
    · rw [hmaps]
      unfold deciding
      cases hlast : (env.workers entries).getLast? with
      | none =>
        have hnil := List.getLast?_eq_none_iff.mp hlast
        rw [hnil]
        simp
      | some chunk =>
        dsimp only
        split
        · rfl
        · rw [after_append]
          rfl
    · rw [hlists, append_assoc, ← pushed_append]
      exact .append_left _ (pushed_perm hperm field)

/-- The keys are left alike: what the entries leave under a key, one after another, is left by those
that decide it. -/
def Settles (plan : T → Plan R K V A) (env : Environment) (entries : List T)
    (ctx : PlanCtx K V A) : Prop :=
  ∀ field key, (after plan ctx (deciding env entries ctx field key)).maps field key =
    (after plan ctx entries).maps field key

end Run

/-- **Parallel planning is sequential planning** where the keys are left alike; the results, the
lists and the permits are so always. -/
theorem map_eq_inline_iff [Inhabited R] {run : T → PlanCtx K V A → Plan R K V A}
    {isCancelled : T → Bool} (env : Environment) {entries : List T} {ctx : PlanCtx K V A}
    (hrun : ∀ t c, run t c = run t ctx) (hcancel : ∀ t ∈ entries, isCancelled t = false) :
    let done := map run isCancelled env entries ctx
    let inline := runChunk run isCancelled entries ctx
    (done.rows = inline.1 ∧ done.ctx.maps = inline.2.maps ∧
      (∀ field, (done.ctx.lists field).Perm (inline.2.lists field)) ∧
      done.released.Perm done.taken) ↔ Settles (run · ctx) env entries ctx := by
  have hplan : ∀ t c, run t c = (run · ctx) t := hrun
  obtain ⟨hrows, hmaps, hlists, hreleased⟩ := map_spec ctx env hplan hcancel
  dsimp only at hrows hmaps hlists hreleased ⊢
  rw [runChunk_eq hplan hcancel]
  constructor
  · rintro ⟨-, hsame, -⟩ field key
    exact (hmaps field key).symm.trans (congrFun (congrFun hsame field) key)
  · intro hsettles
    exact ⟨hrows, funext fun field => funext fun key =>
      (hmaps field key).trans (hsettles field key), hlists, hreleased⟩

def oneWorker : Environment := { look := fun _ => (2, 0) }

def ownPath (t : Nat) (_ : PlanCtx Nat String Nat) : Plan Nat Nat String Nat :=
  { row := t, inserts := [(.ownerPaths, t, "new")] }

def holding (value : String) : PlanCtx Nat String Nat where
  maps := fun _ key => if key = 0 then some value else none
  lists := fun _ => []

theorem map_eq_inline_own :
    (map ownPath (fun _ => false) oneWorker [0, 1] (holding "new")).ctx.maps =
      (runChunk ownPath (fun _ => false) [0, 1] (holding "new")).2.maps := by
  have hsettles : Settles (ownPath · (holding "new")) oneWorker [0, 1] (holding "new") := by
    intro field key
    match key with
    | 0 => cases field <;> rfl
    | 1 => cases field <;> rfl
    | key + 2 => cases field <;> rfl
  exact ((map_eq_inline_iff oneWorker (fun _ _ => rfl) fun _ _ => rfl).mpr hsettles).2.1

/-- **A key that is overwritten is as before**: the worker's copy of it is merged. -/
theorem overwritten_key_lost : ¬ ∀ entries : List Nat,
    (map ownPath (fun _ => false) oneWorker entries (holding "old")).ctx.maps =
      (runChunk ownPath (fun _ => false) entries (holding "old")).2.maps := by
  intro hall
  have hkey := congrFun (congrFun (hall [0, 1]) .ownerPaths) 0
  exact absurd hkey (by decide)

end Ferrofin.Scan.Fanout
