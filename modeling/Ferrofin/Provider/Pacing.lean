import Ferrofin.Provider.Limiter

/-!
# The limiter keeps to its deadlines

The deadline of the shared state (`RequestRate.next`) covers every deadline there was,
and a request goes out when it is past.  The last requests of a reported quota wait for
its reset: with at most one remaining, the deadline is the reset.
-/

namespace Ferrofin.Provider

open Lib

/-! ### Deadlines move forward -/

namespace RequestRate

variable {rate rate' : RequestRate} {now d : Nat}

/-- The next request goes out at `d` or later. -/
def Covers (rate : RequestRate) (d : Nat) : Prop := ∃ n, rate.next = some n ∧ d ≤ n

/-- The circuit closes when the next request goes out, or before. -/
def Closes (rate : RequestRate) : Prop := ∀ t, rate.openUntil = some t → rate.Covers t

/-- The deadlines move forward: the next request's does, and the circuit's does as long as
it is open. -/
structure Forward (now : Nat) (rate rate' : RequestRate) : Prop where
  next : ∀ d, rate.Covers d → rate'.Covers d
  openUntil : ∀ t, rate.openUntil = some t → t ≤ now ∨ ∃ t', rate'.openUntil = some t' ∧ t ≤ t'

theorem Forward.refl (now : Nat) (rate : RequestRate) : rate.Forward now rate :=
  ⟨fun _ h => h, fun t h => .inr ⟨t, h, Nat.le_refl t⟩⟩

theorem Covers.of_le {d' : Nat} (h : rate.Covers d) (hle : d' ≤ d) : rate.Covers d' := by
  obtain ⟨n, hn, hd⟩ := h
  exact ⟨n, hn, Nat.le_trans hle hd⟩

theorem Covers.congr (h : rate.Covers d) (hnext : rate'.next = rate.next) : rate'.Covers d := by
  obtain ⟨n, hn, hd⟩ := h
  exact ⟨n, hnext.trans hn, hd⟩

theorem forward_of_next (now : Nat) (hc : rate.Closes)
    (hnext : ∀ d, rate.Covers d → rate'.Covers d)
    (hopen : rate'.openUntil = rate.openUntil ∨ rate'.openUntil = rate'.next) :
    rate.Forward now rate' ∧ rate'.Closes := by
  refine ⟨⟨hnext, fun t ht => .inr ?_⟩, fun t ht => ?_⟩
  · rcases hopen with heq | heq
    · exact ⟨t, heq.trans ht, Nat.le_refl t⟩
    · obtain ⟨n, hn, hle⟩ := hnext t (hc t ht)
      exact ⟨n, heq.trans hn, hle⟩
  · rcases hopen with heq | heq
    · exact hnext t (hc t (heq.symm.trans ht))
    · exact ⟨t, heq.symm.trans ht, Nat.le_refl t⟩

theorem covers_postpone_self (rate : RequestRate) (now delay : Nat) :
    (rate.postpone now delay).Covers (now + min delay maxDelay) := by
  rw [postpone]
  cases rate.next with
  | none => exact ⟨_, rfl, Nat.le_refl _⟩
  | some n => exact ⟨_, rfl, Nat.le_max_right _ _⟩

theorem Covers.postpone (h : rate.Covers d) (now delay : Nat) :
    (rate.postpone now delay).Covers d := by
  obtain ⟨n, hn, hd⟩ := h
  rw [RequestRate.postpone, hn]
  exact ⟨_, rfl, Nat.le_trans hd (Nat.le_max_left _ _)⟩

theorem covers_postpone (rate : RequestRate) (now : Nat) {delay delay' : Nat}
    (hle : delay' ≤ delay) : (rate.postpone now delay).Covers (now + min delay' maxDelay) :=
  (covers_postpone_self rate now delay).of_le (by omega)

/-! ### What the methods do -/

theorem failed_cases (rate : RequestRate) (now serverDelay : Nat) (jitter : UInt8) :
    ∃ delay, serverDelay ≤ delay ∧
      (rate.failed now serverDelay jitter = (rate.countFailure now).postpone now delay ∨
        rate.failed now serverDelay jitter = { (rate.countFailure now).postpone now delay with
          openUntil := ((rate.countFailure now).postpone now delay).next }) := by
  refine ⟨max (rate.countFailure now).adaptiveInterval serverDelay + jitter.toNat * 1000000,
    by omega, ?_⟩
  rw [failed]
  dsimp only
  split
  · exact .inr rfl
  · exact .inl rfl

theorem failed_quota (rate : RequestRate) (now serverDelay : Nat) (jitter : UInt8) :
    (rate.failed now serverDelay jitter).quota = rate.quota := by
  obtain ⟨delay, -, heq | heq⟩ := failed_cases rate now serverDelay jitter
  · rw [heq]
    rfl
  · rw [heq]
    rfl

theorem Covers.failed (h : rate.Covers d) (now serverDelay : Nat) (jitter : UInt8) :
    (rate.failed now serverDelay jitter).Covers d := by
  have hcount : (rate.countFailure now).Covers d := h.congr rfl
  obtain ⟨delay, -, heq | heq⟩ := failed_cases rate now serverDelay jitter
  · rw [heq]
    exact hcount.postpone now delay
  · rw [heq]
    exact (hcount.postpone now delay).congr rfl

theorem covers_failed (rate : RequestRate) (now serverDelay : Nat) (jitter : UInt8) :
    (rate.failed now serverDelay jitter).Covers (now + min serverDelay maxDelay) := by
  obtain ⟨delay, hle, heq | heq⟩ := failed_cases rate now serverDelay jitter
  · rw [heq]
    exact covers_postpone _ now hle
  · rw [heq]
    exact (covers_postpone _ now hle).congr rfl

theorem failed_openUntil (rate : RequestRate) (now serverDelay : Nat) (jitter : UInt8) :
    (rate.failed now serverDelay jitter).openUntil = rate.openUntil ∨
      (rate.failed now serverDelay jitter).openUntil =
        (rate.failed now serverDelay jitter).next := by
  obtain ⟨delay, -, heq | heq⟩ := failed_cases rate now serverDelay jitter
  · rw [heq]
    exact .inl rfl
  · rw [heq]
    exact .inr rfl

theorem observeQuota_next (rate : RequestRate) (now : Nat) (cal : Calendar) (headers : Headers)
    (wall : Int) :
    (rate.observeQuota now cal headers wall).next = rate.next ∧
      (rate.observeQuota now cal headers wall).openUntil = rate.openUntil := by
  rw [observeQuota]
  split <;> exact ⟨rfl, rfl⟩

theorem succeeded_frame (rate : RequestRate) (now : Nat) :
    (rate.succeeded now).next = rate.next ∧ (rate.succeeded now).openUntil = rate.openUntil ∧
      (rate.succeeded now).quota = rate.quota := by
  rw [succeeded]
  dsimp only
  split <;> exact ⟨rfl, rfl, rfl⟩

/-- Observing a response is observing its quota, and then postponing: after a failure, or
for the interval and the server's delay. -/
theorem observeResponse_cases (rate : RequestRate) (now : Nat) (cal : Calendar) (r : Response)
    (wall : Int) (jitter : UInt8) (interval : Nat) :
    ∃ (start : RequestRate) (delay : Nat), serverDelay cal r.headers wall ≤ delay ∧
      start.next = rate.next ∧ start.openUntil = rate.openUntil ∧
      start.quota = (rate.observeQuota now cal r.headers wall).quota ∧
      ((r.isRetryable = true ∧
          rate.observeResponse now cal r wall jitter interval = start.failed now delay jitter) ∨
        r.isRetryable = false ∧ interval ≤ delay ∧
          rate.observeResponse now cal r wall jitter interval = start.postpone now delay) := by
  have hframe := observeQuota_next rate now cal r.headers wall
  let start := rate.observeQuota now cal r.headers wall
  let delay := max (serverDelay cal r.headers wall) (start.quotaDelay now)
  cases hr : r.isRetryable with
  | true =>
    refine ⟨start, delay, Nat.le_max_left _ _, hframe.1, hframe.2, rfl, .inl ⟨rfl, ?_⟩⟩
    simp only [observeResponse, hr, if_true]
    rfl
  | false =>
    cases hs : r.isSuccess with
    | true =>
      obtain ⟨hnext, hopen, hquota⟩ := succeeded_frame start now
      refine ⟨start.succeeded now, max (max interval delay) (start.succeeded now).adaptiveInterval,
        by omega, hnext.trans hframe.1, hopen.trans hframe.2, hquota, .inr ⟨rfl, by omega, ?_⟩⟩
      simp only [observeResponse, hr, hs, if_true, if_false, Bool.false_eq_true]
      rfl
    | false =>
      refine ⟨start, max (max interval delay) start.adaptiveInterval, by omega, hframe.1, hframe.2,
        rfl, .inr ⟨rfl, by omega, ?_⟩⟩
      simp only [observeResponse, hr, hs, if_false, Bool.false_eq_true]
      rfl

theorem reserve_forward (hc : rate.Closes) (hnext : ∀ n, rate.next = some n → n ≤ now)
    (interval : Nat) :
    rate.Forward now (rate.reserve now interval) ∧ (rate.reserve now interval).Closes ∧
      (rate.reserve now interval).Covers (now + interval) := by
  refine ⟨⟨fun d hd => ?_, fun t ht => .inl ?_⟩, fun t ht => ?_, ?_⟩
  · obtain ⟨n, hn, hle⟩ := hd
    have := hnext n hn
    exact ⟨_, rfl, by omega⟩
  · obtain ⟨n, hn, hle⟩ := hc t ht
    exact Nat.le_trans hle (hnext n hn)
  · cases ht
  · exact ⟨_, rfl, Nat.add_le_add_left (Nat.le_max_left _ _) _⟩

theorem waitReady_frame (rate : RequestRate) (now maxWait : Nat) :
    (rate.waitReady now maxWait).1.next = (rate.postpone now (rate.quotaDelay now)).next ∧
      (rate.waitReady now maxWait).1.openUntil = rate.openUntil ∧
      (rate.waitReady now maxWait).1.quota = rate.quota := by
  rw [waitReady]
  split <;> exact ⟨rfl, rfl, rfl⟩

theorem quotaDelay_of_le_one (now : Nat) {q : Quota} (hq : rate.quota = some q)
    (h : q.remaining ≤ 1) :
    rate.quotaDelay now = q.reset - now := by
  have hone : min (max q.remaining 1) u32Max = 1 := by
    rw [Nat.max_eq_right h]
    exact Nat.min_eq_left (by decide)
  rw [quotaDelay, hq]
  show (q.reset - now) / min (max q.remaining 1) u32Max = _
  rw [hone, Nat.div_one]

theorem observeResponse_forward (now : Nat) (cal : Calendar) (r : Response) (wall : Int)
    (jitter : UInt8) (interval : Nat) (hc : rate.Closes) :
    rate.Forward now (rate.observeResponse now cal r wall jitter interval) ∧
      (rate.observeResponse now cal r wall jitter interval).Closes ∧
      (rate.observeResponse now cal r wall jitter interval).Covers
        (now + min (serverDelay cal r.headers wall) maxDelay) ∧
      (r.isRetryable = false →
        (rate.observeResponse now cal r wall jitter interval).Covers
          (now + min interval maxDelay)) ∧
      (rate.observeResponse now cal r wall jitter interval).quota =
        (rate.observeQuota now cal r.headers wall).quota := by
  obtain ⟨start, delay, hdelay, hnext, hopen, hquota, ⟨hr, heq⟩ | ⟨hr, hinterval, heq⟩⟩ :=
    observeResponse_cases rate now cal r wall jitter interval
  · rw [heq, hr, failed_quota]
    have hforward : rate.Forward now (start.failed now delay jitter) ∧
        (start.failed now delay jitter).Closes := by
      refine forward_of_next now hc (fun d hd => (hd.congr hnext).failed now delay jitter) ?_
      rw [← hopen]
      exact failed_openUntil start now delay jitter
    refine ⟨hforward.1, hforward.2, (covers_failed start now delay jitter).of_le (by omega), ?_,
      hquota⟩
    intro hfalse
    cases hfalse
  · rw [heq]
    have hforward : rate.Forward now (start.postpone now delay) ∧
        (start.postpone now delay).Closes :=
      forward_of_next now hc (fun d hd => (hd.congr hnext).postpone now delay) (.inl hopen)
    exact ⟨hforward.1, hforward.2, covers_postpone start now hdelay,
      fun _ => covers_postpone start now hinterval, hquota⟩

end RequestRate

namespace World

variable {cal : Calendar} {maxWait : Nat} {w w' : World}

/-! ### What the steps do -/

theorem lock_cases {i : Nat} (h : w.lock maxWait i = some w') :
    ∃ c attempt, w.callers.lookup i = some c ∧ w.gate = .free ∧ c.phase = .locking attempt ∧
      (w' = { w.goOn i c (.holding attempt) with
          rate := (w.rate.waitReady w.now maxWait).1, gate := .sleeping i } ∨
        w' = { w.goOn i c (.finished .cooldown) with
          rate := (w.rate.waitReady w.now maxWait).1 }) := by
  obtain ⟨c, hc, h⟩ := Option.bind_eq_some_iff.mp h
  split at h
  · next attempt hgate hphase =>
    refine ⟨c, attempt, hc, hgate, hphase, ?_⟩
    split at h
    · next rate hready =>
      rw [hready]
      exact .inl (Option.some.inj h).symm
    · next rate hready =>
      rw [hready]
      exact .inr (Option.some.inj h).symm
  · cases h

theorem dispatch_cases {i : Nat} {clones : Bool} (h : w.dispatch i clones = some w') :
    ∃ c attempt, w.callers.lookup i = some c ∧ w.gate = .sleeping i ∧
      c.phase = .holding attempt ∧ (∀ n, w.rate.next = some n → n ≤ w.now) ∧
      (w' = { w.goOn i c (.holding attempt) with
          rate := w.rate.reserve w.now c.interval
          deadlines := (w.now + c.interval) :: w.deadlines
          gate := .flying i
          dispatched := i :: w.dispatched
          report := w.report.map (Report.dispatch w.now) } ∨
        w' = { w.goOn i c (.finished .notReplayable) with
          rate := w.rate.reserve w.now c.interval
          deadlines := (w.now + c.interval) :: w.deadlines
          gate := .free }) := by
  obtain ⟨c, hc, h⟩ := Option.bind_eq_some_iff.mp h
  split at h
  · next j attempt hgate hphase =>
    split at h
    · next hready =>
      obtain ⟨rfl, hnext⟩ := hready
      refine ⟨c, attempt, hc, hgate, hphase, fun n hn => ?_, ?_⟩
      · rw [hn] at hnext
        exact of_decide_eq_true hnext
      · dsimp only at h
        split at h
        · exact .inl (Option.some.inj h).symm
        · exact .inr (Option.some.inj h).symm
    · cases h
  · cases h

theorem respond_cases {i : Nat} {r : Response} {wall : Int} {jitter : UInt8}
    (h : w.respond cal i r wall jitter = some w') :
    ∃ c attempt phase, w.callers.lookup i = some c ∧ w.gate = .flying i ∧
      c.phase = .holding attempt ∧
      (phase = .finished (.response r.status) ∨
        attempt ≠ c.attempts ∧ phase = .locking (attempt + 1)) ∧
      w' = { w.goOn i c phase with
        gate := .free
        rate := w.rate.observeResponse w.now cal r wall jitter c.interval
        deadlines := w.responseDeadlines cal r wall c.interval ++ w.deadlines
        report := ((reportedQuota cal r.headers wall).map fun q =>
          { remaining := q.1, reset := w.now + min q.2 maxDelay }).or w.report } := by
  obtain ⟨c, hc, h⟩ := Option.bind_eq_some_iff.mp h
  split at h
  · next j attempt hgate hphase =>
    split at h
    · next hij =>
      subst hij
      refine ⟨c, attempt, _, hc, hgate, hphase, ?_, (Option.some.inj h).symm⟩
      split
      · exact .inl rfl
      · next hnot => exact .inr ⟨fun heq => hnot (.inr (.inl heq)), rfl⟩
    · cases h
  · cases h

theorem fail_cases {i : Nat} {failure : Failure} {jitter : UInt8}
    (h : w.fail i failure jitter = some w') :
    ∃ c attempt phase rate, w.callers.lookup i = some c ∧ w.gate = .flying i ∧
      c.phase = .holding attempt ∧
      (phase = .finished .http ∨ attempt ≠ c.attempts ∧ phase = .locking (attempt + 1)) ∧
      (rate = w.rate ∨ rate = w.rate.failed w.now 0 jitter ∨
        rate = { w.rate.failed w.now 0 jitter with
          openUntil := (w.rate.failed w.now 0 jitter).next }) ∧
      w' = { w.goOn i c phase with gate := .free, rate := rate } := by
  obtain ⟨c, hc, h⟩ := Option.bind_eq_some_iff.mp h
  split at h
  · next j attempt hgate hphase =>
    split at h
    · next hij =>
      subst hij
      cases failure with
      | other =>
        exact ⟨c, attempt, _, _, hc, hgate, hphase, .inl rfl, .inl rfl, (Option.some.inj h).symm⟩
      | connect =>
        exact ⟨c, attempt, _, _, hc, hgate, hphase, .inl rfl, .inr (.inr rfl),
          (Option.some.inj h).symm⟩
      | timeout =>
        refine ⟨c, attempt, _, _, hc, hgate, hphase, ?_, .inr (.inl rfl),
          (Option.some.inj h).symm⟩
        split
        · exact .inl rfl
        · next hne => exact .inr ⟨hne, rfl⟩
    · cases h
  · cases h

theorem cancel_cases {i : Nat} (h : w.cancel i = some w') :
    ∃ c, w.callers.lookup i = some c ∧ (∀ result, c.phase ≠ .finished result) ∧
      ∃ gate, (gate = .free ∨ gate = w.gate) ∧
        w' = { w.goOn i c (.finished .cancelled) with gate := gate } := by
  obtain ⟨c, hc, h⟩ := Option.bind_eq_some_iff.mp h
  have hgate : ∀ p : Prop, [Decidable p] →
      (if p then Gate.free else w.gate) = .free ∨ (if p then Gate.free else w.gate) = w.gate := by
    intro p _
    split
    · exact .inl rfl
    · exact .inr rfl
  split at h
  · next hphase =>
    refine ⟨c, hc, fun result heq => ?_, _, hgate _, (Option.some.inj h).symm⟩
    rw [hphase] at heq
    cases heq
  · next hphase =>
    refine ⟨c, hc, fun result heq => ?_, _, hgate _, (Option.some.inj h).symm⟩
    rw [hphase] at heq
    cases heq
  · cases h

/-! ### Deadlines and quotas -/

/-- A reported quota is kept to: what remains and what was sent is no more than it. -/
structure ReportOk (w : World) (rep : Report) : Prop where
  spent : rep.spent ≤ rep.remaining
  reset : rep.reset ≤ w.now + maxDelay
  quota : w.now < rep.reset → ∃ q, w.rate.quota = some q ∧ rep.reset ≤ q.reset ∧
    q.remaining + rep.spent ≤ rep.remaining

/-- The invariant: the next deadline covers all there were, and for a caller that waits
for it the reset of a quota too that has at most one request left. -/
structure Paced (w : World) : Prop where
  deadlines : ∀ d ∈ w.deadlines, w.rate.Covers d
  closes : w.rate.Closes
  report : ∀ rep, w.report = some rep → w.ReportOk rep
  gate : ∀ i rep q, w.gate = .sleeping i → w.report = some rep → w.rate.quota = some q →
    w.now < rep.reset → q.remaining ≤ 1 → w.rate.Covers rep.reset

theorem Paced.init : Paced {} where
  deadlines d hd := by cases hd
  closes t ht := by cases ht
  report rep hrep := by cases hrep
  gate i rep q hgate := by cases hgate

/-- A step that leaves the gate free, the quota and the report alone, and the deadlines in
order. -/
theorem Paced.frame (h : w.Paced) (hdeadlines : w'.deadlines = w.deadlines)
    (hnow : w.now ≤ w'.now) (hreport : w'.report = w.report)
    (hquota : w'.rate.quota = w.rate.quota) (hnext : ∀ d, w.rate.Covers d → w'.rate.Covers d)
    (hcloses : w'.rate.Closes) (hgate : ∀ i, w'.gate = .sleeping i → w.gate = .sleeping i) :
    w'.Paced := by
  refine ⟨fun d hd => ?_, hcloses, fun rep hrep => ?_, fun i rep q hsleep hrep hq hlt hone => ?_⟩
  · rw [hdeadlines] at hd
    exact hnext d (h.deadlines d hd)
  · rw [hreport] at hrep
    obtain ⟨hspent, hreset, hquota'⟩ := h.report rep hrep
    refine ⟨hspent, by omega, fun hlt => ?_⟩
    rw [hquota]
    exact hquota' (by omega)
  · rw [hreport] at hrep
    rw [hquota] at hq
    exact hnext _ (h.gate i rep q (hgate i hsleep) hrep hq (by omega) hone)

theorem Paced.lock (h : w.Paced) {i : Nat} (hs : w.lock maxWait i = some w') :
    w'.Paced ∧ w.rate.Forward w.now w'.rate := by
  obtain ⟨c, attempt, -, hfree, -, hcases⟩ := lock_cases hs
  obtain ⟨hnext, hopen, hquota⟩ := RequestRate.waitReady_frame w.rate w.now maxWait
  have hcovers : ∀ d, w.rate.Covers d → (w.rate.waitReady w.now maxWait).1.Covers d :=
    fun d hd => (hd.postpone w.now _).congr hnext
  obtain ⟨hforward, hcloses⟩ := RequestRate.forward_of_next w.now h.closes hcovers
    (.inl hopen)
  have hkept : ∀ w'' : World,
      w''.deadlines = w.deadlines → w''.now = w.now → w''.report = w.report →
      w''.rate = (w.rate.waitReady w.now maxWait).1 → w''.gate = .free → w''.Paced := by
    intro w'' hd hn hr hrate hgate
    refine h.frame hd (Nat.le_of_eq hn.symm) hr ?_ ?_ ?_ fun i hsleep => ?_
    · rw [hrate, hquota]
    · rw [hrate]
      exact hcovers
    · rw [hrate]
      exact hcloses
    · rw [hgate] at hsleep
      cases hsleep
  rcases hcases with rfl | rfl
  · have hfrozen :=
      hkept { w with rate := (w.rate.waitReady w.now maxWait).1 } rfl rfl rfl rfl hfree
    refine ⟨⟨hfrozen.deadlines, hcloses, fun rep hrep => ?_, ?_⟩, hforward⟩
    · obtain ⟨hspent, hreset, hquota'⟩ := hfrozen.report rep hrep
      exact ⟨hspent, hreset, hquota'⟩
    · intro j rep q _ hrep hq hlt hone
      obtain ⟨-, hreset, hquota'⟩ := h.report rep hrep
      obtain ⟨q', hq', hle, -⟩ := hquota' hlt
      obtain rfl : q' = q := Option.some.inj ((hquota.trans hq').symm.trans hq)
      have hdelay := RequestRate.quotaDelay_of_le_one w.now hq' hone
      have hself : (w.rate.waitReady w.now maxWait).1.Covers
          (w.now + min (w.rate.quotaDelay w.now) maxDelay) :=
        (RequestRate.covers_postpone_self w.rate w.now _).congr hnext
      rw [hdelay] at hself
      exact hself.of_le (by omega)
  · exact ⟨hkept _ rfl rfl rfl rfl hfree, hforward⟩

/-- The request of a caller that waited goes out: of a quota that is not reset, it is not
the last. -/
theorem Paced.dispatch (h : w.Paced) {i : Nat} {clones : Bool}
    (hs : w.dispatch i clones = some w') : w'.Paced ∧ w.rate.Forward w.now w'.rate := by
  obtain ⟨c, attempt, -, hgate, -, hnext, hcases⟩ := dispatch_cases hs
  obtain ⟨hforward, hcloses, hself⟩ := RequestRate.reserve_forward h.closes hnext c.interval
  have hdeadlines : ∀ d ∈ (w.now + c.interval) :: w.deadlines,
      (w.rate.reserve w.now c.interval).Covers d := by
    intro d hd
    rcases List.mem_cons.mp hd with rfl | hd
    · exact hself
    · exact hforward.next d (h.deadlines d hd)
  -- what remains of a quota that is not reset yet
  have hquota : ∀ rep, w.report = some rep → w.now < rep.reset →
      ∃ q, (w.rate.reserve w.now c.interval).quota = some q ∧ rep.reset ≤ q.reset ∧
        q.remaining + (rep.spent + 1) ≤ rep.remaining := by
    intro rep hrep hlt
    obtain ⟨q, hq, hle, hsum⟩ := (h.report rep hrep).quota hlt
    have htwo : 2 ≤ q.remaining := by
      by_contra hone
      obtain ⟨n, hn, hcover⟩ := h.gate i rep q hgate hrep hq hlt (by omega)
      have := hnext n hn
      omega
    refine ⟨{ q with remaining := q.remaining - 1 }, ?_, hle, ?_⟩
    · show (w.rate.quota.bind fun quota => if quota.reset ≤ w.now then none
        else some { quota with remaining := quota.remaining - 1 }) = _
      rw [hq, Option.bind_some, if_neg (by omega)]
    · show q.remaining - 1 + (rep.spent + 1) ≤ rep.remaining
      omega
  rcases hcases with rfl | rfl
  · refine ⟨⟨hdeadlines, hcloses, fun rep' hrep' => ?_, fun j _ _ hsleep => by cases hsleep⟩,
      hforward⟩
    obtain ⟨rep, hrep, rfl⟩ := Option.map_eq_some_iff.mp hrep'
    obtain ⟨hspent, hreset, -⟩ := h.report rep hrep
    rw [Report.dispatch]
    split
    · next hlt =>
      obtain ⟨q, hq, hle, hsum⟩ := hquota rep hrep hlt
      exact ⟨Nat.le_trans (Nat.le_add_left _ _) hsum, hreset, fun _ => ⟨q, hq, hle, hsum⟩⟩
    · next hge => exact ⟨hspent, hreset, fun hlt => absurd hlt hge⟩
  · refine ⟨⟨hdeadlines, hcloses, fun rep hrep => ?_, fun j _ _ hsleep => by cases hsleep⟩,
      hforward⟩
    obtain ⟨hspent, hreset, -⟩ := h.report rep hrep
    refine ⟨hspent, hreset, fun hlt => ?_⟩
    obtain ⟨q, hq, hle, hsum⟩ := hquota rep hrep hlt
    exact ⟨q, hq, hle, by omega⟩

theorem Paced.respond (h : w.Paced) (hinterval : ∀ i c, w.callers.lookup i = some c →
    c.interval ≤ maxDelay) {i : Nat} {r : Response} {wall : Int} {jitter : UInt8}
    (hs : w.respond cal i r wall jitter = some w') :
    w'.Paced ∧ w.rate.Forward w.now w'.rate := by
  obtain ⟨c, attempt, phase, hc, -, -, -, rfl⟩ := respond_cases hs
  obtain ⟨hforward, hcloses, hserver, hpaced, hquota⟩ :=
    RequestRate.observeResponse_forward w.now cal r wall jitter c.interval h.closes
  refine ⟨⟨fun d hd => ?_, hcloses, fun rep hrep => ?_, fun j _ _ hsleep => by cases hsleep⟩,
    hforward⟩
  · rcases List.mem_append.mp hd with hd | hd
    · rw [responseDeadlines] at hd
      rcases List.mem_cons.mp hd with rfl | hd
      · exact hserver
      · split at hd
        · cases hd
        · next hretry =>
          obtain rfl := List.mem_singleton.mp hd
          have hcover := hpaced (Bool.eq_false_iff.mpr hretry)
          rw [Nat.min_eq_left (hinterval i c hc)] at hcover
          exact hcover
    · exact hforward.next d (h.deadlines d hd)
  · have hobserved : (w.rate.observeQuota w.now cal r.headers wall).quota =
        ((reportedQuota cal r.headers wall).map fun q =>
          { remaining := q.1, reset := w.now + min q.2 maxDelay + second }).or w.rate.quota := by
      rw [RequestRate.observeQuota]
      split
      · next hreported =>
        rw [hreported]
        rfl
      · next hreported =>
        rw [hreported]
        rfl
    dsimp only at hrep
    cases hreported : reportedQuota cal r.headers wall with
    | none =>
      rw [hreported] at hrep hobserved
      obtain ⟨hspent, hreset, hkept⟩ := h.report rep hrep
      refine ⟨hspent, hreset, fun hlt => ?_⟩
      obtain ⟨q, hq, hle, hsum⟩ := hkept hlt
      exact ⟨q, (hquota.trans hobserved).trans hq, hle, hsum⟩
    | some q =>
      rw [hreported] at hrep hobserved
      obtain rfl := Option.some.inj hrep
      refine ⟨Nat.zero_le _, ?_, fun _ => ⟨_, hquota.trans hobserved, ?_, Nat.le_refl _⟩⟩
      · show w.now + min q.2 maxDelay ≤ w.now + maxDelay
        omega
      · show w.now + min q.2 maxDelay ≤ w.now + min q.2 maxDelay + second
        omega

theorem Paced.fail (h : w.Paced) {i : Nat} {failure : Failure} {jitter : UInt8}
    (hs : w.fail i failure jitter = some w') : w'.Paced ∧ w.rate.Forward w.now w'.rate := by
  obtain ⟨c, attempt, phase, rate, -, -, -, -, hrate, rfl⟩ := fail_cases hs
  have hfailed : ∀ d, w.rate.Covers d → (w.rate.failed w.now 0 jitter).Covers d :=
    fun d hd => hd.failed w.now 0 jitter
  have hforward : w.rate.Forward w.now rate ∧ rate.Closes ∧ rate.quota = w.rate.quota := by
    rcases hrate with rfl | rfl | rfl
    · exact ⟨.refl _ _, h.closes, rfl⟩
    · obtain ⟨hforward, hcloses⟩ := RequestRate.forward_of_next w.now h.closes hfailed
        (RequestRate.failed_openUntil _ _ _ _)
      exact ⟨hforward, hcloses, RequestRate.failed_quota _ _ _ _⟩
    · have hnext : ∀ d, w.rate.Covers d →
          RequestRate.Covers { w.rate.failed w.now 0 jitter with
            openUntil := (w.rate.failed w.now 0 jitter).next } d := fun d hd =>
        (hfailed d hd).congr rfl
      obtain ⟨hforward, hcloses⟩ :=
        RequestRate.forward_of_next w.now h.closes hnext (.inr rfl)
      exact ⟨hforward, hcloses, RequestRate.failed_quota _ _ _ _⟩
  obtain ⟨hforward, hcloses, hquota⟩ := hforward
  refine ⟨h.frame rfl (Nat.le_refl _) rfl hquota hforward.next hcloses ?_, hforward⟩
  intro j hsleep
  cases hsleep

/-- **Every step keeps the limiter paced, and moves its deadlines forward only.** -/
theorem Paced.step {e : Event} (h : w.Paced)
    (hinterval : ∀ i c, w.callers.lookup i = some c → c.interval ≤ maxDelay)
    (hs : w.step cal maxWait e = some w') : w'.Paced ∧ w.rate.Forward w.now w'.rate := by
  cases e with
  | elapse d =>
    cases hs
    exact ⟨h.frame rfl (Nat.le_add_right _ _) rfl rfl (fun _ h => h) h.closes fun _ h => h,
      .refl _ _⟩
  | call i isGet interval =>
    rw [World.step, call] at hs
    split at hs
    · cases hs
    · cases hs
      exact ⟨h.frame rfl (Nat.le_refl _) rfl rfl (fun _ h => h) h.closes fun _ h => h, .refl _ _⟩
  | lock i => exact h.lock hs
  | dispatch i clones => exact h.dispatch hs
  | respond i r wall jitter => exact h.respond hinterval hs
  | fail i failure jitter => exact h.fail hs
  | cancel i =>
    obtain ⟨c, -, -, gate, hgate, rfl⟩ := cancel_cases hs
    refine ⟨h.frame rfl (Nat.le_refl _) rfl rfl (fun _ h => h) h.closes fun j hsleep => ?_,
      .refl _ _⟩
    rcases hgate with rfl | rfl
    · cases hsleep
    · exact hsleep

end World

end Ferrofin.Provider
