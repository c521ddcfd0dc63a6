import WordIndex.PoolSession
import WordIndex.Proofs.SettledPool
import WordIndex.Proofs.WorkerRounds

/-! # A session settles its pool after each use

A session lets every worker take all the steps that it can. After one such round the pool has settled,
so each use that fits a pool can be made. -/
namespace WordIndex
open WorkerPool

namespace PoolSession

variable {s : PoolSession}

@[simp] theorem bounds_take (s : PoolSession) (events : List PoolEvent) :
    (s.take events).bounds = s.bounds := rfl

@[simp] theorem submitted_take (s : PoolSession) (events : List PoolEvent) :
    (s.take events).submitted = s.submitted := rfl

@[simp] theorem bounds_settle (s : PoolSession) : s.settle.bounds = s.bounds := rfl

@[simp] theorem submitted_settle (s : PoolSession) : s.settle.submitted = s.submitted := rfl

@[simp] theorem bounds_submit (s : PoolSession) : s.submit.2.bounds = s.bounds := by
  rw [submit, bounds_settle, bounds_take]

@[simp] theorem submitted_submit (s : PoolSession) : s.submit.2.submitted = s.submitted + 1 := by
  rw [submit, submitted_settle, submitted_take]

theorem isCalm_of_settled {p : WorkerPool} (h : Settled p) :
    ∀ phase ∈ p.workers, phase.isCalm := by
  intro phase hphase
  rcases h.workers phase hphase with ⟨job, rfl⟩ | ⟨rfl, -⟩ <;> rfl

/-- A session lets its pool go on until it has settled. -/
theorem exists_run_settle (hcallers : s.pool.callers = [])
    (hcalm : ∀ phase ∈ s.pool.workers, phase.isCalm) : ∃ events, (∀ e ∈ events, e.isMove) ∧
      run s.bounds s.pool events = some s.settle.pool ∧ Settled s.settle.pool := by
  obtain ⟨events, hmoves, hrun⟩ := exists_run_of_forall isMove_of_mem_rounds s.pool
  have hafter : SettledAfter s.pool.workers s.pool :=
    ⟨hcallers, [], (List.append_nil _).symm, fun _ h => by cases h⟩
  exact ⟨events, hmoves, hrun, settled_rounds hafter hcalm⟩

theorem Made.moves {b : PoolBounds} {p q : WorkerPool} {during events : List PoolEvent}
    (h : Made b during p) (hrun : run b p events = some q) (hmoves : ∀ e ∈ events, e.isMove) :
    Made b (during ++ events) q := by
  induction events generalizing during p with
  | nil =>
    obtain rfl := Option.some.inj hrun
    rwa [List.append_nil]
  | cons e rest ih =>
    obtain ⟨hmove, hrest⟩ := List.forall_mem_cons.1 hmoves
    obtain ⟨r, hr, hrun⟩ := Option.bind_eq_some_iff.1 hrun
    have hstep : p.workerStep b e = some r := by
      cases e with
      | enter | take | seeClosed | wake | leave => exact hr
      | timeOut | finish | retire | submit | check | reserve | start | failStart | giveBack | send
      | refuse | close => cases hmove
    rw [List.append_cons]
    exact ih (.work h hstep) hrun hrest

theorem used_start (b : PoolBounds) : Used b [] (start b).pool := by
  obtain ⟨events, hmoves, hrun, hsettled⟩ := exists_run_settle (s := ⟨b, .initial b, 0⟩) rfl
    fun phase hphase => by rw [List.eq_of_mem_replicate hphase]; rfl
  exact .made (Made.moves (made_initial b) hrun hmoves) hsettled

/-! ## Handing in a job -/

/-- The steps of a caller that was alone. -/
def callOf : List PoolEvent := [.check 0, .reserve 0, .start 0, .send 0, .refuse 0]

/-- A caller comes to send its job, and a worker is started for it or none. -/
theorem attempt_reserve {b : PoolBounds} {p : WorkerPool} {job : Nat}
    (hcallers : p.callers = [⟨job, .checking⟩]) :
    ∃ q, attempt b p [.check 0, .reserve 0, .start 0] = q ∧ q.callers = [⟨job, .sending⟩] ∧
      q.queue = p.queue ∧ q.accepting = p.accepting ∧
      (q.workers = p.workers ∨ q.workers = p.workers ++ [.entering]) := by
  by_cases hidle : p.idle = 0
  · by_cases hmore : p.threads < b.most
    · simp [attempt, step, callerStep, callerPhase?, setCaller, hcallers, hidle, hmore]
    · simp [attempt, step, callerStep, callerPhase?, setCaller, hcallers, hidle, hmore]
  · simp [attempt, step, callerStep, callerPhase?, setCaller, hcallers, hidle]

/-- A caller gets its job into a queue that has room, or is refused. -/
theorem attempt_send {b : PoolBounds} {p : WorkerPool} {job : Nat}
    (hcallers : p.callers = [⟨job, .sending⟩])
    (hroom : p.accepting = true → p.queue.length < b.queueSize) :
    (attempt b p [.send 0, .refuse 0]).callers = [] ∧
      (attempt b p [.send 0, .refuse 0]).workers = p.workers := by
  cases htakes : p.accepting with
  | true => simp [attempt, step, callerStep, callerPhase?, endCaller, hcallers, htakes, hroom htakes]
  | false => simp [attempt, step, callerStep, callerPhase?, endCaller, hcallers, htakes]

theorem attempt_callOf {b : PoolBounds} {p : WorkerPool} {job : Nat}
    (hcallers : p.callers = [⟨job, .checking⟩])
    (hroom : p.accepting = true → p.queue.length < b.queueSize) :
    (attempt b p callOf).callers = [] ∧ ((attempt b p callOf).workers = p.workers ∨
      (attempt b p callOf).workers = p.workers ++ [.entering]) := by
  obtain ⟨q, hq, hsending, hqueue, hsame, hworkers⟩ := attempt_reserve (b := b) hcallers
  have hcall : attempt b p callOf = attempt b q [.send 0, .refuse 0] := by
    rw [← hq, ← attempt_append]
    rfl
  obtain ⟨hnone, hkept⟩ := attempt_send (b := b) hsending (by rwa [hqueue, hsame])
  rw [hcall, hkept]
  exact ⟨hnone, hworkers⟩

/-- A job that is handed in to a settled pool with room for it makes a use. -/
theorem exists_submits (hsettled : Settled s.pool)
    (hroom : s.pool.accepting = true → s.pool.queue.length < s.bounds.queueSize) :
    ∃ events, Submits s.bounds s.submitted events s.pool s.submit.2.pool := by
  have hisCall : ∀ e ∈ callOf, e.isCall := by decide
  let called : WorkerPool :=
    { s.pool with callers := s.pool.callers ++ [⟨s.submitted, .checking⟩] }
  have hcallers : called.callers = [⟨s.submitted, .checking⟩] := by
    simp only [called, hsettled.callers, List.nil_append]
  obtain ⟨calls, hcalls, hcall⟩ := exists_run_of_forall (b := s.bounds) hisCall called
  obtain ⟨hnone, hworkers⟩ := attempt_callOf (b := s.bounds) hcallers hroom
  have hcalm : ∀ phase ∈ (attempt s.bounds called callOf).workers, phase.isCalm := by
    intro phase hphase
    rcases hworkers with hworkers | hworkers
    · exact isCalm_of_settled hsettled phase (hworkers ▸ hphase)
    · rw [hworkers, List.mem_append, List.mem_singleton] at hphase
      rcases hphase with hphase | rfl
      · exact isCalm_of_settled hsettled phase hphase
      · rfl
  have hsubmit : s.submit.2 =
      settle ⟨s.bounds, attempt s.bounds called callOf, s.submitted + 1⟩ := by
    simp only [submit, hsettled.callers, List.length_nil]
    rfl
  obtain ⟨moves, hmoves, hmove, hsettles⟩ :=
    exists_run_settle (s := ⟨s.bounds, attempt s.bounds called callOf, s.submitted + 1⟩) hnone hcalm
  refine ⟨calls ++ moves, ?_, fun e he => ?_, ?_⟩
  · rw [hsubmit]
    exact Option.bind_eq_some_iff.2 ⟨called, rfl, run_trans hcall hmove⟩
  · rcases List.mem_append.1 he with he | he
    · rw [hcalls e he, Bool.or_true]
    · rw [hmoves e he, Bool.true_or]
  · rw [hsubmit]
    exact hsettles

/-! ## Letting jobs end -/

variable {uses : List PoolUse}

/-- The end of the running job with the lowest number, if one runs, makes a use. -/
theorem used_finish (h : Used s.bounds uses s.pool) :
    Used s.bounds (uses ++ [.finish]) s.finish.pool ∧
      ∃ events, (∀ e ∈ events, e.isMove || e.isFinish) ∧
        run s.bounds s.pool events = some s.finish.pool := by
  have hsettled := h.settled
  cases hlowest : s.pool.running.min? with
  | none =>
    have hfinish : s.finish = s := by
      rw [finish, hlowest]
    rw [hfinish]
    exact ⟨.finishNone h (List.min?_eq_none_iff.1 hlowest), [], List.forall_mem_nil _, rfl⟩
  | some job =>
    have hmem : WorkerPhase.running job ∈ s.pool.workers := by
      obtain ⟨phase, hphase, hruns⟩ := List.mem_filterMap.1 (List.min?_mem hlowest)
      cases phase with
      | running other =>
        obtain rfl : other = job := Option.some.inj hruns
        exact hphase
      | entering | waiting | woken | retiring | leaving => cases hruns
    let i := s.pool.workers.idxOf (.running job)
    have hruns : s.pool.workers[i]? = some (.running job) := by
      rw [List.getElem?_eq_getElem (List.idxOf_lt_length_of_mem hmem), List.getElem_idxOf]
    let ended : WorkerPool := { s.pool.setWorker i .entering with ended := s.pool.ended ++ [job] }
    have hend : s.pool.step s.bounds (.finish i) = some ended := by
      simp only [step, workerStep, hruns]
      rfl
    have hfinish : s.finish = settle { s with pool := ended } := by
      rw [finish, hlowest]
      change settle { s with pool := (s.pool.step s.bounds (.finish i)).getD s.pool } = _
      rw [hend]
      rfl
    have hcalm : ∀ phase ∈ ended.workers, phase.isCalm := by
      intro phase hphase
      rcases List.mem_or_eq_of_mem_set hphase with hphase | rfl
      · exact isCalm_of_settled hsettled phase hphase
      · rfl
    obtain ⟨moves, hmoves, hmove, hsettles⟩ :=
      exists_run_settle (s := { s with pool := ended }) hsettled.callers hcalm
    have hrun : run s.bounds s.pool (.finish i :: moves) = some s.finish.pool := by
      rw [hfinish]
      exact Option.bind_eq_some_iff.2 ⟨ended, hend, hmove⟩
    rw [hfinish] at hrun ⊢
    refine ⟨.finish h hlowest hruns hrun hmoves hsettles, _, fun e he => ?_, hrun⟩
    rcases List.mem_cons.1 he with rfl | he
    · rfl
    · rw [hmoves e he, Bool.true_or]

/-- A session whose pool was put to some uses. -/
structure After (b : PoolBounds) (uses : List PoolUse) (s : PoolSession) : Prop where
  bounds_eq : s.bounds = b
  submitted_eq : s.submitted = (PoolTally.ofUses uses).submitted
  used : Used b uses s.pool

theorem after_start (b : PoolBounds) : After b [] (start b) := ⟨rfl, rfl, used_start b⟩

variable {b : PoolBounds}

theorem After.finish (h : After b uses s) : After b (uses ++ [.finish]) s.finish ∧
    ∃ events, (∀ e ∈ events, e.isMove || e.isFinish) ∧ run b s.pool events = some s.finish.pool := by
  obtain ⟨rfl, hsubmitted, hused⟩ := h
  obtain ⟨hused, hruns⟩ := used_finish hused
  refine ⟨⟨?_, ?_, hused⟩, hruns⟩
  · rw [PoolSession.finish]
    split <;> rfl
  · rw [PoolTally.ofUses_concat, PoolSession.finish]
    split <;> exact hsubmitted

theorem After.finishMany (h : After b uses s) (count : Nat) :
    After b (uses ++ List.replicate count .finish) (finishMany count s) ∧
      ∃ events, (∀ e ∈ events, e.isMove || e.isFinish) ∧
        run b s.pool events = some (PoolSession.finishMany count s).pool := by
  induction count generalizing s uses with
  | zero =>
    rw [List.replicate_zero, List.append_nil]
    exact ⟨h, [], List.forall_mem_nil _, rfl⟩
  | succ count ih =>
    obtain ⟨hfirst, first, hmoves, hrun⟩ := h.finish
    obtain ⟨hall, rest, hrest, hruns⟩ := ih hfirst
    rw [List.replicate_succ, List.append_cons]
    exact ⟨hall, first ++ rest, List.forall_mem_append.2 ⟨hmoves, hrest⟩, run_trans hrun hruns⟩

theorem ofUses_append_finishes (uses : List PoolUse) (count : Nat) :
    PoolTally.ofUses (uses ++ List.replicate count .finish) =
      { PoolTally.ofUses uses with unfinished := (PoolTally.ofUses uses).unfinished - count } := by
  induction count with
  | zero => rw [List.replicate_zero, List.append_nil, Nat.sub_zero]
  | succ count ih =>
    rw [List.replicate_succ', ← List.append_assoc, PoolTally.ofUses_concat, ih, PoolTally.after,
      Nat.sub_sub]

structure Done (p : WorkerPool) : Prop where
  queue_eq : p.queue = []
  running_eq : p.running = []

theorem After.finishAll (h : After b uses s) :
    s.finishAll.bounds = b ∧ s.finishAll.submitted = s.submitted ∧ Settled s.finishAll.pool ∧
      Done s.finishAll.pool ∧
      ∃ events, (∀ e ∈ events, e.isMove || e.isFinish) ∧
        run b s.pool events = some s.finishAll.pool := by
  obtain ⟨hall, hruns⟩ := h.finishMany (s.pool.running.length + s.pool.queue.length)
  have htally := ofUses_append_finishes uses (s.pool.running.length + s.pool.queue.length)
  refine ⟨hall.bounds_eq, ?_, hall.used.settled, ?_, hruns⟩
  · rw [h.submitted_eq]
    exact hall.submitted_eq.trans (by rw [htally])
  · rcases hall.used.opened_or_closed with hopen | hclosed
    · have hnotClosed := hopen.notClosed
      rw [htally] at hnotClosed
      have hbefore := (h.used.open_or_shut.1 hnotClosed).length_queue_add
      have hafter := hopen.length_queue_add
      simp only [htally] at hafter
      rw [← hbefore, Nat.add_comm s.pool.queue.length, Nat.sub_self] at hafter
      obtain ⟨hqueue, hrunning⟩ := Nat.add_eq_zero_iff.1 hafter
      exact ⟨List.length_eq_zero_iff.1 hqueue, List.length_eq_zero_iff.1 hrunning⟩
    · exact ⟨hclosed.queue_eq, hclosed.running_eq⟩

/-- No job runs after steps by which none starts or ends. -/
theorem Done.running_of_run {p q : WorkerPool} {events : List PoolEvent} (h : Done p)
    (hp : Steady b p) (hsettled : Settled p) (hrun : run b p events = some q)
    (hmoves : ∀ e ∈ events, e.isMove || e == .close) (hq : Settled q) : q.running = [] := by
  have hsteady := hp.of_run hrun fun k hk => by cases hmoves _ hk
  have haccepted := accepted_eq_of_run hrun fun k hk => by cases hmoves _ hk
  have hended := ended_eq_of_run hrun fun i hi => by cases hmoves _ hi
  have hbefore := hsettled.length_accepted hp.toBalanced
  have hafter := hq.length_accepted hsteady.toBalanced
  rw [h.queue_eq, h.running_eq, List.length_nil] at hbefore
  rw [haccepted, hended] at hafter
  exact List.length_eq_zero_iff.1 (by omega)

/-- Once every worker that waited has done so too long, none is to spare. -/
theorem exists_run_timeOutIdle (hsteady : Steady s.bounds s.pool) (hsettled : Settled s.pool) :
    ∃ events, (∀ e ∈ events, e.isMove || e.isTimeOut) ∧
      run s.bounds s.pool events = some s.timeOutIdle.pool ∧ Settled s.timeOutIdle.pool ∧
      (s.timeOutIdle.pool.threads ≤ s.bounds.least ∨ s.timeOutIdle.pool.idle = 0) := by
  have hphases : ∀ phase ∈ s.pool.workers, (∃ job, phase = .running job) ∨ phase = .waiting :=
    fun phase hphase => (hsettled.workers phase hphase).imp_right (·.1)
  have hbegin : NeededAfter s.bounds s.pool.workers s.pool :=
    ⟨hsettled.callers, [], (List.append_nil _).symm, fun _ h => by cases h⟩
  let waited : PoolSession := s.take (s.positions.flatMap overdue)
  have hneeded : NeededAfter s.bounds [] waited.pool :=
    passed_positions (fun _ _ _ hphase h => h.overdue hphase) hphases hbegin
  have hkind : ∀ e ∈ s.positions.flatMap overdue, e.isMove || e.isTimeOut :=
    isTimeOut_of_mem_overdue
  obtain ⟨waits, hwaits, hwait⟩ := exists_run_of_forall (b := s.bounds) hkind s.pool
  obtain ⟨moves, hmoves, hmove, hsettles⟩ :=
    exists_run_settle (s := waited) hneeded.callers hneeded.isCalm
  have hkinds : ∀ e ∈ waits ++ moves, e.isMove || e.isTimeOut := by
    refine List.forall_mem_append.2 ⟨hwaits, fun e he => ?_⟩
    rw [hmoves e he, Bool.true_or]
  have hrun : run s.bounds s.pool (waits ++ moves) = some s.timeOutIdle.pool := run_trans hwait hmove
  have hsteady' := hsteady.of_run hrun fun k hk => by cases hkinds _ hk
  exact ⟨waits ++ moves, hkinds, hrun, hsettles,
    hneeded.none_spare hmove hmoves hsteady'.toBalanced⟩

theorem After.timeOutIdle (h : After b uses s) : After b (uses ++ [.shrink]) s.timeOutIdle := by
  obtain ⟨rfl, hsubmitted, hused⟩ := h
  obtain ⟨events, hevents, hrun, hsettles, hnoneSpare⟩ :=
    exists_run_timeOutIdle hused.steady hused.settled
  refine ⟨rfl, ?_, hused.shrink hrun hevents hsettles hnoneSpare⟩
  rw [PoolTally.ofUses_concat]
  exact hsubmitted

/-- A pool that is made smaller once every job has ended was put to several uses. -/
theorem After.shrink (h : After b uses s) :
    After b (uses ++ List.replicate (s.pool.running.length + s.pool.queue.length) .finish ++
      [.shrink]) s.shrink :=
  (h.finishMany _).1.timeOutIdle

theorem exists_run_close (hsettled : Settled s.pool) : ∃ events,
    (∀ e ∈ events, e.isMove || e == .close) ∧
      run s.bounds s.pool events = some (s.take [.close]).settle.pool ∧
      Settled (s.take [.close]).settle.pool ∧ (s.take [.close]).settle.pool.accepting = false := by
  have hclose : s.pool.step s.bounds .close = some { s.pool with accepting := false } :=
    if_pos hsettled.callers
  have htake : s.take [.close] = { s with pool := { s.pool with accepting := false } } := by
    change { s with pool := (s.pool.step s.bounds .close).getD s.pool } = _
    rw [hclose]
    rfl
  rw [htake]
  obtain ⟨moves, hmoves, hmove, hsettles⟩ :=
    exists_run_settle (s := { s with pool := { s.pool with accepting := false } }) hsettled.callers
      fun phase hphase => isCalm_of_settled hsettled phase hphase
  have htakesNone := accepting_eq_of_run hmove fun hk => by cases hmoves _ hk
  refine ⟨.close :: moves, List.forall_mem_cons.2 ⟨rfl, fun e he => ?_⟩,
    Option.bind_eq_some_iff.2 ⟨_, hclose, hmove⟩, hsettles, htakesNone⟩
  rw [hmoves e he, Bool.true_or]

theorem shutDown_eq : s.shutDown = (s.finishAll.take [.close]).settle := rfl

theorem After.shutDown (h : After b uses s) : After b (uses ++ [.shutDown]) s.shutDown := by
  obtain ⟨rfl, hsubmitted, hsettled, hdone, events, hevents, hrun⟩ := h.finishAll
  have hsteady := h.used.steady.of_run hrun fun k hk => by cases hevents _ hk
  obtain ⟨closes, hcloses, hclose, hsettles, htakesNone⟩ := exists_run_close hsettled
  have hrunning := hdone.running_of_run hsteady hsettled hclose hcloses hsettles
  rw [shutDown_eq]
  refine ⟨by simp only [bounds_settle, bounds_take], ?_, h.used.shutDown (run_trans hrun hclose) ?_
    hsettles htakesNone (hsettles.workers_eq_nil htakesNone hrunning)⟩
  · rw [PoolTally.ofUses_concat, submitted_settle, submitted_take, hsubmitted, h.submitted_eq]
    rfl
  · refine List.forall_mem_append.2 ⟨fun e he => ?_, fun e he => ?_⟩
    · rw [hevents e he, Bool.true_or]
    · rw [Bool.or_right_comm, hcloses e he, Bool.true_or]

/-! ## Any uses that fit -/

def perform (s : PoolSession) : PoolUse → PoolSession
  | .submit => s.submit.2
  | .finish => s.finish
  | .shrink => s.timeOutIdle
  | .shutDown => s.shutDown

def afterUses (b : PoolBounds) (uses : List PoolUse) : PoolSession := uses.foldl perform (start b)

/-- Whether the queue has room for every job that is handed in. -/
def fits (b : PoolBounds) (t : PoolTally) : List PoolUse → Bool
  | [] => true
  | use :: rest =>
    (use != .submit || t.closed || decide (t.unfinished < b.most + b.queueSize)) &&
      fits b (t.after use) rest

/-- All workers that there may be are busy when a job waits. -/
theorem length_queue_lt {t : PoolTally} {p : WorkerPool} (h : Opened b t p)
    (hfits : t.unfinished < b.most + b.queueSize) : p.queue.length < b.queueSize := by
  have hqueue := h.length_queue_add
  have hrunning := h.length_running
  have hle := h.unfinished_le
  have hpos := b.queueSize_pos
  rw [PoolTally.threads] at hrunning
  omega

theorem After.submit (h : After b uses s)
    (hfits : (PoolTally.ofUses uses).closed ∨
      (PoolTally.ofUses uses).unfinished < b.most + b.queueSize) :
    After b (uses ++ [.submit]) s.submit.2 := by
  obtain ⟨rfl, hsubmitted, hused⟩ := h
  have hroom : s.pool.accepting = true → s.pool.queue.length < s.bounds.queueSize := by
    intro htakes
    rcases hused.opened_or_closed with hopen | hclosed
    · refine length_queue_lt hopen (hfits.resolve_left fun hclosed => ?_)
      cases hopen.notClosed.symm.trans hclosed
    · cases hclosed.takesNone.symm.trans htakes
  obtain ⟨events, hsubmits⟩ := exists_submits hused.settled hroom
  rw [hsubmitted] at hsubmits
  refine ⟨bounds_submit s, ?_, hused.submit hsubmits⟩
  rw [submitted_submit, PoolTally.ofUses_concat, PoolTally.after, hsubmitted]
  split <;> rfl

theorem After.perform {use : PoolUse} (h : After b uses s)
    (hfits : use != .submit || (PoolTally.ofUses uses).closed ||
      decide ((PoolTally.ofUses uses).unfinished < b.most + b.queueSize)) :
    After b (uses ++ [use]) (s.perform use) := by
  cases use with
  | submit => exact h.submit (by simpa using hfits)
  | finish => exact h.finish.1
  | shrink => exact h.timeOutIdle
  | shutDown => exact h.shutDown

theorem After.foldl {rest : List PoolUse} (h : After b uses s)
    (hfits : fits b (PoolTally.ofUses uses) rest) :
    After b (uses ++ rest) (rest.foldl PoolSession.perform s) := by
  induction rest generalizing uses s with
  | nil => rwa [List.append_nil]
  | cons use rest ih =>
    rw [fits, Bool.and_eq_true, ← PoolTally.ofUses_concat] at hfits
    rw [List.append_cons, List.foldl_cons]
    exact ih (h.perform hfits.1) hfits.2

/-- A pool whose queue is never overfilled can be put to all its uses, and in whatever order the
workers take their steps, the tally of the uses says what there is in it each time it has settled. -/
theorem used_and_open_or_shut (b : PoolBounds) (uses : List PoolUse) (hfits : fits b {} uses) :
    Used b uses (afterUses b uses).pool ∧ ∀ p, Used b uses p →
      ((PoolTally.ofUses uses).closed = false → Open b (.ofUses uses) p) ∧
        ((PoolTally.ofUses uses).closed = true → Shut b (.ofUses uses) p) :=
  ⟨((after_start b).foldl hfits).used, fun _ h => h.open_or_shut⟩

/-- Three jobs for one worker or two, so that one of them waits until another one ends. Once the
second worker has nothing to do, it ends while the first one runs a job. -/
def threeJobs : List PoolUse := [.submit, .submit, .submit, .finish, .finish, .shrink]

/-- The pool grows once more and is closed before the last job comes. -/
def oneTooLate : List PoolUse := threeJobs ++ [.submit, .shutDown, .submit]

theorem used_and_open_or_shut_oneTooLate :
    Open oneOrTwo { submitted := 3, accepted := 3, unfinished := 1, peak := 1 }
      (afterUses oneOrTwo threeJobs).pool ∧
    Shut oneOrTwo { submitted := 5, accepted := 4, peak := 2, closed := true }
      (afterUses oneOrTwo oneTooLate).pool := by
  have hopen := used_and_open_or_shut oneOrTwo threeJobs rfl
  have hshut := used_and_open_or_shut oneOrTwo oneTooLate rfl
  exact ⟨(hopen.2 _ hopen.1).1 rfl, (hshut.2 _ hshut.1).2 rfl⟩

example : (afterUses oneOrTwo threeJobs).pool =
    { threads := 1, idle := 0, workers := [.running 2], accepted := [0, 1, 2],
      taken := [0, 1, 2], ended := [0, 1] } := by decide +kernel

end PoolSession

end WordIndex
