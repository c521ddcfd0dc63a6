import WordIndex.Failure
import WordIndex.Proofs.PoolSafety

/-! # A pool that is used one step at a time

Between two uses a pool settles: its workers take their steps, in any order, until each of them runs
a job or waits in vain. How many workers there are then depends only on what was done before. -/
namespace WordIndex

/-- What is done with a pool that has settled. A job that panics ends like any other one. -/
inductive PoolUse
  | submit
  /-- To let the running job with the lowest number end. -/
  | finish
  /-- To let idle workers wait too long, until none of them is to spare. -/
  | shrink
  /-- To let every job end and to close the pool. -/
  | shutDown
  deriving DecidableEq

/-- What the uses of a pool come to. -/
structure PoolTally where
  submitted : Nat := 0
  /-- The jobs that were handed in while the pool took some. -/
  accepted : Nat := 0
  /-- The accepted jobs that have not ended. -/
  unfinished : Nat := 0
  /-- The most unfinished jobs at one time since the pool was made or made smaller. -/
  peak : Nat := 0
  closed : Bool := false
  deriving DecidableEq

namespace PoolTally

def after (t : PoolTally) : PoolUse → PoolTally
  | .submit =>
    if t.closed then { t with submitted := t.submitted + 1 }
    else { t with submitted := t.submitted + 1, accepted := t.accepted + 1,
                  unfinished := t.unfinished + 1, peak := max t.peak (t.unfinished + 1) }
  | .finish => { t with unfinished := t.unfinished - 1 }
  | .shrink => { t with peak := t.unfinished }
  | .shutDown => { t with unfinished := 0, closed := true }

def ofUses (uses : List PoolUse) : PoolTally := uses.foldl after {}

theorem ofUses_concat (uses : List PoolUse) (use : PoolUse) :
    ofUses (uses ++ [use]) = (ofUses uses).after use := by
  rw [ofUses, List.foldl_append]
  rfl

/-- The number of workers: as many as there were unfinished jobs at one time, within the bounds. -/
def threads (b : PoolBounds) (t : PoolTally) : Nat := max b.least (min b.most t.peak)

end PoolTally

namespace PoolEvent

/-- Whether a worker goes on by itself. -/
def isMove : PoolEvent → Bool
  | enter _ | take _ | seeClosed _ | wake _ | leave _ => true
  | _ => false

/-- Whether a caller whose job was handed in goes on, and its worker starts if it needs one. -/
def isCall : PoolEvent → Bool
  | check _ | reserve _ | start _ | send _ | refuse _ => true
  | _ => false

def isFinish : PoolEvent → Bool
  | finish _ => true
  | _ => false

/-- Whether a worker waits too long or ends because of it. -/
def isTimeOut : PoolEvent → Bool
  | timeOut _ | retire _ => true
  | _ => false

def isRefusal : PoolEvent → Bool
  | refuse _ => true
  | _ => false

end PoolEvent

/-- What the caller is told whose job is handed in by some steps. -/
def refusal (events : List PoolEvent) : Option PoolFault :=
  if events.any PoolEvent.isRefusal then some .shutDown else none

namespace WorkerPool

/-- Every job that can run is running, and the other workers wait for one. -/
structure Settled (p : WorkerPool) : Prop where
  callers : p.callers = []
  workers : ∀ phase ∈ p.workers, (∃ job, phase = .running job) ∨
    phase = .waiting ∧ p.queue = [] ∧ p.accepting = true

/-- A job with a number is handed in to a pool, which settles again. -/
structure Submits (b : PoolBounds) (job : Nat) (events : List PoolEvent) (p q : WorkerPool) :
    Prop where
  run : run b p (.submit job :: events) = some q
  moves : ∀ e ∈ events, e.isMove || e.isCall
  settled : Settled q

/-- A pool that was put to some uses, one after the other, each once the pool had settled. Jobs are
numbered as they are handed in. -/
inductive Used (b : PoolBounds) : List PoolUse → WorkerPool → Prop
  | made {during p} (made : Made b during p) (settled : Settled p) : Used b [] p
  | submit {uses events p q} (h : Used b uses p)
      (submits : Submits b (PoolTally.ofUses uses).submitted events p q) :
      Used b (uses ++ [.submit]) q
  | finish {uses i job events p q} (h : Used b uses p) (lowest : p.running.min? = some job)
      (runs : p.workers[i]? = some (.running job)) (run : run b p (.finish i :: events) = some q)
      (moves : ∀ e ∈ events, e.isMove) (settled : Settled q) : Used b (uses ++ [.finish]) q
  | finishNone {uses p} (h : Used b uses p) (none : p.running = []) : Used b (uses ++ [.finish]) p
  | shrink {uses events p q} (h : Used b uses p) (run : run b p events = some q)
      (moves : ∀ e ∈ events, e.isMove || e.isTimeOut) (settled : Settled q)
      (noneSpare : q.threads ≤ b.least ∨ q.idle = 0) : Used b (uses ++ [.shrink]) q
  | shutDown {uses events p q} (h : Used b uses p) (run : run b p events = some q)
      (moves : ∀ e ∈ events, e.isMove || e.isFinish || e == .close) (settled : Settled q)
      (closed : q.accepting = false) (left : q.workers = []) : Used b (uses ++ [.shutDown]) q

/-- A settled pool that takes jobs, as the tally of its uses has it. -/
structure Open (b : PoolBounds) (t : PoolTally) (p : WorkerPool) : Prop where
  accepting : p.accepting = true
  threads_eq : p.threads = t.threads b
  length_running : p.running.length = min (t.threads b) t.unfinished
  idle_eq : p.idle = t.threads b - p.running.length
  length_queue_add : p.queue.length + p.running.length = t.unfinished
  /-- The jobs were started in the order of their numbers, and those that wait are the last ones. -/
  started : p.taken ++ p.queue = List.range t.submitted
  /-- Every job waits, runs or has ended, and is at one of these places only. -/
  placed : (p.queue ++ p.running ++ p.ended).Perm (List.range t.submitted)

structure Shut (b : PoolBounds) (t : PoolTally) (p : WorkerPool) : Prop where
  accepting : p.accepting = false
  threads_eq : p.threads = 0
  idle_eq : p.idle = 0
  running_eq : p.running = []
  queue_eq : p.queue = []
  ended : p.ended.Perm (List.range t.accepted)
  /-- A job that is handed in later is refused and changes nothing. -/
  refuses : ∀ job events q, Submits b job events p q → q = p ∧
    ∃ fault, refusal events = some fault ∧ (Failure.pool fault).kind = .resourceExhausted

variable {b : PoolBounds} {p q : WorkerPool} {e : PoolEvent} {events : List PoolEvent}

/-- What each step of a run keeps is kept by the run. -/
theorem run_keeps {I : WorkerPool → Prop}
    (hkeep : ∀ p e q, e ∈ events → Effect b p e q → I p → I q)
    (hrun : run b p events = some q) (h : I p) : I q := by
  have hobeys : obeys b (fun _ e => events.contains e) p events :=
    obeys_of_forall (fun e he _ => List.contains_iff_mem.2 he) p
  exact run_induction
    (fun p e q he hstep => hkeep p e q (List.contains_iff_mem.1 he) (effect_of_step hstep))
    hobeys hrun h

theorem Steady.of_run (h : Steady b p) (hrun : run b p events = some q)
    (hstarts : ∀ k, .failStart k ∉ events) : Steady b q :=
  run_keeps (fun _ _ _ hmem he => he.steady fun k hk => hstarts k (hk ▸ hmem)) hrun h

/-! ## The workers of a settled pool -/

namespace Settled

variable (h : Settled p)
include h

theorem held_eq : p.held = p.running := by
  rw [held, running]
  refine List.filterMap_congr fun phase hphase => ?_
  rcases h.workers phase hphase with ⟨job, rfl⟩ | ⟨rfl, -⟩ <;> rfl

theorem length_running_add_countP : p.running.length + p.workers.countP WorkerPhase.countsAsIdle =
    p.workers.length := by
  have hphases := h.workers
  rw [running]
  generalize p.workers = workers at hphases
  induction workers with
  | nil => rfl
  | cons phase rest ih =>
    obtain ⟨hphase, hrest⟩ := List.forall_mem_cons.1 hphases
    have hlen := ih hrest
    rcases hphase with ⟨job, rfl⟩ | ⟨rfl, -⟩
    · rw [List.filterMap_cons, List.countP_cons_of_neg Bool.false_ne_true, List.length_cons]
      simp only [WorkerPhase.runs?, List.length_cons]
      omega
    · rw [List.filterMap_cons, List.countP_cons_of_pos rfl, List.length_cons]
      simp only [WorkerPhase.runs?]
      omega

/-- A worker that waits leaves no job in the queue. -/
theorem queue_eq_or_length_running : p.queue = [] ∨ p.running.length = p.workers.length := by
  by_cases hwaits : ∃ phase ∈ p.workers, phase = .waiting
  · obtain ⟨phase, hphase, rfl⟩ := hwaits
    rcases h.workers _ hphase with ⟨job, hjob⟩ | ⟨-, hqueue, -⟩
    · cases hjob
    · exact .inl hqueue
  · have hnone : p.workers.countP WorkerPhase.countsAsIdle = 0 := by
      refine List.countP_eq_zero.2 fun phase hphase => ?_
      rcases h.workers phase hphase with ⟨job, rfl⟩ | ⟨rfl, -⟩
      · exact Bool.false_ne_true
      · exact absurd ⟨_, hphase, rfl⟩ hwaits
    have := h.length_running_add_countP
    exact .inr (by omega)

theorem threads_eq_length (hbalanced : Balanced b p) : p.threads = p.workers.length := by
  rw [hbalanced.threads_eq, places, h.callers]
  rfl

theorem length_accepted (hbalanced : Balanced b p) :
    p.accepted.length = p.queue.length + p.running.length + p.ended.length := by
  have hlen := hbalanced.perm_accepted.length_eq
  rwa [List.length_append, List.length_append, h.held_eq] at hlen

/-- No worker is left in a closed pool without jobs. -/
theorem workers_eq_nil (hclosed : p.accepting = false) (hdone : p.running = []) :
    p.workers = [] := by
  refine List.eq_nil_iff_forall_not_mem.2 fun phase hphase => ?_
  rcases h.workers phase hphase with ⟨job, rfl⟩ | ⟨-, -, htakes⟩
  · have hrunning : job ∈ p.running := List.mem_filterMap.2 ⟨_, hphase, rfl⟩
    rw [hdone] at hrunning
    cases hrunning
  · rw [hclosed] at htakes
    cases htakes

/-- While jobs are taken, no worker of a settled pool goes on by itself. -/
theorem not_move {r : WorkerPool} (he : Effect b q e r) (hworkers : q.workers = p.workers)
    (hqueue : q.queue = p.queue) (htakes : q.accepting = true) : e.isMove = false := by
  have hphase {phase : WorkerPhase} (hmem : phase ∈ q.workers) := h.workers phase (hworkers ▸ hmem)
  cases he with
  | enter moves | wake moves =>
    rcases hphase moves.old_mem with ⟨job, hjob⟩ | ⟨hwaits, -⟩
    · cases hjob
    · cases hwaits
  | take moves first =>
    rcases hphase moves.old_mem with ⟨job, hjob⟩ | ⟨-, hempty, -⟩
    · cases hjob
    · rw [hqueue, hempty] at first
      cases first
  | seeClosed moves empty closed =>
    rw [htakes] at closed
    cases closed
  | leave gone =>
    rcases hphase (gone.mem_iff.2 List.mem_cons_self) with ⟨job, hjob⟩ | ⟨hwaits, -⟩
    · cases hjob
    · cases hwaits
  | timeOut | finish | retire | stay | submit | check | reserve | full | start | failStart
  | giveBack | send | refuse | close => rfl

end Settled

/-! ## What steps leave as it is -/

namespace Effect

theorem accepted_eq_of_ne_send (he : Effect b p e q) (h : ∀ k, e ≠ .send k) :
    q.accepted = p.accepted := by
  cases he with
  | send => exact absurd rfl (h _)
  | enter | take | timeOut | seeClosed | wake | finish | retire | stay | leave | submit | check
  | reserve | full | start | failStart | giveBack | refuse | close => rfl

theorem accepting_eq_of_ne_close (he : Effect b p e q) (h : e ≠ .close) :
    q.accepting = p.accepting := by
  cases he with
  | close => exact absurd rfl h
  | enter | take | timeOut | seeClosed | wake | finish | retire | stay | leave | submit | check
  | reserve | full | start | failStart | giveBack | send | refuse => rfl

theorem ended_eq_of_ne_finish (he : Effect b p e q) (h : ∀ i, e ≠ .finish i) :
    q.ended = p.ended := by
  cases he with
  | finish => exact absurd rfl (h _)
  | enter | take | timeOut | seeClosed | wake | retire | stay | leave | submit | check | reserve
  | full | start | failStart | giveBack | send | refuse | close => rfl

theorem callers_eq_of_isMove (he : Effect b p e q) (h : e.isMove) : q.callers = p.callers := by
  cases he with
  | enter | take | seeClosed | wake | leave => rfl
  | timeOut | finish | retire | stay | submit | check | reserve | full | start | failStart
  | giveBack | send | refuse | close => cases h

theorem length_queue_le_of_ne_send (he : Effect b p e q) (h : ∀ k, e ≠ .send k) :
    q.queue.length ≤ p.queue.length := by
  cases he with
  | take moves first =>
    rw [first, List.length_cons]
    exact Nat.le_succ _
  | send => exact absurd rfl (h _)
  | enter | timeOut | seeClosed | wake | finish | retire | stay | leave | submit | check | reserve
  | full | start | failStart | giveBack | refuse | close => exact Nat.le_refl _

/-- No worker comes by itself. -/
theorem threads_le_of_isMove_or_isTimeOut (he : Effect b p e q) (h : e.isMove || e.isTimeOut) :
    q.threads ≤ p.threads := by
  cases he with
  | enter | take | timeOut | seeClosed | wake | stay => exact Int.le_refl _
  | retire | leave => exact Int.sub_le_self _ (by decide)
  | finish | submit | check | reserve | full | start | failStart | giveBack | send | refuse
  | close => cases h

/-- No worker ends by itself while jobs are taken. -/
theorem threads_eq_of_isMove (he : Effect b p e q) (h : e.isMove) (hbalanced : Balanced b p)
    (htakes : p.accepting = true) : q.threads = p.threads := by
  cases he with
  | enter | take | seeClosed | wake => rfl
  | leave gone =>
    have hclosed := hbalanced.not_accepting_of_leaving gone
    rw [htakes] at hclosed
    cases hclosed
  | timeOut | finish | retire | stay | submit | check | reserve | full | start | failStart
  | giveBack | send | refuse | close => cases h

end Effect

theorem accepted_eq_of_run (hrun : run b p events = some q) (h : ∀ k, .send k ∉ events) :
    q.accepted = p.accepted :=
  run_keeps (I := fun r => r.accepted = p.accepted) (fun _ _ _ hmem he hr =>
    (he.accepted_eq_of_ne_send fun k hk => h k (hk ▸ hmem)).trans hr) hrun rfl

theorem accepting_eq_of_run (hrun : run b p events = some q) (h : .close ∉ events) :
    q.accepting = p.accepting :=
  run_keeps (I := fun r => r.accepting = p.accepting) (fun _ _ _ hmem he hr =>
    (he.accepting_eq_of_ne_close fun hk => h (hk ▸ hmem)).trans hr) hrun rfl

theorem ended_eq_of_run (hrun : run b p events = some q) (h : ∀ i, .finish i ∉ events) :
    q.ended = p.ended :=
  run_keeps (I := fun r => r.ended = p.ended) (fun _ _ _ hmem he hr =>
    (he.ended_eq_of_ne_finish fun i hi => h i (hi ▸ hmem)).trans hr) hrun rfl

theorem length_queue_le_of_run (hrun : run b p events = some q) (h : ∀ k, .send k ∉ events) :
    q.queue.length ≤ p.queue.length :=
  run_keeps (I := fun r => r.queue.length ≤ p.queue.length) (fun _ _ _ hmem he hr =>
    Nat.le_trans (he.length_queue_le_of_ne_send fun k hk => h k (hk ▸ hmem)) hr) hrun
    (Nat.le_refl _)

theorem threads_le_of_run (hrun : run b p events = some q)
    (hmoves : ∀ e ∈ events, e.isMove || e.isTimeOut) : q.threads ≤ p.threads :=
  run_keeps (I := fun r => r.threads ≤ p.threads) (fun _ e _ hmem he hr =>
    Int.le_trans (he.threads_le_of_isMove_or_isTimeOut (hmoves e hmem)) hr) hrun (Int.le_refl _)

theorem threads_eq_of_run (hrun : run b p events = some q) (hmoves : ∀ e ∈ events, e.isMove)
    (hbalanced : Balanced b p) (htakes : p.accepting = true) : q.threads = p.threads := by
  refine (run_keeps (I := fun r => Balanced b r ∧ r.accepting = true ∧ r.threads = p.threads)
    (fun r e s hmem he hr => ?_) hrun ⟨hbalanced, htakes, rfl⟩).2.2
  obtain ⟨hr, hrtakes, hthreads⟩ := hr
  have hmove := hmoves e hmem
  refine ⟨he.balanced hr, ?_, (he.threads_eq_of_isMove hmove hr hrtakes).trans hthreads⟩
  exact (he.accepting_eq_of_ne_close (by rintro rfl; cases hmove)).trans hrtakes

/-- No job is taken by a closed pool. -/
theorem accepted_eq_of_closed (hrun : run b p events = some q) (h : .close ∉ events)
    (htakesNone : p.accepting = false) : q.accepted = p.accepted := by
  refine (run_keeps (I := fun r => r.accepting = false ∧ r.accepted = p.accepted)
    (fun r e s hmem he hr => ?_) hrun ⟨htakesNone, rfl⟩).2
  obtain ⟨hrtakes, haccepted⟩ := hr
  have hclosed := (he.accepting_eq_of_ne_close fun hk => h (hk ▸ hmem)).trans hrtakes
  refine ⟨hclosed, (he.accepted_eq_of_ne_send ?_).trans haccepted⟩
  rintro k rfl
  cases he with
  | send gone takes =>
    rw [hrtakes] at takes
    cases takes

end WorkerPool

end WordIndex
