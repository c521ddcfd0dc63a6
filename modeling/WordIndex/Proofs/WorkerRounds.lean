import Mathlib.Data.List.Induction
import WordIndex.Proofs.PoolUses

/-! # Rounds in which the workers take their steps, from the last one to the first one

A step that cannot be taken is passed over. In one round each worker goes on until it runs a job or
waits in vain; in another one each worker that waits has done so too long. -/
namespace WordIndex

/-- Whether a worker is at the start of its loop or runs a job. -/
def WorkerPhase.isCalm : WorkerPhase → Bool
  | entering | waiting | running _ => true
  | _ => false

namespace WorkerPool

/-- What some steps make of a pool when those that cannot be taken are passed over. -/
def attempt (b : PoolBounds) (p : WorkerPool) (events : List PoolEvent) : WorkerPool :=
  events.foldl (fun p e => (p.step b e).getD p) p

variable {b : PoolBounds} {p q : WorkerPool} {events others : List PoolEvent}

theorem attempt_append : attempt b p (events ++ others) = attempt b (attempt b p events) others :=
  List.foldl_append

theorem run_append : run b p (events ++ others) = (run b p events).bind fun q => run b q others := by
  induction events generalizing p with
  | nil => rfl
  | cons e rest ih =>
    rw [List.cons_append, run, run]
    cases p.step b e with
    | none => rfl
    | some q => exact ih

theorem run_trans {r : WorkerPool} (h : run b p events = some q) (h' : run b q others = some r) :
    run b p (events ++ others) = some r := by
  rw [run_append, h]
  exact h'

/-- The steps that can be taken make a run. -/
theorem exists_run_eq_attempt (b : PoolBounds) (p : WorkerPool) (events : List PoolEvent) :
    ∃ taken, taken.Sublist events ∧ run b p taken = some (attempt b p events) := by
  induction events generalizing p with
  | nil => exact ⟨[], .refl _, rfl⟩
  | cons e rest ih =>
    rw [attempt, List.foldl_cons]
    cases hstep : p.step b e with
    | none =>
      obtain ⟨taken, hsublist, hrun⟩ := ih p
      exact ⟨taken, hsublist.cons e, hrun⟩
    | some q =>
      obtain ⟨taken, hsublist, hrun⟩ := ih q
      exact ⟨e :: taken, hsublist.cons_cons e, Option.bind_eq_some_iff.2 ⟨q, hstep, hrun⟩⟩

theorem exists_run_of_forall {isOne : PoolEvent → Bool} (hone : ∀ e ∈ events, isOne e)
    (p : WorkerPool) :
    ∃ taken, (∀ e ∈ taken, isOne e) ∧ run b p taken = some (attempt b p events) := by
  obtain ⟨taken, hsublist, hrun⟩ := exists_run_eq_attempt b p events
  exact ⟨taken, fun e he => hone e (hsublist.subset he), hrun⟩

theorem positions_append_singleton (front : List WorkerPhase) (phase : WorkerPhase) :
    (List.range (front ++ [phase]).length).reverse =
      front.length :: (List.range front.length).reverse := by
  rw [List.length_append, List.length_singleton, List.range_succ, List.reverse_concat]

/-- What is true of the workers that were passed is true of all of them in the end, when one after
the other takes its steps, from the last one to the first one. -/
theorem passed_positions {steps : Nat → List PoolEvent} {ok : WorkerPhase → Prop}
    {Passed : List WorkerPhase → WorkerPool → Prop}
    (hpass : ∀ front phase p, ok phase → Passed (front ++ [phase]) p →
      Passed front (attempt b p (steps front.length)))
    {front : List WorkerPhase} (hfront : ∀ phase ∈ front, ok phase) (h : Passed front p) :
    Passed [] (attempt b p ((List.range front.length).reverse.flatMap steps)) := by
  induction front using List.reverseRecOn generalizing p with
  | nil => exact h
  | append_singleton front phase ih =>
    rw [positions_append_singleton, List.flatMap_cons, attempt_append]
    refine ih (fun other hother => hfront other ?_) (hpass front phase p (hfront phase ?_) h)
    · exact List.mem_append_left _ hother
    · exact List.mem_append_right _ List.mem_cons_self

/-! ## A round over all workers -/

/-- The steps that a worker takes by itself. -/
def round (i : Nat) : List PoolEvent := [.enter i, .take i, .seeClosed i, .wake i, .leave i]

theorem isMove_of_mem_rounds {positions : List Nat} :
    ∀ e ∈ positions.flatMap round, e.isMove := by
  intro e he
  obtain ⟨i, -, he⟩ := List.mem_flatMap.1 he
  simp only [round, List.mem_cons, List.not_mem_nil, or_false] at he
  rcases he with rfl | rfl | rfl | rfl | rfl <;> rfl

section Round
variable {front tail : List WorkerPhase} {phase : WorkerPhase}

theorem attempt_round_entering (h : p.workers = front ++ .entering :: tail) :
    attempt b p (round front.length) =
      attempt b { p with workers := front ++ .waiting :: tail, idle := p.idle + 1 }
        (round front.length) := by
  simp [attempt, round, step, workerStep, setWorker, h]

theorem attempt_round_running {job : Nat} (h : p.workers = front ++ .running job :: tail) :
    attempt b p (round front.length) = p := by
  simp [attempt, round, step, workerStep, h]

theorem attempt_round_of_queue_eq_cons {job : Nat} {queue : List Nat}
    (h : p.workers = front ++ .waiting :: tail) (hqueue : p.queue = job :: queue) :
    attempt b p (round front.length) =
      { p with workers := front ++ .running job :: tail, idle := p.idle - 1, queue,
               taken := p.taken ++ [job] } := by
  simp [attempt, round, step, workerStep, setWorker, WorkerPhase.ofDelivery, h, hqueue]

theorem attempt_round_of_accepting (h : p.workers = front ++ .waiting :: tail)
    (hqueue : p.queue = []) (htakes : p.accepting = true) :
    attempt b p (round front.length) = p := by
  simp [attempt, round, step, workerStep, h, hqueue, htakes]

theorem attempt_round_of_closed (h : p.workers = front ++ .waiting :: tail)
    (hqueue : p.queue = []) (hclosed : p.accepting = false) :
    attempt b p (round front.length) =
      { p with workers := front ++ tail, idle := p.idle - 1, threads := p.threads - 1 } := by
  simp [attempt, round, step, workerStep, setWorker, endWorker, WorkerPhase.ofDelivery,
    List.eraseIdx_append, h, hqueue, hclosed]

/-- The workers after the first ones do not go on by themselves. -/
structure SettledAfter (front : List WorkerPhase) (p : WorkerPool) : Prop where
  callers : p.callers = []
  workers : ∃ tail, p.workers = front ++ tail ∧ ∀ phase ∈ tail,
    (∃ job, phase = .running job) ∨ phase = .waiting ∧ p.queue = [] ∧ p.accepting = true

theorem settledAfter_round_waiting (hcallers : p.callers = [])
    (hworkers : p.workers = front ++ .waiting :: tail)
    (htail : ∀ phase ∈ tail, (∃ job, phase = .running job) ∨
      phase = .waiting ∧ p.queue = [] ∧ p.accepting = true) :
    SettledAfter front (attempt b p (round front.length)) := by
  cases hqueue : p.queue with
  | cons job queue =>
    rw [attempt_round_of_queue_eq_cons hworkers hqueue]
    refine ⟨hcallers, _, rfl, List.forall_mem_cons.2 ⟨.inl ⟨job, rfl⟩, fun phase hphase => ?_⟩⟩
    refine .inl ((htail phase hphase).resolve_right fun hwaits => ?_)
    cases hqueue.symm.trans hwaits.2.1
  | nil =>
    cases htakes : p.accepting with
    | true =>
      rw [attempt_round_of_accepting hworkers hqueue htakes]
      exact ⟨hcallers, _, hworkers, List.forall_mem_cons.2 ⟨.inr ⟨rfl, hqueue, htakes⟩, htail⟩⟩
    | false =>
      rw [attempt_round_of_closed hworkers hqueue htakes]
      exact ⟨hcallers, _, rfl, htail⟩

theorem SettledAfter.round (h : SettledAfter (front ++ [phase]) p) (hcalm : phase.isCalm) :
    SettledAfter front (attempt b p (round front.length)) := by
  obtain ⟨hcallers, tail, hworkers, htail⟩ := h
  rw [List.append_assoc, List.singleton_append] at hworkers
  cases phase with
  | entering =>
    rw [attempt_round_entering hworkers]
    exact settledAfter_round_waiting hcallers rfl htail
  | waiting => exact settledAfter_round_waiting hcallers hworkers htail
  | running job =>
    rw [attempt_round_running hworkers]
    exact ⟨hcallers, _, hworkers, List.forall_mem_cons.2 ⟨.inl ⟨job, rfl⟩, htail⟩⟩
  | woken | retiring | leaving => cases hcalm

/-- One round settles a pool, from its last worker to its first one. -/
theorem settled_rounds (h : SettledAfter front p) (hcalm : ∀ phase ∈ front, phase.isCalm) :
    Settled (attempt b p ((List.range front.length).reverse.flatMap WorkerPool.round)) := by
  obtain ⟨hcallers, tail, hworkers, htail⟩ :=
    passed_positions (fun _ _ _ hcalm h => h.round hcalm) hcalm h
  exact ⟨hcallers, hworkers ▸ htail⟩

end Round

/-! ## Waits that are too long -/

/-- The steps of a worker that waits too long. -/
def overdue (i : Nat) : List PoolEvent := [.timeOut i, .wake i, .retire i]

theorem isTimeOut_of_mem_overdue {positions : List Nat} :
    ∀ e ∈ positions.flatMap overdue, e.isMove || e.isTimeOut := by
  intro e he
  obtain ⟨i, -, he⟩ := List.mem_flatMap.1 he
  simp only [overdue, List.mem_cons, List.not_mem_nil, or_false] at he
  rcases he with rfl | rfl | rfl <;> rfl

section Overdue
variable {front tail : List WorkerPhase} {phase : WorkerPhase}

theorem attempt_overdue_running {job : Nat} (h : p.workers = front ++ .running job :: tail) :
    attempt b p (overdue front.length) = p := by
  simp [attempt, overdue, step, workerStep, h]

theorem attempt_overdue_of_lt (h : p.workers = front ++ .waiting :: tail)
    (hspare : b.least < p.threads) :
    attempt b p (overdue front.length) =
      { p with workers := front ++ tail, idle := p.idle - 1, threads := p.threads - 1 } := by
  simp [attempt, overdue, step, workerStep, setWorker, endWorker, WorkerPhase.ofDelivery,
    List.eraseIdx_append, h, hspare]

theorem attempt_overdue_of_le (h : p.workers = front ++ .waiting :: tail)
    (hneeded : p.threads ≤ b.least) :
    attempt b p (overdue front.length) =
      { p with workers := front ++ .entering :: tail, idle := p.idle - 1 } := by
  simp [attempt, overdue, step, workerStep, setWorker, WorkerPhase.ofDelivery, h,
    Int.not_lt.2 hneeded]

/-- Each worker after the first ones runs a job or is needed. -/
structure NeededAfter (b : PoolBounds) (front : List WorkerPhase) (p : WorkerPool) : Prop where
  callers : p.callers = []
  workers : ∃ tail, p.workers = front ++ tail ∧ ∀ phase ∈ tail,
    (∃ job, phase = .running job) ∨ phase = .entering ∧ p.threads ≤ b.least

theorem NeededAfter.overdue (h : NeededAfter b (front ++ [phase]) p)
    (hphase : (∃ job, phase = .running job) ∨ phase = .waiting) :
    NeededAfter b front (attempt b p (overdue front.length)) := by
  obtain ⟨hcallers, tail, hworkers, htail⟩ := h
  rw [List.append_assoc, List.singleton_append] at hworkers
  rcases hphase with ⟨job, rfl⟩ | rfl
  · rw [attempt_overdue_running hworkers]
    exact ⟨hcallers, _, hworkers, List.forall_mem_cons.2 ⟨.inl ⟨job, rfl⟩, htail⟩⟩
  · by_cases hspare : b.least < p.threads
    · rw [attempt_overdue_of_lt hworkers hspare]
      refine ⟨hcallers, tail, rfl, fun phase hphase => (htail phase hphase).imp_right fun h => ?_⟩
      exact absurd hspare (Int.not_lt.2 h.2)
    · rw [attempt_overdue_of_le hworkers (Int.not_lt.1 hspare)]
      exact ⟨hcallers, _, rfl, List.forall_mem_cons.2 ⟨.inr ⟨rfl, Int.not_lt.1 hspare⟩, htail⟩⟩

/-- Workers that all run a job do not go on by themselves. -/
theorem running_of_moves (hrun : run b p events = some q) (hmoves : ∀ e ∈ events, e.isMove)
    (h : ∀ phase ∈ p.workers, ∃ job, phase = .running job) :
    ∀ phase ∈ q.workers, ∃ job, phase = .running job := by
  refine run_keeps (I := fun r => ∀ phase ∈ r.workers, ∃ job, phase = .running job)
    (fun r e s hmem he hr => ?_) hrun h
  have hmove := hmoves e hmem
  cases he with
  | enter moves | take moves | seeClosed moves | wake moves =>
    obtain ⟨job, hjob⟩ := hr _ moves.old_mem
    cases hjob
  | leave gone =>
    obtain ⟨job, hjob⟩ := hr _ (gone.mem_iff.2 List.mem_cons_self)
    cases hjob
  | timeOut | finish | retire | stay | submit | check | reserve | full | start | failStart
  | giveBack | send | refuse | close => cases hmove

theorem NeededAfter.forall_workers (h : NeededAfter b [] p) : ∀ phase ∈ p.workers,
    (∃ job, phase = .running job) ∨ phase = .entering ∧ p.threads ≤ b.least := by
  obtain ⟨-, tail, hworkers, htail⟩ := h
  rwa [hworkers]

theorem NeededAfter.isCalm (h : NeededAfter b [] p) : ∀ phase ∈ p.workers, phase.isCalm := by
  intro phase hphase
  rcases h.forall_workers phase hphase with ⟨job, rfl⟩ | ⟨rfl, -⟩ <;> rfl

/-- When each worker that does not run a job is needed, none is to spare once they went on. -/
theorem NeededAfter.none_spare (h : NeededAfter b [] p) (hrun : run b p events = some q)
    (hmoves : ∀ e ∈ events, e.isMove) (hq : Balanced b q) : q.threads ≤ b.least ∨ q.idle = 0 := by
  by_cases hbusy : ∀ phase ∈ p.workers, ∃ job, phase = .running job
  · right
    rw [hq.idle_eq, Int.natCast_eq_zero, List.countP_eq_zero]
    intro phase hphase
    obtain ⟨job, rfl⟩ := running_of_moves hrun hmoves hbusy phase hphase
    exact Bool.false_ne_true
  · left
    simp only [not_forall] at hbusy
    obtain ⟨phase, hphase, hidle⟩ := hbusy
    have hneeded := ((h.forall_workers phase hphase).resolve_left hidle).2
    have hle := threads_le_of_run hrun fun e he => by rw [hmoves e he, Bool.true_or]
    exact Int.le_trans hle hneeded

end Overdue

end WorkerPool

end WordIndex
