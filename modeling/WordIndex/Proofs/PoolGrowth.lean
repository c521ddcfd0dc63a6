import WordIndex.Proofs.PoolSafety

/-! # When a waiting job makes a pool grow

A caller starts a worker when the counter of idle workers says that there is none. The counter may
say that a worker is idle for which another job is meant already. -/
namespace WordIndex

def WorkerPhase.isFree : WorkerPhase → Bool
  | running _ | woken (.job _) => false
  | _ => true

/-- Whether a worker is about to end because it waited too long. -/
def WorkerPhase.timedOut : WorkerPhase → Bool
  | woken .timeout | retiring => true
  | _ => false

/-- Whether a caller is about to put its job into the queue. -/
def Caller.isSending (c : Caller) : Bool :=
  match c.phase with
  | .sending => true
  | _ => false

namespace WorkerPool

def free (p : WorkerPool) : Nat := p.workers.countP WorkerPhase.isFree

/-- How many jobs are in the queue or are about to be put into it. -/
def claimed (p : WorkerPool) : Nat := p.queue.length + p.callers.countP Caller.isSending

/-- No more jobs wait than there are workers for them, unless there are as many workers as there may
be. -/
structure Served (b : PoolBounds) (p : WorkerPool) : Prop extends Steady b p where
  patient : ∀ phase ∈ p.workers, phase.timedOut = false
  claimed_le : p.accepting = true → p.threads = b.most ∨ p.claimed ≤ p.free

/-- Whether a step is none by which jobs may be left to wait: no worker fails to start or waits too
long, and a caller that finds the counter of idle workers above zero finds more free workers than
jobs that wait or are about to. -/
def foresees (p : WorkerPool) : PoolEvent → Bool
  | .failStart _ | .timeOut _ => false
  | .check _ => p.idle == 0 || p.claimed < p.free
  | _ => true

namespace Effect

variable {b : PoolBounds} {p q : WorkerPool} {e : PoolEvent}

theorem patient (he : Effect b p e q) (htimeouts : ∀ i, e ≠ .timeOut i)
    (h : ∀ phase ∈ p.workers, phase.timedOut = false) :
    ∀ phase ∈ q.workers, phase.timedOut = false := by
  intro phase hphase
  cases he with
  | enter moves | take moves | seeClosed moves | finish moves | stay moves =>
    rcases moves.eq_or_mem hphase with rfl | hphase
    · rfl
    · exact h phase hphase
  | timeOut => exact absurd rfl (htimeouts _)
  | @wake _ _ delivery moves =>
    rcases moves.eq_or_mem hphase with rfl | hphase
    · cases delivery with
      | timeout => cases h _ moves.old_mem
      | job | closed => rfl
    · exact h phase hphase
  | retire gone | leave gone => exact h phase (gone.mem_iff.2 (List.mem_cons_of_mem _ hphase))
  | start =>
    rcases List.mem_append.1 hphase with hphase | hphase
    · exact h phase hphase
    · obtain rfl := List.mem_singleton.1 hphase
      rfl
  | submit | check | reserve | full | failStart | giveBack | send | refuse | close =>
    exact h phase hphase

/-- Whoever finds the counter of idle workers above zero finds a worker that is free for its job. -/
theorem claimed_le (he : Effect b p e q) (htimeouts : ∀ i, e ≠ .timeOut i)
    (hcheck : ∀ k, e = .check k → p.idle ≠ 0 → p.claimed < p.free) (h : Served b p) :
    q.accepting = true → q.threads = b.most ∨ q.claimed ≤ q.free := by
  intro htakes
  cases he with
  | enter moves | seeClosed moves | stay moves | finish moves =>
    refine (h.claimed_le htakes).imp_right fun hle => ?_
    have hfree := moves.countP_add WorkerPhase.isFree
    simp [claimed, free, WorkerPhase.isFree] at hle hfree ⊢
    omega
  | take moves first =>
    refine (h.claimed_le htakes).imp_right fun hle => ?_
    have hfree := moves.countP_add WorkerPhase.isFree
    simp [claimed, free, first, WorkerPhase.isFree] at hle hfree ⊢
    omega
  | timeOut => exact absurd rfl (htimeouts _)
  | @wake _ _ delivery moves =>
    refine (h.claimed_le htakes).imp_right fun hle => ?_
    have hfree := moves.countP_add WorkerPhase.isFree
    cases delivery <;>
      simp [claimed, free, WorkerPhase.ofDelivery, WorkerPhase.isFree] at hle hfree ⊢ <;> omega
  | retire gone => cases h.patient _ (gone.mem_iff.2 List.mem_cons_self)
  | leave gone =>
    have hclosed := h.not_accepting_of_leaving gone
    rw [hclosed] at htakes
    cases htakes
  | submit =>
    refine (h.claimed_le htakes).imp_right fun hle => ?_
    simpa [claimed, free, Caller.isSending] using hle
  | @check k _ _ moves =>
    have hsending := moves.countP_add Caller.isSending
    by_cases hidle : p.idle = 0
    · refine (h.claimed_le htakes).imp_right fun hle => ?_
      simp [claimed, free, hidle, Caller.isSending] at hle hsending ⊢
      omega
    · have hlt := hcheck k rfl hidle
      right
      simp [claimed, free, hidle, Caller.isSending] at hlt hsending ⊢
      omega
  | reserve moves room =>
    have hsending := moves.countP_add Caller.isSending
    rcases h.claimed_le htakes with hmost | hle
    · exact absurd hmost (Int.ne_of_lt room)
    · right
      simp [claimed, free, Caller.isSending] at hle hsending ⊢
      omega
  -- A caller that sends without a worker for its job has found the pool full.
  | full moves noRoom => exact .inl (Int.le_antisymm h.threads_le (Int.not_lt.1 noRoom))
  | start moves =>
    refine (h.claimed_le htakes).imp_right fun hle => ?_
    have hsending := moves.countP_add Caller.isSending
    simp [claimed, free, Caller.isSending, WorkerPhase.isFree] at hle hsending ⊢
    omega
  | failStart moves =>
    refine (h.claimed_le htakes).imp_right fun hle => ?_
    have hsending := moves.countP_add Caller.isSending
    simp [claimed, free, Caller.isSending] at hle hsending ⊢
    omega
  | giveBack moves => exact absurd rfl (h.notReturning _ moves.old_mem)
  | send gone =>
    refine (h.claimed_le htakes).imp_right fun hle => ?_
    have hsending := gone.countP_eq Caller.isSending
    rw [List.countP_cons_of_pos rfl] at hsending
    simp [claimed, free] at hle ⊢
    omega
  | refuse gone closed =>
    rw [closed] at htakes
    cases htakes
  | close => cases htakes

theorem served (he : Effect b p e q) (hrule : p.foresees e) (h : Served b p) : Served b q where
  toSteady := by
    refine he.steady (fun k hk => ?_) h.toSteady
    rw [hk] at hrule
    cases hrule
  patient := by
    refine he.patient (fun i hi => ?_) h.patient
    rw [hi] at hrule
    cases hrule
  claimed_le := by
    refine he.claimed_le (fun i hi => ?_) (fun k hk hidle => ?_) h
    · rw [hi] at hrule
      cases hrule
    · rw [hk] at hrule
      simpa [foresees, hidle] using hrule

end Effect

variable {b : PoolBounds} {p q : WorkerPool} {e : PoolEvent}

theorem patient_of_forming {tried : Nat} {placed : Bool} {during : List PoolEvent}
    (h : Forming b tried placed during p) (htimeouts : ∀ i, .timeOut i ∉ during) :
    ∀ phase ∈ p.workers, phase.timedOut = false := by
  induction h with
  | begin => exact fun _ hphase => by cases hphase
  | reserve _ _ _ ih | skip _ _ _ ih => exact ih htimeouts
  | start _ ih =>
    intro phase hphase
    rcases List.mem_append.1 hphase with hphase | hphase
    · exact ih htimeouts phase hphase
    · obtain rfl := List.mem_singleton.1 hphase
      rfl
  | work _ step ih =>
    refine (effect_of_workerStep step).patient (fun i hi => htimeouts i ?_)
      (ih fun i hi => htimeouts i (List.mem_append_left _ hi))
    rw [hi]
    exact List.mem_append_right _ List.mem_cons_self

theorem Made.served {during : List PoolEvent} (h : Made b during p)
    (htimeouts : ∀ i, .timeOut i ∉ during) : Served b p := by
  refine ⟨h.steady, patient_of_forming h htimeouts, fun _ => .inr ?_⟩
  obtain ⟨idle, workers, rfl, -⟩ := h.eq_initial
  exact Nat.zero_le _

/-- A job waits while every worker is busy only in a pool of the greatest size, if no caller relies on
a worker that is meant for another job. -/
theorem threads_eq_most_of_queued {start : WorkerPool} {during events : List PoolEvent}
    (hmade : Made b during start) (hduring : ∀ i, .timeOut i ∉ during)
    (hrun : run b start events = some p) (hrule : obeys b foresees start events)
    (htakes : p.accepting = true) (hcallers : p.callers = [])
    (hbusy : ∀ phase ∈ p.workers, ∃ job, phase = .running job) (hqueue : p.queue ≠ []) :
    p.threads = b.most := by
  have hserved : Served b p := run_induction
    (fun _ _ _ he hstep => (effect_of_step hstep).served he) hrule hrun (hmade.served hduring)
  refine (hserved.claimed_le htakes).resolve_right fun hle => hqueue ?_
  have hfree : p.free = 0 := by
    refine List.countP_eq_zero.2 fun phase hphase => ?_
    obtain ⟨job, rfl⟩ := hbusy phase hphase
    exact Bool.false_ne_true
  rw [claimed, hcallers] at hle
  exact List.length_eq_zero_iff.1 (by omega)

/-- Each job runs before the next one is handed in, until there is no more room for a worker. -/
def oneByOne : List PoolEvent :=
  [.enter 0, .submit 0, .check 0, .send 0, .take 0, .wake 0, .submit 1, .check 0, .reserve 0,
    .start 0, .send 0, .enter 1, .take 1, .wake 1, .submit 2, .check 0, .reserve 0, .send 0]

theorem threads_eq_most_of_queued_oneByOne : Made oneOrTwo [] (initial oneOrTwo) ∧
    obeys oneOrTwo foresees (initial oneOrTwo) oneByOne ∧
    ∃ p, run oneOrTwo (initial oneOrTwo) oneByOne = some p ∧ p.accepting = true ∧
      p.callers = [] ∧ (∀ phase ∈ p.workers, ∃ job, phase = .running job) ∧ p.queue ≠ [] ∧
      p.threads = oneOrTwo.most := by
  have hrule : obeys oneOrTwo foresees (initial oneOrTwo) oneByOne := rfl
  have hrun : run oneOrTwo (initial oneOrTwo) oneByOne =
      some
        { threads := 2, idle := 0, workers := [.running 0, .running 1], queue := [2],
          accepted := [0, 1, 2], taken := [0, 1] } := rfl
  have hbusy : ∀ phase ∈ [WorkerPhase.running 0, .running 1], ∃ job, phase = .running job := by
    simp
  have hqueue : [2] ≠ [] := List.cons_ne_nil _ _
  exact ⟨made_initial _, hrule, _, hrun, rfl, rfl, hbusy, hqueue,
    threads_eq_most_of_queued (made_initial _) (fun _ h => by cases h) hrun hrule rfl rfl hbusy hqueue⟩

/-- A worker has taken a job and is still counted as idle when the next job is handed in. -/
def staleCounter : List PoolEvent :=
  [.enter 0, .submit 0, .check 0, .send 0, .take 0, .submit 1, .check 0, .send 0, .wake 0]

/-- A job can wait while every worker is busy and there is room for one more. -/
theorem exists_queued_below_most : Made oneOrTwo [] (initial oneOrTwo) ∧
    (∀ k, .failStart k ∉ staleCounter) ∧ (∀ i, .timeOut i ∉ staleCounter) ∧
    ∃ p, run oneOrTwo (initial oneOrTwo) staleCounter = some p ∧ p.accepting = true ∧
      p.callers = [] ∧ (∀ phase ∈ p.workers, ∃ job, phase = .running job) ∧ p.queue ≠ [] ∧
      p.threads ≠ oneOrTwo.most := by
  have hrun : run oneOrTwo (initial oneOrTwo) staleCounter =
      some
        { threads := 1, idle := 0, workers := [.running 0], queue := [1], accepted := [0, 1],
          taken := [0] } := rfl
  have hbusy : ∀ phase ∈ [WorkerPhase.running 0], ∃ job, phase = .running job := by simp
  exact ⟨made_initial _, by simp [staleCounter], by simp [staleCounter], _, hrun, rfl, rfl, hbusy,
    List.cons_ne_nil _ _, by decide⟩

end WorkerPool

end WordIndex
