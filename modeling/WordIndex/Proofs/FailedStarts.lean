import WordIndex.Proofs.PoolSafety

/-! # A pool in which workers fail to start

A caller takes up a place before it starts a worker for it and gives the place up when the start
fails. Meanwhile a worker that waited too long counts the place as a worker and may end because of
it, so a failed start can leave fewer workers than the least number. -/
namespace WordIndex.WorkerPool

def isGiveBack : PoolEvent → Bool
  | .giveBack _ => true
  | _ => false

/-- How many places were given up because a worker did not start. -/
def failures (events : List PoolEvent) : Nat := events.countP isGiveBack

/-- Whether a step is none by which a worker ends because of a place for a worker that is not
started yet. -/
def keepsStaff (b : PoolBounds) (p : WorkerPool) : PoolEvent → Bool
  | .retire _ => p.threads ≤ b.least || b.least < p.workers.length
  | _ => true

/-- The least number of workers is there while jobs are taken, places not counted. -/
structure Staffed (b : PoolBounds) (p : WorkerPool) : Prop extends Balanced b p where
  least_le_workers : p.accepting = true → b.least ≤ p.workers.length

namespace Effect

variable {b : PoolBounds} {p q : WorkerPool} {e : PoolEvent}

/-- Only a place that is given up takes a pool below its least size. -/
theorem least_le_add (he : Effect b p e q) (hbalanced : Balanced b p) {failed : Nat}
    (h : p.accepting = true → b.least ≤ p.threads + failed) :
    q.accepting = true → b.least ≤ q.threads + (failed + (isGiveBack e).toNat : Nat) := by
  intro htakes
  cases he with
  | retire gone spare =>
    simp only [isGiveBack, Bool.toNat_false]
    omega
  | leave gone =>
    have hclosed := hbalanced.not_accepting_of_leaving gone
    rw [hclosed] at htakes
    cases htakes
  | reserve | giveBack =>
    have hleast := h htakes
    simp only [isGiveBack, Bool.toNat_false, Bool.toNat_true]
    omega
  | close => cases htakes
  | enter | take | timeOut | seeClosed | wake | finish | stay | submit | check | full | start
  | failStart | send | refuse => exact h htakes

theorem staffed (he : Effect b p e q) (hrule : keepsStaff b p e) (h : Staffed b p) :
    Staffed b q where
  toBalanced := he.balanced h.toBalanced
  least_le_workers := by
    intro htakes
    cases he with
    | enter moves | take moves | timeOut moves | seeClosed moves | wake moves | finish moves
    | stay moves =>
      rw [moves.length_eq]
      exact h.least_le_workers htakes
    | @retire _ workers gone spare =>
      have hlen := gone.length_eq
      simp only [keepsStaff, Bool.or_eq_true, decide_eq_true_eq, hlen, List.length_cons] at hrule
      change b.least ≤ workers.length
      omega
    | leave gone =>
      have hclosed := h.not_accepting_of_leaving gone
      rw [hclosed] at htakes
      cases htakes
    | start =>
      have hle := h.least_le_workers htakes
      rw [List.length_append]
      exact Nat.le_add_right_of_le hle
    | close => cases htakes
    | submit | check | reserve | full | failStart | giveBack | send | refuse =>
      exact h.least_le_workers htakes

end Effect

variable {b : PoolBounds} {p : WorkerPool}

/-- A run lowers the least size by one for each start that failed in it, and by no more. -/
theorem least_le_add_failures {start : WorkerPool} {events : List PoolEvent} (failed : Nat)
    (hrun : run b start events = some p) (hbalanced : Balanced b start)
    (h : start.accepting = true → b.least ≤ start.threads + failed) :
    Balanced b p ∧ (p.accepting = true → b.least ≤ p.threads + (failed + failures events : Nat)) := by
  induction events generalizing start failed with
  | nil =>
    obtain rfl := Option.some.inj hrun
    exact ⟨hbalanced, h⟩
  | cons e rest ih =>
    obtain ⟨q, hq, hrest⟩ := Option.bind_eq_some_iff.1 hrun
    have he := effect_of_step hq
    have hfailures : failed + failures (e :: rest) =
        failed + (isGiveBack e).toNat + failures rest := by
      rw [failures, failures, List.countP_cons]
      cases isGiveBack e with
      | false => rfl
      | true => exact (Nat.add_right_comm failed 1 _).symm
    rw [hfailures]
    exact ih _ hrest (he.balanced hbalanced) (he.least_le_add hbalanced h)

/-- However many starts fail, a pool keeps to its greatest size, and it falls below its least size
by no more than the number of these starts. It keeps to its least size, with as many workers, if no
worker ends because of a place for a worker that is not started yet. -/
theorem least_le_of_failed_starts {start : WorkerPool} {during events : List PoolEvent}
    (hmade : Made b during start) (hrun : run b start events = some p)
    (htakes : p.accepting = true) :
    p.threads ≤ b.most ∧ b.least ≤ p.threads + failures events ∧
      (obeys b (keepsStaff b) start events →
        b.least ≤ p.threads ∧ b.least ≤ p.workers.length ∧ p.workers ≠ []) := by
  obtain ⟨idle, workers, hstart, hlen, -⟩ := hmade.eq_initial
  have hthreads : start.threads = b.least := by rw [hstart]
  have hworkers : start.workers.length = b.least := by rw [hstart]; exact hlen
  obtain ⟨hbalanced, hfailures⟩ := least_le_add_failures 0 hrun hmade.balanced fun _ => by
    rw [hthreads]
    exact Int.le_refl _
  refine ⟨hbalanced.threads_le, ?_, fun hrule => ?_⟩
  · simpa using hfailures htakes
  · have hstaffed : Staffed b p := run_induction
      (fun _ _ _ he hstep => (effect_of_step hstep).staffed he) hrule hrun
      ⟨hmade.balanced, fun _ => Nat.le_of_eq hworkers.symm⟩
    have hleast := hstaffed.least_le_workers htakes
    refine ⟨?_, hleast, List.ne_nil_of_length_pos (Nat.lt_of_lt_of_le b.least_pos hleast)⟩
    rw [hstaffed.threads_eq]
    omega

/-- A start fails while the only worker runs a job. The worker takes the next job too and then waits
too long, but it is needed. -/
def failsWhileBusy : List PoolEvent :=
  [.enter 0, .submit 0, .check 0, .send 0, .take 0, .wake 0, .submit 1, .check 0, .reserve 0,
    .failStart 0, .giveBack 0, .send 0, .finish 0, .enter 0, .take 0, .wake 0, .finish 0, .enter 0,
    .timeOut 0, .wake 0, .retire 0]

theorem least_le_of_failed_starts_whileBusy : Made oneOrTwo [] (initial oneOrTwo) ∧
    failures failsWhileBusy = 1 ∧ ∃ p, run oneOrTwo (initial oneOrTwo) failsWhileBusy = some p ∧
      p.accepting = true ∧ obeys oneOrTwo (keepsStaff oneOrTwo) (initial oneOrTwo) failsWhileBusy ∧
      oneOrTwo.least ≤ p.threads ∧ oneOrTwo.least ≤ p.workers.length ∧ p.workers ≠ [] := by
  have hrun : run oneOrTwo (initial oneOrTwo) failsWhileBusy =
      some
        { threads := 1, idle := 0, workers := [.entering], accepted := [0, 1], taken := [0, 1],
          ended := [0, 1] } := rfl
  have hrule : obeys oneOrTwo (keepsStaff oneOrTwo) (initial oneOrTwo) failsWhileBusy := rfl
  exact ⟨made_initial _, rfl, _, hrun, rfl, hrule,
    (least_le_of_failed_starts (made_initial _) hrun rfl).2.2 hrule⟩

/-- The only worker ends because of a place for a second one, which then does not start. -/
def endsForFailedStart : List PoolEvent :=
  [.submit 0, .check 0, .reserve 0, .enter 0, .timeOut 0, .wake 0, .retire 0, .failStart 0,
    .giveBack 0, .send 0]

/-- A failed start can leave a job that was taken without any worker, and none will come until
another job is handed in. -/
theorem exists_queued_without_workers : Made oneOrTwo [] (initial oneOrTwo) ∧
    ∃ p, run oneOrTwo (initial oneOrTwo) endsForFailedStart = some p ∧ p.accepting = true ∧
      p.callers = [] ∧ p.queue = [0] ∧ p.workers = [] ∧ ¬ oneOrTwo.least ≤ p.threads ∧
      ∀ e q, p.step oneOrTwo e = some q → e = .close ∨ ∃ job, e = .submit job := by
  have hrun : run oneOrTwo (initial oneOrTwo) endsForFailedStart =
      some { threads := 0, idle := 0, workers := [], queue := [0], accepted := [0] } := rfl
  refine ⟨made_initial _, _, hrun, rfl, rfl, rfl, rfl, by decide, fun e q hstep => ?_⟩
  cases e with
  | close => exact .inl rfl
  | submit job => exact .inr ⟨job, rfl⟩
  | enter | take | timeOut | seeClosed | wake | finish | retire | leave | check | reserve | start
  | failStart | giveBack | send | refuse => cases hstep

end WordIndex.WorkerPool
