import WordIndex.Proofs.PoolSteps

/-! # What holds of a pool however its steps interleave -/
namespace WordIndex

namespace WorkerPhase

def countsAsIdle : WorkerPhase → Bool
  | waiting | woken _ => true
  | _ => false

def sawClosed : WorkerPhase → Bool
  | woken .closed | leaving => true
  | _ => false

def holds (job : Nat) : WorkerPhase → Bool
  | running other | woken (.job other) => other == job
  | _ => false

theorem holds?_eq_some_iff {phase : WorkerPhase} {job : Nat} :
    phase.holds? = some job ↔ phase.holds job = true := by
  cases phase with
  | woken delivery => cases delivery <;> simp [holds?, holds]
  | entering | waiting | running | retiring | leaving => simp [holds?, holds]

end WorkerPhase

namespace Caller

/-- Whether a caller has a place for a worker that is not started. -/
def hasPlace (c : Caller) : Bool :=
  match c.phase with
  | .starting | .returning => true
  | _ => false

end Caller

namespace WorkerPool

/-- How many places are taken up for workers that are not started. -/
def places (p : WorkerPool) : Nat := p.callers.countP Caller.hasPlace

/-- The counters agree with what they count, and no job is lost, taken twice or out of turn. -/
structure Balanced (b : PoolBounds) (p : WorkerPool) : Prop where
  threads_eq : p.threads = p.workers.length + p.places
  threads_le : p.threads ≤ b.most
  idle_eq : p.idle = p.workers.countP WorkerPhase.countsAsIdle
  accepted_eq : p.accepted = p.taken ++ p.queue
  count_taken : ∀ job, p.taken.count job = p.workers.countP (WorkerPhase.holds job) + p.ended.count job
  sawClosed : ∀ phase ∈ p.workers, phase.sawClosed → p.accepting = false ∧ p.queue = []

/-- No worker ends because it saw the queue closed while jobs are taken. -/
theorem Balanced.not_accepting_of_leaving {b : PoolBounds} {p : WorkerPool}
    {workers : List WorkerPhase} (h : Balanced b p) (gone : p.workers.Perm (.leaving :: workers)) :
    p.accepting = false :=
  (h.sawClosed .leaving (gone.mem_iff.2 List.mem_cons_self) rfl).1

theorem count_one (other job : Nat) : [other].count job = (other == job).toNat := by
  rw [List.count_singleton]
  cases other == job <;> rfl

namespace Effect

variable {b : PoolBounds} {p q : WorkerPool} {e : PoolEvent}

theorem threads_eq (he : Effect b p e q) (h : p.threads = p.workers.length + p.places) :
    q.threads = q.workers.length + q.places := by
  rw [places] at h
  cases he with
  | enter moves | take moves | timeOut moves | seeClosed moves | wake moves | finish moves
  | stay moves =>
    have hlen := moves.length_eq
    simp only [places]
    omega
  | retire gone | leave gone =>
    have hlen := gone.length_eq
    simp only [places, List.length_cons] at hlen ⊢
    omega
  | submit => simpa [places, Caller.hasPlace] using h
  | check moves =>
    have hplaces := moves.countP_add Caller.hasPlace
    by_cases hidle : p.idle = 0 <;> simp [hidle, Caller.hasPlace, places] at hplaces ⊢ <;> omega
  | reserve moves | full moves | start moves | failStart moves | giveBack moves =>
    have hplaces := moves.countP_add Caller.hasPlace
    simp [Caller.hasPlace, places] at hplaces ⊢
    omega
  | send gone | refuse gone =>
    have hplaces := gone.countP_eq Caller.hasPlace
    simp [Caller.hasPlace, places] at hplaces ⊢
    omega
  | close => exact h

theorem threads_le (he : Effect b p e q) (h : p.threads ≤ b.most) : q.threads ≤ b.most := by
  cases he with
  | retire | leave | giveBack => exact Int.le_trans (Int.sub_le_self _ (by decide)) h
  | reserve moves room => exact room
  | enter | take | timeOut | seeClosed | wake | finish | stay | submit | check | full | start
  | failStart | send | refuse | close => exact h

theorem idle_eq (he : Effect b p e q) (h : p.idle = p.workers.countP WorkerPhase.countsAsIdle) :
    q.idle = q.workers.countP WorkerPhase.countsAsIdle := by
  cases he with
  | enter moves | take moves | timeOut moves | seeClosed moves | finish moves | stay moves =>
    have hidle := moves.countP_add WorkerPhase.countsAsIdle
    simp [WorkerPhase.countsAsIdle] at hidle ⊢
    omega
  | @wake _ _ delivery moves =>
    have hidle := moves.countP_add WorkerPhase.countsAsIdle
    cases delivery <;> simp [WorkerPhase.countsAsIdle, WorkerPhase.ofDelivery] at hidle ⊢ <;> omega
  | retire gone | leave gone =>
    have hidle := gone.countP_eq WorkerPhase.countsAsIdle
    simp [WorkerPhase.countsAsIdle] at hidle ⊢
    omega
  | start => simpa [WorkerPhase.countsAsIdle] using h
  | submit | check | reserve | full | failStart | giveBack | send | refuse | close => exact h

theorem accepted_eq (he : Effect b p e q) (h : p.accepted = p.taken ++ p.queue) :
    q.accepted = q.taken ++ q.queue := by
  cases he with
  | take moves first => rw [h, first, List.append_assoc, List.singleton_append]
  | send => rw [h, List.append_assoc]
  | enter | timeOut | seeClosed | wake | finish | retire | stay | leave | submit | check | reserve
  | full | start | failStart | giveBack | refuse | close => exact h

theorem count_taken (he : Effect b p e q) (job : Nat)
    (h : p.taken.count job = p.workers.countP (WorkerPhase.holds job) + p.ended.count job) :
    q.taken.count job = q.workers.countP (WorkerPhase.holds job) + q.ended.count job := by
  cases he with
  | enter moves | timeOut moves | seeClosed moves | stay moves =>
    have hheld := moves.countP_add (WorkerPhase.holds job)
    simp [WorkerPhase.holds] at hheld ⊢
    omega
  | @take _ _ other _ moves =>
    have hheld := moves.countP_add (WorkerPhase.holds job)
    simp [WorkerPhase.holds, count_one] at hheld ⊢
    omega
  | @wake _ _ delivery moves =>
    have hheld := moves.countP_add (WorkerPhase.holds job)
    cases delivery <;> simp [WorkerPhase.ofDelivery, WorkerPhase.holds] at hheld ⊢ <;> omega
  | @finish _ _ other moves =>
    have hheld := moves.countP_add (WorkerPhase.holds job)
    simp [WorkerPhase.holds, count_one] at hheld ⊢
    omega
  | retire gone | leave gone =>
    have hheld := gone.countP_eq (WorkerPhase.holds job)
    simp [WorkerPhase.holds] at hheld ⊢
    omega
  | start => simpa [WorkerPhase.holds] using h
  | submit | check | reserve | full | failStart | giveBack | send | refuse | close => exact h

/-- Once a worker saw the queue closed, nothing is put into it any more. -/
theorem sawClosed (he : Effect b p e q)
    (h : ∀ phase ∈ p.workers, phase.sawClosed → p.accepting = false ∧ p.queue = []) :
    ∀ phase ∈ q.workers, phase.sawClosed → q.accepting = false ∧ q.queue = [] := by
  intro phase hphase hsaw
  cases he with
  | enter moves | timeOut moves | finish moves | stay moves =>
    rcases moves.eq_or_mem hphase with rfl | hphase
    · cases hsaw
    · exact h phase hphase hsaw
  | take moves first =>
    rcases moves.eq_or_mem hphase with rfl | hphase
    · cases hsaw
    · have hempty := (h phase hphase hsaw).2
      rw [first] at hempty
      cases hempty
  | seeClosed moves empty closed => exact ⟨closed, empty⟩
  | @wake _ _ delivery moves =>
    rcases moves.eq_or_mem hphase with rfl | hphase
    · cases delivery with
      | closed => exact h _ moves.old_mem rfl
      | job | timeout => cases hsaw
    · exact h phase hphase hsaw
  | retire gone | leave gone =>
    exact h phase (gone.mem_iff.2 (List.mem_cons_of_mem _ hphase)) hsaw
  | start =>
    rcases List.mem_append.1 hphase with hphase | hphase
    · exact h phase hphase hsaw
    · obtain rfl := List.mem_singleton.1 hphase
      cases hsaw
  | send gone takes =>
    have hclosed := (h phase hphase hsaw).1
    rw [takes] at hclosed
    cases hclosed
  | submit | check | reserve | full | failStart | giveBack | refuse => exact h phase hphase hsaw
  | close => exact ⟨rfl, (h phase hphase hsaw).2⟩

theorem balanced (he : Effect b p e q) (h : Balanced b p) : Balanced b q where
  threads_eq := he.threads_eq h.threads_eq
  threads_le := he.threads_le h.threads_le
  idle_eq := he.idle_eq h.idle_eq
  accepted_eq := he.accepted_eq h.accepted_eq
  count_taken job := he.count_taken job (h.count_taken job)
  sawClosed := he.sawClosed h.sawClosed

/-- The pool keeps its least number of workers as long as it takes jobs or has some to do, unless a
worker could not be started. -/
theorem least_le (he : Effect b p e q) (hbalanced : Balanced b p)
    (hstarts : ∀ c ∈ p.callers, c.phase ≠ .returning)
    (h : p.accepting = true ∨ p.queue ≠ [] → b.least ≤ p.threads) :
    q.accepting = true ∨ q.queue ≠ [] → b.least ≤ q.threads := by
  cases he with
  | take moves first =>
    intro _
    exact h (.inr (by rw [first]; exact List.cons_ne_nil _ _))
  | retire gone spare =>
    intro _
    exact Int.le_sub_one_of_lt spare
  | leave gone =>
    obtain ⟨hclosed, hempty⟩ :=
      hbalanced.sawClosed .leaving (gone.mem_iff.2 List.mem_cons_self) rfl
    rintro (htakes | hjobs)
    · exact absurd htakes (by simp [hclosed])
    · exact absurd hempty hjobs
  | reserve =>
    intro hneeded
    exact Int.le_trans (h hneeded) (Int.le_add_of_nonneg_right (by decide))
  | giveBack moves => exact absurd rfl (hstarts _ moves.old_mem)
  | send gone takes =>
    intro _
    exact h (.inl takes)
  | close =>
    rintro (htakes | hjobs)
    · cases htakes
    · exact h (.inr hjobs)
  | enter | timeOut | seeClosed | wake | finish | stay | submit | check | full | start | failStart
  | refuse => exact h

end Effect

end WorkerPool

/-- Whether a worker may be found in this phase before any job was handed in. -/
def WorkerPhase.isFresh : WorkerPhase → Bool
  | entering | waiting | woken .timeout | retiring => true
  | _ => false

theorem WorkerPhase.holds_of_isFresh {phase : WorkerPhase} (h : phase.isFresh) (job : Nat) :
    phase.holds job = false := by
  cases phase with
  | woken delivery =>
    cases delivery with
    | job => cases h
    | timeout | closed => rfl
  | running => cases h
  | entering | waiting | retiring | leaving => rfl

theorem WorkerPhase.sawClosed_of_isFresh {phase : WorkerPhase} (h : phase.isFresh) :
    phase.sawClosed = false := by
  cases phase with
  | woken delivery =>
    cases delivery with
    | closed => cases h
    | job | timeout => rfl
  | leaving => cases h
  | entering | waiting | running | retiring => rfl

namespace WorkerPool

variable {b : PoolBounds} {p q : WorkerPool} {e : PoolEvent}

/-- While a pool is made none of its workers ends, since there are never more than the least number. -/
theorem eq_of_forming {tried : Nat} {placed : Bool} {during : List PoolEvent}
    (h : Forming b tried placed during p) : ∃ idle workers,
      p = { threads := (tried + placed.toNat : Nat), idle, workers } ∧
      workers.length = tried ∧ tried + placed.toNat ≤ b.least ∧
      idle = workers.countP WorkerPhase.countsAsIdle ∧ ∀ phase ∈ workers, phase.isFresh := by
  induction h with
  | begin => exact ⟨_, _, rfl, rfl, Nat.zero_le _, rfl, fun _ h => by cases h⟩
  | reserve _ more room ih =>
    obtain ⟨idle, workers, rfl, hlen, -, hidle, hfresh⟩ := ih
    exact ⟨idle, workers, rfl, hlen, more, hidle, hfresh⟩
  | skip _ more noRoom ih =>
    obtain ⟨idle, workers, rfl, -⟩ := ih
    have := b.least_le_most
    simp only [Bool.toNat_false] at noRoom
    omega
  | start _ ih =>
    obtain ⟨idle, workers, rfl, hlen, hle, hidle, hfresh⟩ := ih
    refine ⟨idle, workers ++ [.entering], rfl, by simp [hlen], hle, ?_, fun phase hphase => ?_⟩
    · simpa [WorkerPhase.countsAsIdle] using hidle
    · rcases List.mem_append.1 hphase with hphase | hphase
      · exact hfresh phase hphase
      · obtain rfl := List.mem_singleton.1 hphase
        rfl
  | @work tried placed _ _ e _ _ step ih =>
    obtain ⟨idle, workers, rfl, hlen, hle, hidle, hfresh⟩ := ih
    have heffect := effect_of_workerStep step
    have hidle' := heffect.idle_eq hidle
    cases heffect with
    | enter moves | timeOut moves | stay moves =>
      refine ⟨_, _, rfl, moves.length_eq.trans hlen, hle, hidle', fun phase hphase => ?_⟩
      rcases moves.eq_or_mem hphase with rfl | hphase
      · rfl
      · exact hfresh phase hphase
    | @wake _ _ delivery moves =>
      refine ⟨_, _, rfl, moves.length_eq.trans hlen, hle, hidle', fun phase hphase => ?_⟩
      rcases moves.eq_or_mem hphase with rfl | hphase
      · have hold := hfresh _ moves.old_mem
        cases delivery with
        | timeout => rfl
        | job | closed => cases hold
      · exact hfresh phase hphase
    | take moves first => cases first
    | seeClosed moves empty closed => cases closed
    | finish moves => cases hfresh _ moves.old_mem
    | retire gone spare =>
      simp only at spare
      omega
    | leave gone => cases hfresh _ (gone.mem_iff.2 List.mem_cons_self)
    | submit | check | reserve | full | start | failStart | giveBack | send | refuse | close =>
      cases step

theorem Made.eq_initial {during : List PoolEvent} (h : Made b during p) : ∃ idle workers,
    p = { threads := b.least, idle, workers } ∧ workers.length = b.least ∧
    idle = workers.countP WorkerPhase.countsAsIdle ∧ ∀ phase ∈ workers, phase.isFresh := by
  obtain ⟨idle, workers, hp, hlen, -, hrest⟩ := eq_of_forming h
  exact ⟨idle, workers, hp, hlen, hrest⟩

theorem Made.balanced {during : List PoolEvent} (h : Made b during p) : Balanced b p := by
  obtain ⟨idle, workers, rfl, hlen, hidle, hfresh⟩ := h.eq_initial
  refine ⟨by simp [places, hlen], Int.ofNat_le.2 b.least_le_most, hidle, rfl, fun job => ?_,
    fun phase hphase hsaw => ?_⟩
  · have hnone : workers.countP (WorkerPhase.holds job) = 0 := by
      refine List.countP_eq_zero.2 fun phase hphase => ?_
      rw [WorkerPhase.holds_of_isFresh (hfresh phase hphase)]
      exact Bool.false_ne_true
    exact hnone.symm
  · rw [WorkerPhase.sawClosed_of_isFresh (hfresh phase hphase)] at hsaw
    cases hsaw

/-- No caller gives up a place as long as every worker can be started. -/
theorem Effect.notReturning (he : Effect b p e q) (hstarts : ∀ k, e ≠ .failStart k)
    (h : ∀ c ∈ p.callers, c.phase ≠ .returning) : ∀ c ∈ q.callers, c.phase ≠ .returning := by
  intro c hc
  cases he with
  | submit =>
    rcases List.mem_append.1 hc with hc | hc
    · exact h c hc
    · obtain rfl := List.mem_singleton.1 hc
      exact fun hphase => by cases hphase
  | check moves =>
    rcases moves.eq_or_mem hc with rfl | hc
    · split <;> exact fun hphase => by cases hphase
    · exact h c hc
  | reserve moves | full moves | start moves | giveBack moves =>
    rcases moves.eq_or_mem hc with rfl | hc
    · exact fun hphase => by cases hphase
    · exact h c hc
  | failStart => exact absurd rfl (hstarts _)
  | send gone | refuse gone => exact h c (gone.mem_iff.2 (List.mem_cons_of_mem _ hc))
  | enter | take | timeOut | seeClosed | wake | finish | retire | stay | leave | close => exact h c hc

/-- What holds after every run in which each worker could be started. -/
structure Steady (b : PoolBounds) (p : WorkerPool) : Prop extends Balanced b p where
  notReturning : ∀ c ∈ p.callers, c.phase ≠ .returning
  least_le : p.accepting = true ∨ p.queue ≠ [] → b.least ≤ p.threads

theorem Effect.steady (he : Effect b p e q) (hstarts : ∀ k, e ≠ .failStart k) (h : Steady b p) :
    Steady b q where
  toBalanced := he.balanced h.toBalanced
  notReturning := he.notReturning hstarts h.notReturning
  least_le := he.least_le h.toBalanced h.notReturning h.least_le

theorem Made.steady {during : List PoolEvent} (h : Made b during p) : Steady b p := by
  refine ⟨h.balanced, ?_, ?_⟩
  · obtain ⟨idle, workers, rfl, -⟩ := h.eq_initial
    intro c hc
    cases hc
  · obtain ⟨idle, workers, rfl, -⟩ := h.eq_initial
    intro _
    exact Int.le_refl _

theorem steady_of_run {start : WorkerPool} {during events : List PoolEvent}
    (hmade : Made b during start) (hrun : run b start events = some p)
    (hstarts : ∀ k, .failStart k ∉ events) : Steady b p := by
  have hrule : obeys b (fun _ e => events.contains e) start events :=
    obeys_of_forall (fun e he _ => List.contains_iff_mem.2 he) start
  refine run_induction (fun p e q he hstep h => ?_) hrule hrun hmade.steady
  refine (effect_of_step hstep).steady (fun k hk => hstarts k ?_) h
  exact hk ▸ List.contains_iff_mem.1 he

/-- Every job that entered the queue waits in it, is held by a worker or has ended. -/
theorem Balanced.perm_accepted (h : Balanced b p) :
    p.accepted.Perm (p.queue ++ p.held ++ p.ended) := by
  rw [List.perm_iff_count]
  intro job
  have htaken := h.count_taken job
  have hheld : p.held.count job = p.workers.countP (WorkerPhase.holds job) := by
    rw [held, List.count_filterMap]
    refine List.countP_congr fun phase _ => ?_
    rw [beq_iff_eq]
    exact WorkerPhase.holds?_eq_some_iff
  rw [h.accepted_eq, List.count_append, List.count_append, List.count_append, hheld]
  omega

/-- The pool keeps within its bounds, its counters say what they are for, and every job that it took
is at one place. -/
structure Safe (b : PoolBounds) (p : WorkerPool) : Prop where
  least_le : p.accepting = true → b.least ≤ p.threads
  threads_le : p.threads ≤ b.most
  threads_eq : p.threads = p.workers.length + p.places
  idle_nonneg : 0 ≤ p.idle
  idle_le : p.idle ≤ p.threads
  perm_accepted : p.accepted.Perm (p.queue ++ p.held ++ p.ended)
  accepted_eq : p.accepted = p.taken ++ p.queue
  /-- The owner of a pool that is closed waits until every worker has ended. -/
  shutDown : p.accepting = false → p.callers = [] → p.workers = [] →
    p.ended.Perm p.accepted ∧ p.threads = 0

/-- A pool is safe in whatever order the steps of its workers and callers come, from the time that
it is made, as long as every worker can be started. -/
theorem safe_of_run {start : WorkerPool} {during events : List PoolEvent}
    (hmade : Made b during start) (hrun : run b start events = some p)
    (hstarts : ∀ k, .failStart k ∉ events) : Safe b p := by
  have h := steady_of_run hmade hrun hstarts
  have hidle : p.idle ≤ p.threads := by
    have hcount := List.countP_le_length (p := WorkerPhase.countsAsIdle) (l := p.workers)
    rw [h.idle_eq, h.threads_eq]
    omega
  refine ⟨fun htakes => h.least_le (.inl htakes), h.threads_le, h.threads_eq, ?_, hidle,
    h.perm_accepted, h.accepted_eq, fun _ hcallers hworkers => ?_⟩
  · rw [h.idle_eq]
    exact Int.natCast_nonneg _
  · have hthreads : p.threads = 0 := by
      rw [h.threads_eq, places, hworkers, hcallers]
      rfl
    -- A closed pool keeps its least number of workers as long as jobs wait.
    have hempty : p.queue = [] := by
      by_contra hjobs
      have hleast := h.least_le (.inr hjobs)
      have := b.least_pos
      omega
    have hperm := h.perm_accepted
    rw [hempty, held, hworkers] at hperm
    exact ⟨hperm.symm, hthreads⟩

/-- One worker or two, and two jobs that wait. -/
def oneOrTwo : PoolBounds := ⟨1, 2, 2, by decide, by decide, by decide⟩

/-- The only worker runs a job that panics while two callers come; one of them starts a second
worker and the other one finds no more room. Later the second worker ends because it waited too
long, the first one does not, and the pool is closed. -/
def busyDay : List PoolEvent :=
  [.enter 0, .submit 0, .check 0, .send 0, .take 0, .wake 0, .submit 1, .submit 2, .check 1,
    .check 0, .reserve 0, .reserve 1, .start 0, .enter 1, .send 1, .take 1, .send 0, .finish 0,
    .enter 0, .take 0, .wake 1, .wake 0, .finish 1, .enter 1, .timeOut 1, .wake 1, .retire 1,
    .finish 0, .enter 0, .timeOut 0, .wake 0, .retire 0, .enter 0, .close, .seeClosed 0, .wake 0,
    .leave 0]

theorem safe_of_run_busyDay : Made oneOrTwo [] (initial oneOrTwo) ∧
    (∀ k, .failStart k ∉ busyDay) ∧ ∃ p, run oneOrTwo (initial oneOrTwo) busyDay = some p ∧
      p.accepting = false ∧ p.callers = [] ∧ p.workers = [] ∧ p.accepted = [0, 2, 1] ∧
      Safe oneOrTwo p := by
  have hstarts : ∀ k, .failStart k ∉ busyDay := by simp [busyDay]
  have hrun : run oneOrTwo (initial oneOrTwo) busyDay =
      some
        { threads := 0, idle := 0, workers := [], accepting := false, accepted := [0, 2, 1],
          taken := [0, 2, 1], ended := [0, 2, 1] } := rfl
  exact ⟨made_initial _, hstarts, _, hrun, rfl, rfl, rfl, rfl,
    safe_of_run (made_initial _) hrun hstarts⟩

end WorkerPool

end WordIndex
