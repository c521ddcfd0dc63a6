import WordIndex.Proofs.PoolUses

/-! # What there is in a pool that has settled

Each use keeps what is true of a pool that takes jobs, or of one that was closed. So the tally of the
uses says how many workers and jobs there are, in whatever order the workers took their steps. -/
namespace WordIndex

namespace WorkerPool

variable {b : PoolBounds} {p q : WorkerPool} {e : PoolEvent} {events : List PoolEvent}

/-! ## Handing in a job -/

theorem replaces_singleton_iff {α : Type} {old new a : α} {after : List α} :
    Replaces old new [a] after ↔ a = old ∧ after = [new] := by
  constructor
  · rintro ⟨others, hbefore, hafter⟩
    obtain ⟨rfl, rfl⟩ := List.cons_eq_cons.1 (List.perm_singleton.1 hbefore.symm)
    exact ⟨rfl, List.perm_singleton.1 hafter⟩
  · rintro ⟨rfl, rfl⟩
    exact ⟨[], .refl _, .refl _⟩

/-- How many workers a settled pool has once a job was handed in to it. -/
def grown (b : PoolBounds) (p : WorkerPool) : Int :=
  if p.idle = 0 ∧ p.threads < b.most then p.threads + 1 else p.threads

/-- What a caller is about to do that has not started a worker nor sent its job, and how many
workers there are then. -/
inductive Early (b : PoolBounds) (p : WorkerPool) : CallerPhase → Int → Prop
  | checking : Early b p .checking p.threads
  | reserving (busy : p.idle = 0) : Early b p .reserving p.threads
  | starting (busy : p.idle = 0) (room : p.threads < b.most) : Early b p .starting (p.threads + 1)

/-- How far a caller has come that hands in a job to a settled pool. At first the workers have
nothing to do. -/
inductive Stage (b : PoolBounds) (p : WorkerPool) (job : Nat) : WorkerPool → Prop
  | early {phase threads} (early : Early b p phase threads) :
      Stage b p job { p with callers := [⟨job, phase⟩], threads }
  | late {q : WorkerPool} (threads : q.threads = grown b p) (takes : q.accepting = true)
      (ended : q.ended = p.ended)
      (sends : q.callers = [⟨job, .sending⟩] ∧ q.accepted = p.accepted ∨
        q.callers = [] ∧ q.accepted = p.accepted ++ [job]) : Stage b p job q

variable {r : WorkerPool} {job : Nat}

theorem Early.step {phase : CallerPhase} {threads : Int} (h : Early b p phase threads)
    (hp : Settled p) (htakes : p.accepting = true)
    (he : Effect b { p with callers := [⟨job, phase⟩], threads } e r)
    (hone : e.isMove || e.isCall) : Stage b p job r := by
  have hnot := hp.not_move he rfl rfl htakes
  rw [hnot, Bool.false_or] at hone
  cases he with
  | check moves =>
    obtain ⟨⟨⟩, rfl⟩ := replaces_singleton_iff.1 moves
    cases h
    by_cases hidle : p.idle = 0
    · simp only [if_pos hidle]
      exact .early (.reserving hidle)
    · simp only [if_neg hidle]
      exact .late (if_neg fun h => hidle h.1).symm htakes rfl (.inl ⟨rfl, rfl⟩)
  | reserve moves room =>
    obtain ⟨⟨⟩, rfl⟩ := replaces_singleton_iff.1 moves
    cases h with
    | reserving busy => exact .early (.starting busy room)
  | full moves noRoom =>
    obtain ⟨⟨⟩, rfl⟩ := replaces_singleton_iff.1 moves
    cases h with
    | reserving busy => exact .late (if_neg fun h => noRoom h.2).symm htakes rfl (.inl ⟨rfl, rfl⟩)
  | start moves =>
    obtain ⟨⟨⟩, rfl⟩ := replaces_singleton_iff.1 moves
    cases h with
    | starting busy room =>
      exact .late (if_pos ⟨busy, room⟩).symm htakes rfl (.inl ⟨rfl, rfl⟩)
  | send gone | refuse gone =>
    cases List.singleton_perm.1 gone
    cases h
  | enter | take | timeOut | seeClosed | wake | finish | retire | stay | leave | submit | failStart
  | giveBack | close => cases hone

theorem Stage.step (h : Stage b p job q) (hp : Settled p) (htakes : p.accepting = true)
    (hbalanced : Balanced b q) (he : Effect b q e r) (hone : e.isMove || e.isCall) :
    Stage b p job r := by
  cases h with
  | early early => exact early.step hp htakes he hone
  | late threads takes ended sends =>
    by_cases hmove : e.isMove
    · have hthreads := he.threads_eq_of_isMove hmove hbalanced takes
      have hcallers := he.callers_eq_of_isMove hmove
      have haccepting := he.accepting_eq_of_ne_close (by rintro rfl; cases hmove)
      have haccepted := he.accepted_eq_of_ne_send (by rintro k rfl; cases hmove)
      have hended := he.ended_eq_of_ne_finish (by rintro i rfl; cases hmove)
      refine .late (hthreads.trans threads) (haccepting.trans takes) (hended.trans ended) ?_
      rwa [hcallers, haccepted]
    · have hsending {caller : Caller} (hcaller : caller ∈ q.callers) :
          caller = ⟨job, .sending⟩ ∧ q.callers = [caller] ∧ q.accepted = p.accepted := by
        rcases sends with ⟨hcallers, haccepted⟩ | ⟨hcallers, -⟩
        · rw [hcallers, List.mem_singleton] at hcaller
          exact ⟨hcaller, hcaller ▸ hcallers, haccepted⟩
        · rw [hcallers] at hcaller
          cases hcaller
      cases he with
      | check moves | reserve moves | full moves | start moves =>
        cases (hsending moves.old_mem).1
      | send gone =>
        obtain ⟨⟨⟩, hcallers, haccepted⟩ := hsending (gone.mem_iff.2 List.mem_cons_self)
        rw [hcallers] at gone
        cases List.singleton_perm.1 gone
        exact .late threads takes ended (.inr ⟨rfl, by rw [haccepted]⟩)
      | refuse gone closed =>
        rw [takes] at closed
        cases closed
      | enter | take | seeClosed | wake | leave => exact absurd rfl hmove
      | timeOut | finish | retire | stay | submit | failStart | giveBack | close => cases hone

/-! ## Pools that take jobs -/

variable {t : PoolTally}

/-- What holds of a pool that takes jobs after it was put to some uses. -/
structure Opened (b : PoolBounds) (t : PoolTally) (p : WorkerPool) : Prop where
  steady : Steady b p
  settled : Settled p
  takes : p.accepting = true
  notClosed : t.closed = false
  threads_eq : p.threads = t.threads b
  accepted_eq : p.accepted = List.range t.submitted
  submitted_eq : t.submitted = p.ended.length + t.unfinished
  unfinished_le : t.unfinished ≤ t.peak
  all_accepted : t.accepted = t.submitted

namespace Opened

variable (h : Opened b t p)
include h

theorem length_queue_add : p.queue.length + p.running.length = t.unfinished := by
  have hlen := h.settled.length_accepted h.steady.toBalanced
  rw [h.accepted_eq, List.length_range, h.submitted_eq] at hlen
  omega

theorem length_running : p.running.length = min (t.threads b) t.unfinished := by
  have hqueue := h.length_queue_add
  have hworkers := h.settled.threads_eq_length h.steady.toBalanced
  have hcount := h.settled.length_running_add_countP
  rw [h.threads_eq] at hworkers
  rcases h.settled.queue_eq_or_length_running with hempty | hbusy
  · rw [hempty, List.length_nil] at hqueue
    omega
  · omega

theorem idle_eq : p.idle = t.threads b - p.running.length := by
  have hworkers := h.settled.threads_eq_length h.steady.toBalanced
  have hcount := h.settled.length_running_add_countP
  rw [h.threads_eq] at hworkers
  rw [h.steady.idle_eq]
  omega

theorem toOpen : Open b t p where
  accepting := h.takes
  threads_eq := h.threads_eq
  length_running := h.length_running
  idle_eq := h.idle_eq
  length_queue_add := h.length_queue_add
  started := by rw [← h.steady.accepted_eq, h.accepted_eq]
  placed := by
    have hperm := h.steady.perm_accepted.symm
    rwa [h.settled.held_eq, h.accepted_eq] at hperm

/-- A worker is started for a job when all workers are busy, and then there are as many workers as
unfinished jobs, or as many as there may be. -/
theorem grown_eq : grown b p = (t.after .submit).threads b := by
  have hidle := h.idle_eq
  have hrunning := h.length_running
  have hle := h.unfinished_le
  have hbounds := b.least_le_most
  have hthreads := h.threads_eq
  simp only [PoolTally.after, h.notClosed, Bool.false_eq_true, if_false, PoolTally.threads]
    at hidle hrunning hthreads ⊢
  by_cases hgrows : p.idle = 0 ∧ p.threads < b.most
  · rw [grown, if_pos hgrows]
    omega
  · rw [grown, if_neg hgrows]
    omega

theorem submit {events : List PoolEvent} (hs : Submits b t.submitted events p q) :
    Opened b (t.after .submit) q := by
  obtain ⟨first, hfirst, hrun⟩ := Option.bind_eq_some_iff.1 hs.run
  obtain rfl := Option.some.inj hfirst
  have hcallers : p.callers ++ [⟨t.submitted, .checking⟩] = [⟨t.submitted, .checking⟩] := by
    rw [h.settled.callers, List.nil_append]
  rw [hcallers] at hfirst hrun
  have hsteady : Steady b { p with callers := [⟨t.submitted, .checking⟩] } :=
    hcallers ▸ (Effect.submit t.submitted).steady (fun k => by rintro ⟨⟩) h.steady
  have hstage : Stage b p t.submitted { p with callers := [⟨t.submitted, .checking⟩] } :=
    .early .checking
  have hq := hsteady.of_run hrun fun k hk => by cases hs.moves _ hk
  obtain ⟨-, hstage⟩ := run_keeps (I := fun q => Balanced b q ∧ Stage b p t.submitted q)
    (fun r e s hmem he hr => ⟨he.balanced hr.1,
      hr.2.step h.settled h.takes hr.1 he (hs.moves e hmem)⟩) hrun ⟨hsteady.toBalanced, hstage⟩
  have hafter : t.after .submit = { t with
      submitted := t.submitted + 1, accepted := t.accepted + 1,
      unfinished := t.unfinished + 1, peak := max t.peak (t.unfinished + 1) } := by
    simp only [PoolTally.after, h.notClosed, Bool.false_eq_true, if_false]
  cases hstage with
  | early => cases hs.settled.callers
  | late threads takes ended sends =>
    rcases sends with ⟨hcallers, -⟩ | ⟨-, haccepted⟩
    · cases hcallers.symm.trans hs.settled.callers
    · refine ⟨hq, hs.settled, takes, ?_, threads.trans h.grown_eq, ?_, ?_, ?_, ?_⟩
      · rw [hafter]
        exact h.notClosed
      · rw [haccepted, h.accepted_eq, hafter, List.range_succ]
      · rw [hafter, ended, h.submitted_eq, Nat.add_assoc]
      · rw [hafter]
        exact Nat.le_max_right _ _
      · rw [hafter, h.all_accepted]

theorem finish {i : Nat} {events : List PoolEvent}
    (hrun : run b p (.finish i :: events) = some q) (hmoves : ∀ e ∈ events, e.isMove)
    (hsettled : Settled q) : Opened b (t.after .finish) q := by
  obtain ⟨r, hr, hrest⟩ := Option.bind_eq_some_iff.1 hrun
  have he := effect_of_step hr
  have hsteady := he.steady (by rintro k ⟨⟩) h.steady
  have hq := hsteady.of_run hrest fun k hk => by cases hmoves _ hk
  have haccepting := accepting_eq_of_run hrest fun hk => by cases hmoves _ hk
  have haccepted := accepted_eq_of_run hrest fun k hk => by cases hmoves _ hk
  have hendedRest := ended_eq_of_run hrest fun i hi => by cases hmoves _ hi
  have hthreads := threads_eq_of_run hrest hmoves hsteady.toBalanced
  cases he with
  | @finish _ workers job moves =>
    have hpos : 0 < t.unfinished := by
      have hrunning : job ∈ p.running := List.mem_filterMap.2 ⟨_, moves.old_mem, rfl⟩
      have := List.length_pos_of_mem hrunning
      have := h.length_queue_add
      omega
    have hended : q.ended.length = p.ended.length + 1 := by
      rw [hendedRest, List.length_append, List.length_singleton]
    refine ⟨hq, hsettled, haccepting.trans h.takes, h.notClosed,
      (hthreads h.takes).trans h.threads_eq, haccepted.trans h.accepted_eq, ?_,
      Nat.le_trans (Nat.sub_le _ _) h.unfinished_le, h.all_accepted⟩
    have := h.submitted_eq
    simp only [PoolTally.after]
    omega

theorem finishNone (hnone : p.running = []) : Opened b (t.after .finish) p := by
  have hzero : t.unfinished = 0 := by
    have hrunning := h.length_running
    have := b.least_pos
    rw [hnone, List.length_nil, PoolTally.threads] at hrunning
    omega
  have hsame : t.unfinished - 1 = t.unfinished := by omega
  rwa [PoolTally.after, hsame]

/-- The jobs that ran go on, so no more workers end than were idle. When none of them is to spare,
there are as many as there are unfinished jobs, within the bounds. -/
theorem shrink {events : List PoolEvent} (hrun : run b p events = some q)
    (hmoves : ∀ e ∈ events, e.isMove || e.isTimeOut) (hsettled : Settled q)
    (hnoneSpare : q.threads ≤ b.least ∨ q.idle = 0) : Opened b (t.after .shrink) q := by
  have hq := h.steady.of_run hrun fun k hk => by cases hmoves _ hk
  have htakes := (accepting_eq_of_run hrun fun hk => by cases hmoves _ hk).trans h.takes
  have haccepted := accepted_eq_of_run hrun fun k hk => by cases hmoves _ hk
  have hended := ended_eq_of_run hrun fun i hi => by cases hmoves _ hi
  have hqueue := length_queue_le_of_run hrun fun k hk => by cases hmoves _ hk
  have hthreads := threads_le_of_run hrun hmoves
  have hjobs : q.queue.length + q.running.length = t.unfinished := by
    have hlen := hsettled.length_accepted hq.toBalanced
    rw [haccepted, h.accepted_eq, List.length_range, h.submitted_eq, hended] at hlen
    omega
  refine ⟨hq, hsettled, htakes, h.notClosed, ?_, haccepted.trans h.accepted_eq,
    hended ▸ h.submitted_eq, Nat.le_refl _, h.all_accepted⟩
  have hrunning : min (t.threads b) t.unfinished ≤ q.running.length := by
    rw [← h.length_running]
    have := h.length_queue_add
    omega
  have hworkers := hsettled.threads_eq_length hq.toBalanced
  have hcount := hsettled.length_running_add_countP
  have hidle := hq.idle_eq
  have hleast := hq.least_le (.inl htakes)
  have hmost := b.least_le_most
  have hpeak := h.unfinished_le
  rw [h.threads_eq] at hthreads
  simp only [PoolTally.threads, PoolTally.after] at hrunning hthreads ⊢
  omega

end Opened

/-! ## Pools that were closed -/

/-- What holds of a pool that was closed after it was put to some uses. -/
structure Closed (b : PoolBounds) (t : PoolTally) (p : WorkerPool) : Prop where
  steady : Steady b p
  callers : p.callers = []
  workers : p.workers = []
  takesNone : p.accepting = false
  isClosed : t.closed = true
  accepted_eq : p.accepted = List.range t.accepted

theorem closed_of_shutDown (hp : Steady b p) (hjobs : p.accepted = List.range t.accepted)
    {events : List PoolEvent} (hrun : run b p events = some q)
    (hmoves : ∀ e ∈ events, e.isMove || e.isFinish || e == .close) (hsettled : Settled q)
    (hclosed : q.accepting = false) (hleft : q.workers = []) : Closed b (t.after .shutDown) q := by
  have hq := hp.of_run hrun fun k hk => by cases hmoves _ hk
  have haccepted := accepted_eq_of_run hrun fun k hk => by cases hmoves _ hk
  exact ⟨hq, hsettled.callers, hleft, hclosed, rfl, haccepted.trans hjobs⟩

namespace Closed

variable (h : Closed b t p)
include h

theorem threads_eq : p.threads = 0 := by
  rw [h.steady.threads_eq, places, h.workers, h.callers]
  rfl

theorem idle_eq : p.idle = 0 := by
  rw [h.steady.idle_eq, h.workers]
  rfl

/-- A pool keeps its least number of workers as long as jobs wait. -/
theorem queue_eq : p.queue = [] := by
  by_contra hjobs
  have hleast := h.steady.least_le (.inr hjobs)
  have hthreads := h.threads_eq
  have := b.least_pos
  omega

theorem running_eq : p.running = [] := by
  rw [running, h.workers]
  rfl

theorem ended_perm : p.ended.Perm p.accepted := by
  have hperm := h.steady.perm_accepted
  rw [h.queue_eq, held, h.workers] at hperm
  exact hperm.symm

theorem taken_eq : p.taken = p.accepted := by
  have haccepted := h.steady.accepted_eq
  rw [h.queue_eq, List.append_nil] at haccepted
  exact haccepted.symm

/-- Only the jobs are left of a closed pool. -/
theorem eq_jobs : p =
    { threads := 0, idle := 0, workers := [], accepting := false, accepted := p.accepted,
      taken := p.accepted, ended := p.ended } := by
  have hqueue := h.queue_eq
  have htaken := h.taken_eq
  have hidle := h.idle_eq
  have hthreads := h.threads_eq
  obtain ⟨-, hcallers, hworkers, htakesNone, -, -⟩ := h
  cases p
  simp_all

theorem finish : Closed b (t.after .finish) p :=
  ⟨h.steady, h.callers, h.workers, h.takesNone, h.isClosed, h.accepted_eq⟩

theorem of_run {events : List PoolEvent} (hrun : run b p events = some q)
    (hstarts : ∀ k, .failStart k ∉ events) (hcloses : .close ∉ events)
    (hends : ∀ i, .finish i ∉ events) (hsettled : Settled q) :
    Closed b t q ∧ q.accepted = p.accepted ∧ q.ended = p.ended := by
  have hq := h.steady.of_run hrun hstarts
  have htakesNone := (accepting_eq_of_run hrun hcloses).trans h.takesNone
  have haccepted := accepted_eq_of_closed hrun hcloses h.takesNone
  have hended := ended_eq_of_run hrun hends
  have hlen := hsettled.length_accepted hq.toBalanced
  have hall := h.ended_perm.length_eq
  rw [haccepted, hended] at hlen
  have hdone : q.running = [] := List.length_eq_zero_iff.1 (by omega)
  exact ⟨⟨hq, hsettled.callers, hsettled.workers_eq_nil htakesNone hdone, htakesNone, h.isClosed,
    haccepted.trans h.accepted_eq⟩, haccepted, hended⟩

/-- No worker is left that waits. -/
theorem shrink {events : List PoolEvent} (hrun : run b p events = some q)
    (hmoves : ∀ e ∈ events, e.isMove || e.isTimeOut) (hsettled : Settled q) :
    Closed b (t.after .shrink) q := by
  obtain ⟨hclosed, -⟩ := h.of_run hrun (fun k hk => by cases hmoves _ hk)
    (fun hk => by cases hmoves _ hk) (fun i hi => by cases hmoves _ hi) hsettled
  exact ⟨hclosed.steady, hclosed.callers, hclosed.workers, hclosed.takesNone, hclosed.isClosed,
    hclosed.accepted_eq⟩

variable {job : Nat} {events : List PoolEvent}

/-- A worker that is started for a job that is handed in too late sees the queue closed and ends. -/
theorem eq_of_submits (hs : Submits b job events p q) : q = p := by
  have hmoves : ∀ e ∈ .submit job :: events, e.isMove || e.isCall || e == .submit job := by
    refine List.forall_mem_cons.2 ⟨by simp, fun e he => ?_⟩
    rw [hs.moves e he]
    rfl
  obtain ⟨hclosed, haccepted, hended⟩ := h.of_run hs.run (fun k hk => by cases hmoves _ hk)
    (fun hk => by cases hmoves _ hk) (fun i hi => by cases hmoves _ hi) hs.settled
  have hjobs := hclosed.eq_jobs
  rw [haccepted, hended] at hjobs
  exact hjobs.trans h.eq_jobs.symm

/-- A caller goes away only when its job is refused. -/
theorem refusal_of_submits (hs : Submits b job events p q) : refusal events = some .shutDown := by
  rw [refusal]
  by_contra hnot
  have hnone : ∀ e ∈ events, (e.isMove || e.isCall) && !e.isRefusal := by
    intro e he
    rw [hs.moves e he, Bool.true_and, Bool.not_eq_true']
    by_contra hrefusal
    exact hnot (if_pos (List.any_eq_true.2 ⟨e, he, by simpa using hrefusal⟩))
  have hstays (r : WorkerPool) (e : PoolEvent) (s : WorkerPool)
      (hone : (e.isMove || e.isCall) && !e.isRefusal) (he : Effect b r e s)
      (htakesNone : r.accepting = false) : s.callers.length = r.callers.length := by
    cases he with
    | check moves | reserve moves | full moves | start moves => exact moves.length_eq
    | send gone takes =>
      rw [htakesNone] at takes
      cases takes
    | enter | take | timeOut | seeClosed | wake | finish | retire | stay | leave | close => rfl
    | submit | failStart | giveBack | refuse => cases hone
  obtain ⟨first, hfirst, hrun⟩ := Option.bind_eq_some_iff.1 hs.run
  obtain rfl := Option.some.inj hfirst
  obtain ⟨-, hcallers⟩ := run_keeps (I := fun q => q.accepting = false ∧ q.callers.length = 1)
    (fun r e s hmem he hr => ⟨(he.accepting_eq_of_ne_close fun hk => by
      cases hk ▸ hnone e hmem).trans hr.1, (hstays r e s (hnone e hmem) he hr.1).trans hr.2⟩)
    hrun ⟨h.takesNone, by simp [h.callers]⟩
  rw [hs.settled.callers] at hcallers
  cases hcallers

theorem toShut : Shut b t p where
  accepting := h.takesNone
  threads_eq := h.threads_eq
  idle_eq := h.idle_eq
  running_eq := h.running_eq
  queue_eq := h.queue_eq
  ended := h.accepted_eq ▸ h.ended_perm
  refuses _ _ _ hs := ⟨h.eq_of_submits hs, .shutDown, h.refusal_of_submits hs, rfl⟩

end Closed

/-! ## Any uses -/

theorem Made.opened {during : List PoolEvent} (h : Made b during p) (hsettled : Settled p) :
    Opened b {} p := by
  have hsteady := h.steady
  obtain ⟨idle, workers, rfl, -⟩ := h.eq_initial
  have hleast : PoolTally.threads b {} = b.least := by
    rw [PoolTally.threads, Nat.min_zero, Nat.max_zero]
  exact ⟨hsteady, hsettled, rfl, rfl, by rw [hleast], rfl, rfl, Nat.le_refl _, rfl⟩

theorem Used.opened_or_closed {uses : List PoolUse} (h : Used b uses p) :
    Opened b (.ofUses uses) p ∨ Closed b (.ofUses uses) p := by
  induction h with
  | made made settled => exact .inl (made.opened settled)
  | submit _ submits ih =>
    rw [PoolTally.ofUses_concat]
    rcases ih with ih | ih
    · exact .inl (ih.submit submits)
    · right
      rw [PoolTally.after, if_pos ih.isClosed, ih.eq_of_submits submits]
      exact ⟨ih.steady, ih.callers, ih.workers, ih.takesNone, ih.isClosed, ih.accepted_eq⟩
  | finish _ lowest _ run moves settled ih =>
    rw [PoolTally.ofUses_concat]
    refine ih.imp (fun ih => ih.finish run moves settled) fun ih => ?_
    rw [ih.running_eq] at lowest
    cases lowest
  | finishNone _ none ih =>
    rw [PoolTally.ofUses_concat]
    exact ih.imp (·.finishNone none) (·.finish)
  | shrink _ run moves settled noneSpare ih =>
    rw [PoolTally.ofUses_concat]
    exact ih.imp (·.shrink run moves settled noneSpare) (·.shrink run moves settled)
  | shutDown _ run moves settled closed left ih =>
    rw [PoolTally.ofUses_concat]
    right
    rcases ih with ih | ih
    · refine closed_of_shutDown ih.steady ?_ run moves settled closed left
      rw [ih.accepted_eq, ih.all_accepted]
    · exact closed_of_shutDown ih.steady ih.accepted_eq run moves settled closed left

theorem Used.steady {uses : List PoolUse} (h : Used b uses p) : Steady b p :=
  h.opened_or_closed.elim (·.steady) (·.steady)

theorem Used.settled {uses : List PoolUse} (h : Used b uses p) : Settled p := by
  rcases h.opened_or_closed with h | h
  · exact h.settled
  · exact ⟨h.callers, fun phase hphase => by rw [h.workers] at hphase; cases hphase⟩

/-- What there is in a pool that has settled follows from the uses to which it was put. -/
theorem Used.open_or_shut {uses : List PoolUse} (h : Used b uses p) :
    ((PoolTally.ofUses uses).closed = false → Open b (.ofUses uses) p) ∧
      ((PoolTally.ofUses uses).closed = true → Shut b (.ofUses uses) p) := by
  rcases h.opened_or_closed with h | h
  · refine ⟨fun _ => h.toOpen, fun hclosed => ?_⟩
    cases h.notClosed.symm.trans hclosed
  · refine ⟨fun hclosed => ?_, fun _ => h.toShut⟩
    cases h.isClosed.symm.trans hclosed

end WorkerPool

end WordIndex
