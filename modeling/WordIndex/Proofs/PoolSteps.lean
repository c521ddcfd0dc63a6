import Mathlib.Data.List.Perm.Basic
import WordIndex.WorkerPool

/-! # What a step does to a pool, and how a pool comes about

A step is taken by the worker or the caller at some position. What it changes does not depend on
the position: one phase is replaced by another one, or taken away. -/
namespace WordIndex

/-- One list has `new` where the other one has `old`, and is otherwise the same in some order. -/
def Replaces {α : Type} (old new : α) (before after : List α) : Prop :=
  ∃ others, before.Perm (old :: others) ∧ after.Perm (new :: others)

section Replaces
variable {α : Type} {old new : α} {before after : List α}

theorem perm_eraseIdx {i : Nat} (h : before[i]? = some old) :
    before.Perm (old :: before.eraseIdx i) := by
  obtain ⟨hi, rfl⟩ := List.getElem?_eq_some_iff.1 h
  exact (List.getElem_cons_eraseIdx_perm hi).symm

theorem replaces_set {i : Nat} (h : before[i]? = some old) (new : α) :
    Replaces old new before (before.set i new) := by
  obtain ⟨hi, -⟩ := List.getElem?_eq_some_iff.1 h
  exact ⟨before.eraseIdx i, perm_eraseIdx h, List.set_perm_cons_eraseIdx hi new⟩

namespace Replaces

theorem length_eq (h : Replaces old new before after) : after.length = before.length := by
  obtain ⟨others, hbefore, hafter⟩ := h
  rw [hbefore.length_eq, hafter.length_eq, List.length_cons, List.length_cons]

theorem countP_add (h : Replaces old new before after) (p : α → Bool) :
    after.countP p + (p old).toNat = before.countP p + (p new).toNat := by
  obtain ⟨others, hbefore, hafter⟩ := h
  rw [hbefore.countP_eq, hafter.countP_eq, List.countP_cons, List.countP_cons]
  cases p old <;> cases p new <;> simp

theorem old_mem (h : Replaces old new before after) : old ∈ before := by
  obtain ⟨others, hbefore, -⟩ := h
  exact hbefore.mem_iff.2 List.mem_cons_self

theorem eq_or_mem (h : Replaces old new before after) {a : α} (ha : a ∈ after) :
    a = new ∨ a ∈ before := by
  obtain ⟨others, hbefore, hafter⟩ := h
  rcases List.mem_cons.1 (hafter.mem_iff.1 ha) with rfl | ha
  · exact .inl rfl
  · exact .inr (hbefore.mem_iff.2 (List.mem_cons_of_mem _ ha))

end Replaces

end Replaces

namespace WorkerPool

/-- What a step makes of a pool. -/
inductive Effect (b : PoolBounds) (p : WorkerPool) : PoolEvent → WorkerPool → Prop
  | enter {i workers} (moves : Replaces .entering .waiting p.workers workers) :
      Effect b p (.enter i) { p with workers, idle := p.idle + 1 }
  | take {i workers job queue} (moves : Replaces .waiting (.woken (.job job)) p.workers workers)
      (first : p.queue = job :: queue) :
      Effect b p (.take i) { p with workers, queue, taken := p.taken ++ [job] }
  | timeOut {i workers} (moves : Replaces .waiting (.woken .timeout) p.workers workers) :
      Effect b p (.timeOut i) { p with workers }
  | seeClosed {i workers} (moves : Replaces .waiting (.woken .closed) p.workers workers)
      (empty : p.queue = []) (closed : p.accepting = false) :
      Effect b p (.seeClosed i) { p with workers }
  | wake {i workers delivery}
      (moves : Replaces (.woken delivery) (.ofDelivery delivery) p.workers workers) :
      Effect b p (.wake i) { p with workers, idle := p.idle - 1 }
  | finish {i workers job} (moves : Replaces (.running job) .entering p.workers workers) :
      Effect b p (.finish i) { p with workers, ended := p.ended ++ [job] }
  | retire {i workers} (gone : p.workers.Perm (.retiring :: workers))
      (spare : b.least < p.threads) :
      Effect b p (.retire i) { p with workers, threads := p.threads - 1 }
  | stay {i workers} (moves : Replaces .retiring .entering p.workers workers)
      (needed : ¬ b.least < p.threads) : Effect b p (.retire i) { p with workers }
  | leave {i workers} (gone : p.workers.Perm (.leaving :: workers)) :
      Effect b p (.leave i) { p with workers, threads := p.threads - 1 }
  | submit (job : Nat) :
      Effect b p (.submit job) { p with callers := p.callers ++ [⟨job, .checking⟩] }
  | check {k callers job}
      (moves : Replaces ⟨job, .checking⟩ ⟨job, if p.idle = 0 then .reserving else .sending⟩
        p.callers callers) : Effect b p (.check k) { p with callers }
  | reserve {k callers job} (moves : Replaces ⟨job, .reserving⟩ ⟨job, .starting⟩ p.callers callers)
      (room : p.threads < b.most) :
      Effect b p (.reserve k) { p with callers, threads := p.threads + 1 }
  | full {k callers job} (moves : Replaces ⟨job, .reserving⟩ ⟨job, .sending⟩ p.callers callers)
      (noRoom : ¬ p.threads < b.most) : Effect b p (.reserve k) { p with callers }
  | start {k callers job} (moves : Replaces ⟨job, .starting⟩ ⟨job, .sending⟩ p.callers callers) :
      Effect b p (.start k) { p with callers, workers := p.workers ++ [.entering] }
  | failStart {k callers job}
      (moves : Replaces ⟨job, .starting⟩ ⟨job, .returning⟩ p.callers callers) :
      Effect b p (.failStart k) { p with callers }
  | giveBack {k callers job} (moves : Replaces ⟨job, .returning⟩ ⟨job, .sending⟩ p.callers callers) :
      Effect b p (.giveBack k) { p with callers, threads := p.threads - 1 }
  | send {k callers job} (gone : p.callers.Perm (⟨job, .sending⟩ :: callers))
      (takes : p.accepting = true) (room : p.queue.length < b.queueSize) :
      Effect b p (.send k)
        { p with callers, queue := p.queue ++ [job], accepted := p.accepted ++ [job] }
  | refuse {k callers job} (gone : p.callers.Perm (⟨job, .sending⟩ :: callers))
      (closed : p.accepting = false) : Effect b p (.refuse k) { p with callers }
  | close (alone : p.callers = []) : Effect b p .close { p with accepting := false }

variable {b : PoolBounds} {p q : WorkerPool} {e : PoolEvent}

theorem effect_of_workerStep (h : p.workerStep b e = some q) : Effect b p e q := by
  cases e with
  | enter i =>
    obtain ⟨hphase, ⟨⟩⟩ := Option.ite_none_right_eq_some.1 h
    exact .enter (replaces_set hphase _)
  | take i =>
    simp only [workerStep] at h
    split at h
    · next hphase hqueue =>
      obtain rfl := Option.some.inj h
      exact .take (replaces_set hphase _) hqueue
    · cases h
  | timeOut i =>
    obtain ⟨hphase, ⟨⟩⟩ := Option.ite_none_right_eq_some.1 h
    exact .timeOut (replaces_set hphase _)
  | seeClosed i =>
    obtain ⟨⟨hphase, hqueue, hclosed⟩, ⟨⟩⟩ := Option.ite_none_right_eq_some.1 h
    exact .seeClosed (replaces_set hphase _) hqueue (by simpa using hclosed)
  | wake i =>
    simp only [workerStep] at h
    split at h
    · next hphase =>
      obtain rfl := Option.some.inj h
      exact .wake (replaces_set hphase _)
    · cases h
  | finish i =>
    simp only [workerStep] at h
    split at h
    · next hphase =>
      obtain rfl := Option.some.inj h
      exact .finish (replaces_set hphase _)
    · cases h
  | retire i =>
    obtain ⟨hphase, h⟩ := Option.ite_none_right_eq_some.1 h
    split at h
    · next hspare =>
      obtain rfl := Option.some.inj h
      exact .retire (perm_eraseIdx hphase) hspare
    · next hneeded =>
      obtain rfl := Option.some.inj h
      exact .stay (replaces_set hphase _) hneeded
  | leave i =>
    obtain ⟨hphase, ⟨⟩⟩ := Option.ite_none_right_eq_some.1 h
    exact .leave (perm_eraseIdx hphase)
  | submit | check | reserve | start | failStart | giveBack | send | refuse | close => cases h

theorem exists_of_callerPhase? {k : Nat} {phase : CallerPhase} (h : p.callerPhase? k = some phase) :
    ∃ job, p.callers[k]? = some ⟨job, phase⟩ := by
  obtain ⟨⟨job, _⟩, hcaller, rfl⟩ := Option.map_eq_some_iff.1 h
  exact ⟨job, hcaller⟩

theorem replaces_setCaller {k job : Nat} {old : CallerPhase} (h : p.callers[k]? = some ⟨job, old⟩)
    (new : CallerPhase) : Replaces ⟨job, old⟩ ⟨job, new⟩ p.callers (p.setCaller k new).callers := by
  have hset : (p.setCaller k new).callers = p.callers.set k ⟨job, new⟩ := by
    rw [setCaller, List.modify_eq_set_getElem?, h]
    rfl
  rw [hset]
  exact replaces_set h _

theorem effect_of_callerStep (h : p.callerStep b e = some q) : Effect b p e q := by
  cases e with
  | submit job =>
    obtain rfl := Option.some.inj h
    exact .submit job
  | check k =>
    obtain ⟨hphase, ⟨⟩⟩ := Option.ite_none_right_eq_some.1 h
    obtain ⟨job, hcaller⟩ := exists_of_callerPhase? hphase
    exact .check (replaces_setCaller hcaller _)
  | reserve k =>
    obtain ⟨hphase, h⟩ := Option.ite_none_right_eq_some.1 h
    obtain ⟨job, hcaller⟩ := exists_of_callerPhase? hphase
    split at h
    · next hroom =>
      obtain rfl := Option.some.inj h
      exact .reserve (replaces_setCaller hcaller _) hroom
    · next hfull =>
      obtain rfl := Option.some.inj h
      exact .full (replaces_setCaller hcaller _) hfull
  | start k =>
    obtain ⟨hphase, ⟨⟩⟩ := Option.ite_none_right_eq_some.1 h
    obtain ⟨job, hcaller⟩ := exists_of_callerPhase? hphase
    exact .start (replaces_setCaller hcaller _)
  | failStart k =>
    obtain ⟨hphase, ⟨⟩⟩ := Option.ite_none_right_eq_some.1 h
    obtain ⟨job, hcaller⟩ := exists_of_callerPhase? hphase
    exact .failStart (replaces_setCaller hcaller _)
  | giveBack k =>
    obtain ⟨hphase, ⟨⟩⟩ := Option.ite_none_right_eq_some.1 h
    obtain ⟨job, hcaller⟩ := exists_of_callerPhase? hphase
    exact .giveBack (replaces_setCaller hcaller _)
  | send k =>
    simp only [callerStep] at h
    split at h
    · next hcaller =>
      obtain ⟨⟨htakes, hroom⟩, ⟨⟩⟩ := Option.ite_none_right_eq_some.1 h
      exact .send (perm_eraseIdx hcaller) htakes hroom
    · cases h
  | refuse k =>
    obtain ⟨⟨hphase, hclosed⟩, ⟨⟩⟩ := Option.ite_none_right_eq_some.1 h
    obtain ⟨job, hcaller⟩ := exists_of_callerPhase? hphase
    exact .refuse (perm_eraseIdx hcaller) (by simpa using hclosed)
  | enter | take | timeOut | seeClosed | wake | finish | retire | leave | close => cases h

/-- Every step has one of the effects. -/
theorem effect_of_step (h : p.step b e = some q) : Effect b p e q := by
  cases e with
  | close =>
    obtain ⟨hcallers, ⟨⟩⟩ := Option.ite_none_right_eq_some.1 h
    exact .close hcallers
  | submit | check | reserve | start | failStart | giveBack | send | refuse =>
    exact effect_of_callerStep h
  | enter | take | timeOut | seeClosed | wake | finish | retire | leave =>
    exact effect_of_workerStep h

/-- Whether each step of a run is one that a rule allows to the pool in which it is taken. -/
def obeys (b : PoolBounds) (rule : WorkerPool → PoolEvent → Bool) :
    WorkerPool → List PoolEvent → Bool
  | _, [] => true
  | p, e :: rest => rule p e && (p.step b e).all fun q => obeys b rule q rest

theorem obeys_of_forall {rule : WorkerPool → PoolEvent → Bool} {events : List PoolEvent}
    (h : ∀ e ∈ events, ∀ p, rule p e) (p : WorkerPool) : obeys b rule p events := by
  induction events generalizing p with
  | nil => rfl
  | cons e rest ih =>
    rw [obeys, Bool.and_eq_true]
    refine ⟨h e List.mem_cons_self p, ?_⟩
    cases p.step b e with
    | none => rfl
    | some q => exact ih (fun e' he' => h e' (List.mem_cons_of_mem _ he')) q

/-- What holds at the start of a run and is kept by each of its steps holds at its end. -/
theorem run_induction {rule : WorkerPool → PoolEvent → Bool} {I : WorkerPool → Prop}
    (hkeep : ∀ p e q, rule p e → p.step b e = some q → I p → I q) {start : WorkerPool}
    {events : List PoolEvent} (hrule : obeys b rule start events)
    (hrun : run b start events = some q) (hstart : I start) : I q := by
  induction events generalizing start with
  | nil =>
    obtain rfl := Option.some.inj hrun
    exact hstart
  | cons e rest ih =>
    obtain ⟨p, hp, hrest⟩ := Option.bind_eq_some_iff.1 hrun
    rw [obeys, hp, Bool.and_eq_true, Option.all_some] at hrule
    exact ih hrule.2 hrest (hkeep start e p hrule.1 hp hstart)

/-- A pool that is being made: so many workers were tried to be started, and for one more a place is
taken up or not. The workers that were started take their steps meanwhile. -/
inductive Forming (b : PoolBounds) : (tried : Nat) → (placed : Bool) → (during : List PoolEvent) →
    WorkerPool → Prop
  | begin : Forming b 0 false [] { threads := 0, idle := 0, workers := [] }
  | reserve {tried during p} (h : Forming b tried false during p) (more : tried < b.least)
      (room : p.threads < b.most) :
      Forming b tried true during { p with threads := p.threads + 1 }
  | skip {tried during p} (h : Forming b tried false during p) (more : tried < b.least)
      (noRoom : ¬ p.threads < b.most) : Forming b (tried + 1) false during p
  | start {tried during p} (h : Forming b tried true during p) :
      Forming b (tried + 1) false during { p with workers := p.workers ++ [.entering] }
  | work {tried placed during p e q} (h : Forming b tried placed during p)
      (step : p.workerStep b e = some q) : Forming b tried placed (during ++ [e]) q

/-- A pool that is made, and the steps that its workers took meanwhile. -/
def Made (b : PoolBounds) (during : List PoolEvent) (p : WorkerPool) : Prop :=
  Forming b b.least false during p

theorem made_initial (b : PoolBounds) : Made b [] (initial b) := by
  have hforming (n : Nat) (hn : n ≤ b.least) : Forming b n false []
      { threads := n, idle := 0, workers := List.replicate n .entering } := by
    induction n with
    | zero => exact .begin
    | succ n ih =>
      have hroom : (n : Int) < b.most := by
        have := b.least_le_most
        omega
      rw [List.replicate_succ']
      exact .start (.reserve (ih (Nat.le_of_succ_le hn)) hn hroom)
  exact hforming b.least (Nat.le_refl _)

end WorkerPool

end WordIndex
