/-! # A pool of workers that grows and shrinks between two bounds

Workers take jobs from a bounded queue. A job that is handed in while no worker is idle starts a
new worker, up to the upper bound; a worker that waits too long ends, down to the lower one. Each
event is one atomic step of one worker or of one caller, so a run of events is an interleaving of
what they do. -/
namespace WordIndex

inductive PoolFault
  | invalidBounds (least most : Nat)
  | shutDown
  deriving DecidableEq

namespace PoolFault

def message : PoolFault → String
  | invalidBounds least most => s!"thread bounds {least}..{most} are invalid"
  | shutDown => "thread pool is shut down"

end PoolFault

/-- The bounds of a pool: how many workers it has at least and at most, and how many jobs wait. -/
structure PoolBounds where
  least : Nat
  most : Nat
  queueSize : Nat
  least_pos : 0 < least
  least_le_most : least ≤ most
  queueSize_pos : 0 < queueSize

namespace PoolBounds

/-- Checks bounds. At least one job can wait. -/
def ofCounts (least most queueSize : Nat) : Except PoolFault PoolBounds :=
  if h : 0 < least ∧ least ≤ most then
    .ok ⟨least, most, max queueSize 1, h.1, h.2, Nat.le_max_right _ _⟩
  else .error (.invalidBounds least most)

end PoolBounds

inductive Delivery
  | job (job : Nat)
  | timeout
  | closed
  deriving DecidableEq

/-- What a worker is about to do. -/
inductive WorkerPhase
  /-- To count itself as idle. -/
  | entering
  /-- To get a job. -/
  | waiting
  /-- To count itself as idle no more. -/
  | woken (delivery : Delivery)
  /-- To end its job. -/
  | running (job : Nat)
  /-- To end if the pool has workers to spare. -/
  | retiring
  /-- To end. -/
  | leaving
  deriving DecidableEq

namespace WorkerPhase

def ofDelivery : Delivery → WorkerPhase
  | .job job => running job
  | .timeout => retiring
  | .closed => leaving

def runs? : WorkerPhase → Option Nat
  | running job => some job
  | _ => none

/-- The job that a worker holds. -/
def holds? : WorkerPhase → Option Nat
  | running job | woken (.job job) => some job
  | _ => none

end WorkerPhase

/-- What a caller that hands in a job is about to do. -/
inductive CallerPhase
  /-- To look whether a worker is idle. -/
  | checking
  /-- To take up a place for a new worker if there is one. -/
  | reserving
  /-- To start a worker in the place taken up. -/
  | starting
  /-- To give up the place of a worker that did not start. -/
  | returning
  /-- To put the job into the queue. -/
  | sending
  deriving DecidableEq

structure Caller where
  job : Nat
  phase : CallerPhase
  deriving DecidableEq

/-- A pool. The two counters are raised and lowered by themselves, apart from what they count. -/
structure WorkerPool where
  /-- The counter of workers, and of places taken up for them. -/
  threads : Int
  idle : Int
  workers : List WorkerPhase
  callers : List Caller := []
  queue : List Nat := []
  accepting : Bool := true
  /-- The jobs that entered the queue, in order. -/
  accepted : List Nat := []
  /-- The jobs that left the queue, in order. -/
  taken : List Nat := []
  ended : List Nat := []
  deriving DecidableEq

/-- An atomic step of the worker or the caller at a position, or of the pool's owner. -/
inductive PoolEvent
  | enter (worker : Nat)
  | take (worker : Nat)
  | timeOut (worker : Nat)
  | seeClosed (worker : Nat)
  | wake (worker : Nat)
  | finish (worker : Nat)
  | retire (worker : Nat)
  | leave (worker : Nat)
  | submit (job : Nat)
  | check (caller : Nat)
  | reserve (caller : Nat)
  | start (caller : Nat)
  | failStart (caller : Nat)
  | giveBack (caller : Nat)
  | send (caller : Nat)
  | refuse (caller : Nat)
  | close
  deriving DecidableEq

namespace WorkerPool

def initial (b : PoolBounds) : WorkerPool where
  threads := b.least
  idle := 0
  workers := List.replicate b.least .entering

def setWorker (p : WorkerPool) (i : Nat) (phase : WorkerPhase) : WorkerPool :=
  { p with workers := p.workers.set i phase }

def endWorker (p : WorkerPool) (i : Nat) : WorkerPool :=
  { p with workers := p.workers.eraseIdx i }

def setCaller (p : WorkerPool) (k : Nat) (phase : CallerPhase) : WorkerPool :=
  { p with callers := p.callers.modify k ({ · with phase }) }

def endCaller (p : WorkerPool) (k : Nat) : WorkerPool :=
  { p with callers := p.callers.eraseIdx k }

def callerPhase? (p : WorkerPool) (k : Nat) : Option CallerPhase := p.callers[k]?.map (·.phase)

/-- A step of the worker at a position, if it can be taken. A job is got in the order in which the
jobs were put in; only when there is none is the queue seen closed. A wait can be too long at any
time. A job that panics ends like any other one. -/
def workerStep (b : PoolBounds) (p : WorkerPool) : PoolEvent → Option WorkerPool
  | .enter i =>
    if p.workers[i]? = some .entering then
      some { p.setWorker i .waiting with idle := p.idle + 1 }
    else none
  | .take i =>
    match p.workers[i]?, p.queue with
    | some .waiting, job :: queue =>
      some { p.setWorker i (.woken (.job job)) with queue, taken := p.taken ++ [job] }
    | _, _ => none
  | .timeOut i =>
    if p.workers[i]? = some .waiting then some (p.setWorker i (.woken .timeout)) else none
  | .seeClosed i =>
    if p.workers[i]? = some .waiting ∧ p.queue = [] ∧ !p.accepting then
      some (p.setWorker i (.woken .closed))
    else none
  | .wake i =>
    match p.workers[i]? with
    | some (.woken delivery) =>
      some { p.setWorker i (.ofDelivery delivery) with idle := p.idle - 1 }
    | _ => none
  | .finish i =>
    match p.workers[i]? with
    | some (.running job) => some { p.setWorker i .entering with ended := p.ended ++ [job] }
    | _ => none
  | .retire i =>
    if p.workers[i]? = some .retiring then
      if b.least < p.threads then some { p.endWorker i with threads := p.threads - 1 }
      else some (p.setWorker i .entering)
    else none
  | .leave i =>
    if p.workers[i]? = some .leaving then some { p.endWorker i with threads := p.threads - 1 }
    else none
  | _ => none

/-- A step of the caller at a position, if it can be taken. A job is put in once there is room. -/
def callerStep (b : PoolBounds) (p : WorkerPool) : PoolEvent → Option WorkerPool
  | .submit job => some { p with callers := p.callers ++ [⟨job, .checking⟩] }
  | .check k =>
    if p.callerPhase? k = some .checking then
      some (p.setCaller k (if p.idle = 0 then .reserving else .sending))
    else none
  | .reserve k =>
    if p.callerPhase? k = some .reserving then
      if p.threads < b.most then some { p.setCaller k .starting with threads := p.threads + 1 }
      else some (p.setCaller k .sending)
    else none
  | .start k =>
    if p.callerPhase? k = some .starting then
      some { p.setCaller k .sending with workers := p.workers ++ [.entering] }
    else none
  | .failStart k =>
    if p.callerPhase? k = some .starting then some (p.setCaller k .returning) else none
  | .giveBack k =>
    if p.callerPhase? k = some .returning then
      some { p.setCaller k .sending with threads := p.threads - 1 }
    else none
  | .send k =>
    match p.callers[k]? with
    | some ⟨job, .sending⟩ =>
      if p.accepting ∧ p.queue.length < b.queueSize then
        some { p.endCaller k with queue := p.queue ++ [job], accepted := p.accepted ++ [job] }
      else none
    | _ => none
  | .refuse k =>
    if p.callerPhase? k = some .sending ∧ !p.accepting then some (p.endCaller k) else none
  | _ => none

/-- A step, if it can be taken. The pool is closed when no caller is left. -/
def step (b : PoolBounds) (p : WorkerPool) (e : PoolEvent) : Option WorkerPool :=
  match e with
  | .close => if p.callers = [] then some { p with accepting := false } else none
  | .submit _ | .check _ | .reserve _ | .start _ | .failStart _ | .giveBack _ | .send _
  | .refuse _ => p.callerStep b e
  | _ => p.workerStep b e

def running (p : WorkerPool) : List Nat := p.workers.filterMap WorkerPhase.runs?

def held (p : WorkerPool) : List Nat := p.workers.filterMap WorkerPhase.holds?

def run (b : PoolBounds) : WorkerPool → List PoolEvent → Option WorkerPool
  | p, [] => some p
  | p, e :: rest => (p.step b e).bind fun q => run b q rest

end WorkerPool

end WordIndex
