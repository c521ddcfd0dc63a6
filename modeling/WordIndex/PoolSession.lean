import WordIndex.WorkerPool

/-! # Using a pool one step at a time

After each step the pool settles: every worker goes on until it runs a job or waits in vain. -/
namespace WordIndex

structure PoolSession where
  bounds : PoolBounds
  pool : WorkerPool
  submitted : Nat := 0

structure PoolView where
  threads : Int
  idle : Int
  running : List Nat
  ended : List Nat
  deriving DecidableEq

namespace PoolSession

/-- Takes those of some steps that can be taken, in order. -/
def take (s : PoolSession) (events : List PoolEvent) : PoolSession :=
  { s with pool := events.foldl (fun p e => (p.step s.bounds e).getD p) s.pool }

/-- The positions of the workers, the last one first. -/
def positions (s : PoolSession) : List Nat := (List.range s.pool.workers.length).reverse

/-- Lets every worker go on as far as it can. -/
def settle (s : PoolSession) : PoolSession :=
  s.take (s.positions.flatMap fun i => [.enter i, .take i, .seeClosed i, .wake i, .leave i])

def start (b : PoolBounds) : PoolSession := settle ⟨b, .initial b, 0⟩

/-- Hands in a job. The job is numbered even if the pool takes none. -/
def submit (s : PoolSession) : Option PoolFault × PoolSession :=
  let k := s.pool.callers.length
  let after := { s with submitted := s.submitted + 1 }.take
    [.submit s.submitted, .check k, .reserve k, .start k, .send k, .refuse k]
  (if s.pool.accepting then none else some .shutDown, after.settle)

/-- Ends the running job with the lowest number. -/
def finish (s : PoolSession) : PoolSession :=
  match s.pool.running.min? with
  | none => s
  | some job => (s.take [.finish (s.pool.workers.idxOf (.running job))]).settle

def finishMany : Nat → PoolSession → PoolSession
  | 0, s => s
  | count + 1, s => finishMany count s.finish

def finishAll (s : PoolSession) : PoolSession :=
  finishMany (s.pool.running.length + s.pool.queue.length) s

/-- Ends every job and closes the pool. -/
def shutDown (s : PoolSession) : PoolSession := (s.finishAll.take [.close]).settle

/-- Lets every idle worker wait too long. The jobs that run go on. -/
def timeOutIdle (s : PoolSession) : PoolSession :=
  (s.take (s.positions.flatMap fun i => [.timeOut i, .wake i, .retire i])).settle

/-- Ends every job, and only then lets the idle workers wait too long. -/
def shrink (s : PoolSession) : PoolSession := s.finishAll.timeOutIdle

def view (s : PoolSession) : PoolView where
  threads := s.pool.threads
  idle := s.pool.idle
  running := s.pool.running.mergeSort
  ended := s.pool.ended.mergeSort

end PoolSession

end WordIndex
