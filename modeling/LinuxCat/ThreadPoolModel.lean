import LinuxCat.LabelledMachines
import LinuxCat.RingBuffers
import LinuxCat.WaitQueues

/-! # The server's thread pool as a machine

Every critical section on `mutexPool` or `mutexBusy` is one step; everything a thread
does between two sections is a state of its own. What the tasks do is a parameter. -/
namespace LinuxCat.ThreadPoolModel
open LabelledMachines RingBuffers WaitQueues

/-- How many threads the manager creates, or asks to exit, in one cycle. -/
def NUMBERE : ℕ := 2

structure ThreadPool (α : Type) where
  taskQ : List (Option α)
  queueCapacity : ℕ
  queueSize : ℤ
  queueFront : ℕ
  queueRear : ℕ
  threadIDs : List ℕ
  minNum : ℕ
  maxNum : ℕ
  busyNum : ℤ
  liveNum : ℤ
  exitNum : ℤ
  shutdown : Bool
  deriving DecidableEq, Repr

/-- How one more step of a task's function leaves the thread that runs it. `exited` is
`pthread_exit` or an acted-on `pthread_cancel` inside the function. -/
inductive TaskResult (τ : Type)
  | running (t : τ)
  | returned
  | exited
  deriving DecidableEq, Repr

/-- A task function: `α` is its argument, `τ` its progress, `σ` what it shares with other
tasks, `ε` the outside events it meets. -/
structure TaskModel (α σ τ ε : Type) where
  call : α → τ
  step : σ → τ → ε → Option (σ × TaskResult τ)

inductive WorkerPc (α τ : Type)
  /-- at `pthread_mutex_lock` on top of the loop -/
  | lock
  /-- blocked in `pthread_cond_wait` on `notEmpty` -/
  | waiting
  /-- woken, about to take `mutexPool` again -/
  | woken
  /-- holds a task, before `busyNum++` -/
  | taken (task : Option α)
  | running (t : τ)
  /-- the function returned, before `busyNum--` -/
  | finished
  /-- in `threadExit`, slot not yet cleared -/
  | exiting
  | terminated
  /-- the thread ended inside its task's function -/
  | lost
  deriving DecidableEq, Repr

structure Worker (α τ : Type) where
  tid : ℕ
  pc : WorkerPc α τ
  deriving DecidableEq, Repr

/-- One call of `threadPoolAdd`. -/
inductive Producer (α : Type)
  | lock (a : α)
  | waiting (a : α)
  | woken (a : α)
  | done
  deriving DecidableEq, Repr

inductive ManagerPc
  /-- at the test of `shutdown` -/
  | top
  | sleeping
  | counted (queueSize liveNum : ℤ)
  | measured (queueSize liveNum busyNum : ℤ)
  | grown (liveNum busyNum : ℤ)
  /-- this many signals of the cycle are still to be sent -/
  | signalling (n : ℕ)
  | ended
  deriving DecidableEq, Repr

/-- `enqueued` and `dequeued` are histories no step reads: the tasks put into the queue,
and what each worker took out of it, oldest first. -/
structure PoolState (α σ τ : Type) where
  pool : ThreadPool α
  workers : List (Worker α τ)
  producers : List (Producer α)
  manager : ManagerPc
  shared : σ
  enqueued : List α
  dequeued : List (ℕ × Option α)
  deriving DecidableEq, Repr

inductive Action (α ε : Type)
  | call (a : α)
  /-- producer `p` in its critical section; `wake` is the worker its signal reaches -/
  | add (p : ℕ) (wake : Option ℕ)
  /-- worker `w` in its critical section; `wake` is the producer its signal reaches -/
  | work (w : ℕ) (wake : Option ℕ)
  | start (w : ℕ)
  | task (w : ℕ) (e : ε)
  | finish (w : ℕ)
  | threadExit (w : ℕ)
  | spuriousWorker (w : ℕ)
  | spuriousProducer (p : ℕ)
  | manage
  | grow (tids : List ℕ)
  | signal (wake : Option ℕ)
  deriving DecidableEq, Repr

section
variable {α σ τ ε : Type}

def WorkerPc.isWaiting : WorkerPc α τ → Bool
  | .waiting => true
  | _ => false

def Worker.isWaiting (w : Worker α τ) : Bool := w.pc.isWaiting

def Worker.wake (w : Worker α τ) : Worker α τ := { w with pc := .woken }

def Producer.isWaiting : Producer α → Bool
  | .waiting _ => true
  | _ => false

def Producer.wake : Producer α → Producer α
  | .waiting a => .woken a
  | p => p

/-- `tid i` is the identifier `pthread_create` gives the `i`-th thread. -/
def threadPoolCreate (min max queueSize : ℕ) (tid : ℕ → ℕ) (shared : σ) : PoolState α σ τ where
  pool :=
    { taskQ := List.replicate queueSize none
      queueCapacity := queueSize
      queueSize := 0
      queueFront := 0
      queueRear := 0
      threadIDs := (List.range max).map (fun i => if i < min then tid i else 0)
      minNum := min
      maxNum := max
      busyNum := 0
      liveNum := min
      exitNum := 0
      shutdown := false }
  workers := (List.range min).map (fun i => ⟨tid i, .lock⟩)
  producers := []
  manager := .top
  shared := shared
  enqueued := []
  dequeued := []

/-- Store a task behind the last one. -/
def ThreadPool.enqueue (p : ThreadPool α) (a : α) : ThreadPool α :=
  { p with
    taskQ := p.taskQ.set p.queueRear (some a)
    queueRear := (p.queueRear + 1) % p.queueCapacity
    queueSize := p.queueSize + 1 }

/-- Move the front past the first task. -/
def ThreadPool.dequeue (p : ThreadPool α) : ThreadPool α :=
  { p with
    queueFront := (p.queueFront + 1) % p.queueCapacity
    queueSize := p.queueSize - 1 }

def PoolState.setWorker (s : PoolState α σ τ) (w : ℕ) (k : Worker α τ) (pc : WorkerPc α τ) :
    PoolState α σ τ :=
  { s with workers := s.workers.set w { k with pc := pc } }

/-- `threadPoolAdd` from the test of its loop to `pthread_mutex_unlock`, or to the wait. -/
def threadPoolAdd (s : PoolState α σ τ) (p : ℕ) (a : α) (wake : Option ℕ) :
    Option (PoolState α σ τ) :=
  if s.pool.queueSize = s.pool.queueCapacity ∧ s.pool.shutdown = false then
    some { s with producers := s.producers.set p (.waiting a) }
  else if s.pool.shutdown then
    some { s with producers := s.producers.set p .done }
  else
    (condSignal Worker.isWaiting Worker.wake wake s.workers).map (fun ws =>
      { s with
        pool := s.pool.enqueue a
        workers := ws
        producers := s.producers.set p .done
        enqueued := s.enqueued ++ [a] })

/-- `worker` from the test of the inner loop to `pthread_mutex_unlock`, or to the wait. -/
def worker (s : PoolState α σ τ) (w : ℕ) (k : Worker α τ) (wake : Option ℕ) :
    Option (PoolState α σ τ) :=
  if s.pool.queueSize = 0 ∧ s.pool.shutdown = false then
    some (s.setWorker w k .waiting)
  else if s.pool.shutdown then
    some (s.setWorker w k .exiting)
  else
    let task := slotAt s.pool.taskQ s.pool.queueFront
    (condSignal Producer.isWaiting Producer.wake wake s.producers).map (fun ps =>
      { s.setWorker w k (.taken task) with
        pool := s.pool.dequeue
        producers := ps
        dequeued := s.dequeued ++ [(w, task)] })

/-- `worker` behind `pthread_cond_wait`: take an exit request, or test the queue again. -/
def afterWait (s : PoolState α σ τ) (w : ℕ) (k : Worker α τ) (wake : Option ℕ) :
    Option (PoolState α σ τ) :=
  if 0 < s.pool.exitNum then
    if s.pool.minNum < s.pool.liveNum then
      some { s.setWorker w k .exiting with
        pool := { s.pool with exitNum := s.pool.exitNum - 1, liveNum := s.pool.liveNum - 1 } }
    else worker { s with pool := { s.pool with exitNum := s.pool.exitNum - 1 } } w k wake
  else worker s w k wake

/-- The manager's creation loop over the rest of `threadIDs`; `tids` are the identifiers the
coming calls of `pthread_create` return. The result is the new slots and those used. -/
def createThreads (maxNum : ℕ) : List ℕ → List ℕ → ℕ → ℤ → Option (List ℕ × List ℕ)
  | [], _, _, _ => some ([], [])
  | slot :: slots, tids, counter, liveNum =>
    if counter < NUMBERE ∧ liveNum < maxNum then
      if slot = 0 then
        match tids with
        | [] => none
        | tid :: tids =>
          (createThreads maxNum slots tids (counter + 1) (liveNum + 1)).map
            (fun r => (tid :: r.1, tid :: r.2))
      else (createThreads maxNum slots tids counter liveNum).map (fun r => (slot :: r.1, r.2))
    else some (slot :: slots, [])

/-- The manager's steps that create no thread and send no signal. -/
def manager (s : PoolState α σ τ) : Option (PoolState α σ τ) :=
  match s.manager with
  | .top => some { s with manager := if s.pool.shutdown then .ended else .sleeping }
  | .sleeping => some { s with manager := .counted s.pool.queueSize s.pool.liveNum }
  | .counted queueSize liveNum =>
    some { s with manager := .measured queueSize liveNum s.pool.busyNum }
  | .grown liveNum busyNum =>
    if busyNum * 2 < liveNum ∧ s.pool.minNum < liveNum then
      some { s with
        pool := { s.pool with exitNum := NUMBERE }
        manager := .signalling NUMBERE }
    else some { s with manager := .top }
  | .signalling 0 => some { s with manager := .top }
  | _ => none

def growThreads (s : PoolState α σ τ) (tids : List ℕ) : Option (PoolState α σ τ) :=
  match s.manager with
  | .measured queueSize liveNum busyNum =>
    if liveNum < queueSize ∧ liveNum < s.pool.maxNum then
      (createThreads s.pool.maxNum s.pool.threadIDs tids 0 s.pool.liveNum).map (fun r =>
        { s with
          pool := { s.pool with threadIDs := r.1, liveNum := s.pool.liveNum + r.2.length }
          workers := s.workers ++ r.2.map (fun tid => ⟨tid, .lock⟩)
          manager := .grown liveNum busyNum })
    else some { s with manager := .grown liveNum busyNum }
  | _ => none

/-- `threadExit`'s loop: free the first slot that holds the thread's identifier. -/
def clearSlot (tid : ℕ) : List ℕ → List ℕ
  | [] => []
  | slot :: slots => if slot = tid then 0 :: slots else slot :: clearSlot tid slots

def TaskResult.pc : TaskResult τ → WorkerPc α τ
  | .running t => .running t
  | .returned => .finished
  | .exited => .lost

/-- What worker `w`, whose state is `k`, does next under a label of its own. -/
def workerStep (M : TaskModel α σ τ ε) (s : PoolState α σ τ) (w : ℕ) (k : Worker α τ) :
    Action α ε → Option (PoolState α σ τ)
  | .work _ wake =>
    match k.pc with
    | .lock => worker s w k wake
    | .woken => afterWait s w k wake
    | _ => none
  | .start _ =>
    match k.pc with
    | .taken (some a) =>
      some { s.setWorker w k (.running (M.call a)) with
        pool := { s.pool with busyNum := s.pool.busyNum + 1 } }
    | _ => none
  | .task _ e =>
    match k.pc with
    | .running t => (M.step s.shared t e).map (fun r =>
        { s.setWorker w k r.2.pc with shared := r.1 })
    | _ => none
  | .finish _ =>
    match k.pc with
    | .finished =>
      some { s.setWorker w k .lock with
        pool := { s.pool with busyNum := s.pool.busyNum - 1 } }
    | _ => none
  | .threadExit _ =>
    match k.pc with
    | .exiting =>
      some { s.setWorker w k .terminated with
        pool := { s.pool with threadIDs := clearSlot k.tid s.pool.threadIDs } }
    | _ => none
  | .spuriousWorker _ =>
    match k.pc with
    | .waiting => some (s.setWorker w k .woken)
    | _ => none
  | _ => none

def poolStep (M : TaskModel α σ τ ε) (s : PoolState α σ τ) (a : Action α ε) :
    Option (PoolState α σ τ) :=
  match a with
  | .call t => some { s with producers := s.producers ++ [.lock t] }
  | .add p wake =>
    match s.producers[p]? with
    | some (.lock t) => threadPoolAdd s p t wake
    | some (.woken t) => threadPoolAdd s p t wake
    | _ => none
  | .spuriousProducer p =>
    match s.producers[p]? with
    | some (.waiting t) => some { s with producers := s.producers.set p (.woken t) }
    | _ => none
  | .manage => manager s
  | .grow tids => growThreads s tids
  | .signal wake =>
    match s.manager with
    | .signalling (n + 1) =>
      (condSignal Worker.isWaiting Worker.wake wake s.workers).map (fun ws =>
        { s with workers := ws, manager := .signalling n })
    | _ => none
  | .work w _ | .start w | .task w _ | .finish w | .threadExit w | .spuriousWorker w =>
    (s.workers[w]?).bind (fun k => workerStep M s w k a)

/-- A task of which the pool sees nothing but its completion, at any time. -/
def opaqueTasks (α : Type) : TaskModel α Unit α Unit where
  call := id
  step _ _ _ := some ((), .returned)

def poolMachine (M : TaskModel α σ τ ε) : Machine (PoolState α σ τ) (Action α ε) where
  step := poolStep M

end
end LinuxCat.ThreadPoolModel
