import LinuxCat.ThreadPoolSteps
import Mathlib.Tactic.Ring

/-! # What `liveNum` and `busyNum` count

The counters are exact up to the threads that ended inside a task: each of them is
counted as live and as busy for ever. -/
namespace LinuxCat.ThreadPoolModel
open LabelledMachines LabelledMachines.Machine WaitQueues

variable {α σ τ ε : Type} {M : TaskModel α σ τ ε}

namespace WorkerPc

/-- Neither ended nor committed to exit. -/
def isLive : WorkerPc α τ → Bool
  | .exiting | .terminated | .lost => false
  | _ => true

/-- Between the increment and the decrement of `busyNum`. -/
def isBusy : WorkerPc α τ → Bool
  | .running _ | .finished => true
  | _ => false

def isLost : WorkerPc α τ → Bool
  | .lost => true
  | _ => false

/-- The thread still exists. -/
def isThread : WorkerPc α τ → Bool
  | .terminated | .lost => false
  | _ => true

end WorkerPc

def count (p : WorkerPc α τ → Bool) (ws : List (Worker α τ)) : ℕ := ws.countP (fun k => p k.pc)

theorem count_set (p : WorkerPc α τ → Bool) {ws : List (Worker α τ)} {w : ℕ} {k : Worker α τ}
    (hk : ws[w]? = some k) (pc : WorkerPc α τ) :
    count p (ws.set w { k with pc := pc }) + (if p k.pc then 1 else 0) =
      count p ws + (if p pc then 1 else 0) :=
  countP_set_add (fun k : Worker α τ => p k.pc) hk { k with pc := pc }

theorem worker_isWaiting_iff {k : Worker α τ} : k.isWaiting = true ↔ k.pc = .waiting := by
  cases h : k.pc <;> simp [Worker.isWaiting, WorkerPc.isWaiting, h]

theorem count_condSignal {p : WorkerPc α τ → Bool} (hp : p .woken = p .waiting)
    {wake : Option ℕ} {ws ws' : List (Worker α τ)}
    (h : condSignal Worker.isWaiting Worker.wake wake ws = some ws') :
    count p ws' = count p ws := by
  refine countP_condSignal _ ?_ h
  intro k hk
  simp [Worker.wake, worker_isWaiting_iff.mp hk, hp]

theorem count_grow (p : WorkerPc α τ → Bool) (ws : List (Worker α τ)) (tids : List ℕ) :
    count p (ws ++ tids.map (fun tid => ⟨tid, .lock⟩)) =
      count p ws + if p .lock then tids.length else 0 := by
  simp only [count, List.countP_append, List.countP_map, Function.comp_def]
  by_cases h : p .lock = true <;> simp [h]

theorem count_create (p : WorkerPc α τ → Bool) (min : ℕ) (tid : ℕ → ℕ) :
    count p ((List.range min).map (fun i => (⟨tid i, .lock⟩ : Worker α τ))) =
      if p .lock then min else 0 := by
  simp only [count, List.countP_map, Function.comp_def]
  by_cases h : p .lock = true <;> simp [h]

theorem count_mono {p q : WorkerPc α τ → Bool} (h : ∀ pc, p pc = true → q pc = true)
    (ws : List (Worker α τ)) : count p ws ≤ count q ws :=
  List.countP_mono_left (fun k _ hk => h k.pc hk)

/-- The joint invariant of the counters, in every run of the pool. -/
structure Accounting (s : PoolState α σ τ) : Prop where
  running : s.pool.shutdown = false
  live : s.pool.liveNum = count WorkerPc.isLive s.workers + count WorkerPc.isLost s.workers
  busy : s.pool.busyNum = count WorkerPc.isBusy s.workers + count WorkerPc.isLost s.workers
  least : s.pool.minNum ≤ s.pool.liveNum

theorem accounting_create (min max cap : ℕ) (tid : ℕ → ℕ) (shared : σ) :
    Accounting (threadPoolCreate min max cap tid shared : PoolState α σ τ) where
  running := rfl
  live := by simp [threadPoolCreate, count_create, WorkerPc.isLive, WorkerPc.isLost]
  busy := by simp [threadPoolCreate, count_create, WorkerPc.isBusy, WorkerPc.isLost]
  least := le_rfl

/-- A worker that moves within one class of threads leaves the accounts alone. -/
theorem Accounting.set {s t : PoolState α σ τ} (h : Accounting s) {w : ℕ} {k : Worker α τ}
    {pc : WorkerPc α τ} {b : ℤ} (hk : s.workers[w]? = some k)
    (hdown : t.pool.shutdown = s.pool.shutdown)
    (hws : t.workers = s.workers.set w { k with pc := pc })
    (hlive : t.pool.liveNum = s.pool.liveNum) (hbusy : t.pool.busyNum = s.pool.busyNum + b)
    (hmin : t.pool.minNum = s.pool.minNum)
    (hl : ((if pc.isLive then 1 else 0) + (if pc.isLost then 1 else 0) : ℤ) =
      (if k.pc.isLive then 1 else 0) + (if k.pc.isLost then 1 else 0))
    (hb : ((if pc.isBusy then 1 else 0) + (if pc.isLost then 1 else 0) : ℤ) =
      (if k.pc.isBusy then 1 else 0) + (if k.pc.isLost then 1 else 0) + b) :
    Accounting t := by
  have h₁ := count_set WorkerPc.isLive hk pc
  have h₂ := count_set WorkerPc.isBusy hk pc
  have h₃ := count_set WorkerPc.isLost hk pc
  have hsl := h.live
  have hsb := h.busy
  have hsm := h.least
  rw [← hws] at h₁ h₂ h₃
  refine ⟨hdown.trans h.running, ?_, ?_, ?_⟩
  · rw [hlive]
    split_ifs at h₁ h₃ hl <;> omega
  · rw [hbusy]
    split_ifs at h₂ h₃ hb <;> omega
  · rw [hmin, hlive]
    exact hsm

theorem Accounting.condSignal {s t : PoolState α σ τ} (h : Accounting s) {wake : Option ℕ}
    (hws : condSignal Worker.isWaiting Worker.wake wake s.workers = some t.workers)
    (hdown : t.pool.shutdown = s.pool.shutdown) (hlive : t.pool.liveNum = s.pool.liveNum)
    (hbusy : t.pool.busyNum = s.pool.busyNum) (hmin : t.pool.minNum = s.pool.minNum) :
    Accounting t := by
  have h₁ := count_condSignal (p := WorkerPc.isLive) rfl hws
  have h₂ := count_condSignal (p := WorkerPc.isBusy) rfl hws
  have h₃ := count_condSignal (p := WorkerPc.isLost) rfl hws
  refine ⟨hdown.trans h.running, ?_, ?_, ?_⟩
  · rw [hlive, h₁, h₃, h.live]
  · rw [hbusy, h₂, h₃, h.busy]
  · rw [hmin, hlive]
    exact h.least

theorem accounting_step {s t : PoolState α σ τ} {a : Action α ε} (h : Accounting s)
    (hstep : PoolStep M s a t) : Accounting t := by
  cases hstep with
  | call => exact ⟨h.running, h.live, h.busy, h.least⟩
  | addBlocks => exact ⟨h.running, h.live, h.busy, h.least⟩
  | spuriousProducer => exact ⟨h.running, h.live, h.busy, h.least⟩
  | think => exact ⟨h.running, h.live, h.busy, h.least⟩
  | askExit => exact ⟨h.running, h.live, h.busy, h.least⟩
  | keep => exact ⟨h.running, h.live, h.busy, h.least⟩
  | enqueue _ _ _ hwake => exact h.condSignal hwake rfl rfl rfl rfl
  | signal _ hwake => exact h.condSignal hwake rfl rfl rfl rfl
  | @workBlocks w k wake e hk hpc =>
    refine h.set (b := 0) hk rfl rfl rfl (add_zero _).symm rfl ?_ ?_ <;>
      rcases hpc with hpc | hpc <;> simp [hpc, WorkerPc.isLive, WorkerPc.isLost, WorkerPc.isBusy]
  | @dequeue w k wake e ps hk hpc =>
    refine h.set (b := 0) hk rfl rfl rfl (add_zero _).symm rfl ?_ ?_ <;>
      rcases hpc with hpc | hpc <;> simp [hpc, WorkerPc.isLive, WorkerPc.isLost, WorkerPc.isBusy]
  | start hk hpc =>
    refine h.set (b := 1) hk rfl rfl rfl rfl rfl ?_ ?_ <;>
      simp [hpc, WorkerPc.isLive, WorkerPc.isLost, WorkerPc.isBusy]
  | @task w k x e r hk hpc =>
    refine h.set (b := 0) hk rfl rfl rfl (add_zero _).symm rfl ?_ ?_ <;> rw [hpc] <;>
      cases r.2 <;> simp [TaskResult.pc, WorkerPc.isLive, WorkerPc.isLost, WorkerPc.isBusy]
  | finish hk hpc =>
    refine h.set (b := -1) hk rfl rfl rfl rfl rfl ?_ ?_ <;>
      simp [hpc, WorkerPc.isLive, WorkerPc.isLost, WorkerPc.isBusy]
  | threadExit hk hpc =>
    refine h.set (b := 0) hk rfl rfl rfl (add_zero _).symm rfl ?_ ?_ <;>
      simp [hpc, WorkerPc.isLive, WorkerPc.isLost, WorkerPc.isBusy]
  | spuriousWorker hk hpc =>
    refine h.set (b := 0) hk rfl rfl rfl (add_zero _).symm rfl ?_ ?_ <;>
      simp [hpc, WorkerPc.isLive, WorkerPc.isLost, WorkerPc.isBusy]
  | leave hk hpc hexit hlive =>
    have h₁ := count_set WorkerPc.isLive hk .exiting
    have h₂ := count_set WorkerPc.isBusy hk .exiting
    have h₃ := count_set WorkerPc.isLost hk .exiting
    have hsl := h.live
    have hsb := h.busy
    simp only [hpc, WorkerPc.isLive, WorkerPc.isBusy, WorkerPc.isLost, Bool.false_eq_true,
      if_true, if_false, add_zero] at h₁ h₂ h₃
    refine ⟨h.running, ?_, ?_, ?_⟩ <;> simp only [PoolState.setWorker] <;> omega
  | grow tids' hm hneed hg =>
    have hl := h.live
    have hb := h.busy
    have hm := h.least
    refine ⟨h.running, ?_, ?_, ?_⟩ <;>
      simp only [count_grow, WorkerPc.isLive, WorkerPc.isBusy, WorkerPc.isLost, if_true,
        Bool.false_eq_true, if_false] <;> omega

theorem accounting_of_reachable {min max cap : ℕ} (tid : ℕ → ℕ) (shared : σ)
    {t : PoolState α σ τ}
    (h : (poolMachine M).Reachable (threadPoolCreate min max cap tid shared) t) :
    Accounting t :=
  h.invariant (fun _ _ _ hs hstep => accounting_step hs (poolStep_cases hs.running hstep))
    (accounting_create min max cap tid shared)

/-- The claim a reader would expect of the counters: they count the threads there are. -/
structure Survives (s : PoolState α σ τ) : Prop where
  live : s.pool.liveNum = count WorkerPc.isLive s.workers
  busy : s.pool.busyNum = count WorkerPc.isBusy s.workers
  threads : s.pool.minNum ≤ count WorkerPc.isThread s.workers

theorem survives_iff_none_lost {s : PoolState α σ τ} (h : Accounting s) :
    Survives s ↔ count WorkerPc.isLost s.workers = 0 := by
  have hl := h.live
  have hb := h.busy
  constructor
  · intro hs
    have := hs.live
    omega
  · intro hz
    have hle : count WorkerPc.isLive s.workers ≤ count WorkerPc.isThread s.workers :=
      count_mono (fun pc hpc => by cases pc <;> simp_all [WorkerPc.isLive, WorkerPc.isThread]) _
    have hm := h.least
    exact ⟨by omega, by omega, by omega⟩

/-- The step does not end a thread inside its task. -/
def TaskStays (M : TaskModel α σ τ ε) (s : PoolState α σ τ) (a : Action α ε) : Prop :=
  ∀ w e k x r, a = .task w e → s.workers[w]? = some k → k.pc = .running x →
    M.step s.shared x e = some r → r.2 ≠ .exited

/-- Threads lost in tasks stay lost, and only a task ending its thread adds one. -/
theorem lost_step {s t : PoolState α σ τ} {a : Action α ε} (hstep : PoolStep M s a t) :
    count WorkerPc.isLost s.workers ≤ count WorkerPc.isLost t.workers ∧
      (count WorkerPc.isLost t.workers = count WorkerPc.isLost s.workers ↔ TaskStays M s a) := by
  have hset {w : ℕ} {k : Worker α τ} {pc : WorkerPc α τ} (hk : s.workers[w]? = some k)
      (hold : k.pc.isLost = false) (hnew : pc.isLost = false) :
      count WorkerPc.isLost (s.workers.set w { k with pc := pc }) =
        count WorkerPc.isLost s.workers := by
    simpa [hold, hnew] using count_set WorkerPc.isLost hk pc
  have hkeep {n : ℕ} (hn : n = count WorkerPc.isLost s.workers)
      (ha : ∀ w e, a ≠ .task w e) :
      count WorkerPc.isLost s.workers ≤ n ∧
        (n = count WorkerPc.isLost s.workers ↔ TaskStays M s a) :=
    ⟨hn.ge, fun _ w e _ _ _ he => absurd he (ha w e), fun _ => hn⟩
  cases hstep with
  | call => exact hkeep rfl (by simp)
  | addBlocks => exact hkeep rfl (by simp)
  | spuriousProducer => exact hkeep rfl (by simp)
  | think => exact hkeep rfl (by simp)
  | askExit => exact hkeep rfl (by simp)
  | keep => exact hkeep rfl (by simp)
  | enqueue _ _ _ hwake => exact hkeep (count_condSignal rfl hwake) (by simp)
  | signal _ hwake => exact hkeep (count_condSignal rfl hwake) (by simp)
  | workBlocks hk hpc =>
    exact hkeep (hset hk (by rcases hpc with hpc | hpc <;> simp [hpc, WorkerPc.isLost]) rfl)
      (by simp)
  | dequeue hk hpc =>
    exact hkeep (hset hk (by rcases hpc with hpc | hpc <;> simp [hpc, WorkerPc.isLost]) rfl)
      (by simp)
  | leave hk hpc => exact hkeep (hset hk (by simp [hpc, WorkerPc.isLost]) rfl) (by simp)
  | start hk hpc => exact hkeep (hset hk (by simp [hpc, WorkerPc.isLost]) rfl) (by simp)
  | finish hk hpc => exact hkeep (hset hk (by simp [hpc, WorkerPc.isLost]) rfl) (by simp)
  | threadExit hk hpc => exact hkeep (hset hk (by simp [hpc, WorkerPc.isLost]) rfl) (by simp)
  | spuriousWorker hk hpc => exact hkeep (hset hk (by simp [hpc, WorkerPc.isLost]) rfl) (by simp)
  | grow => exact hkeep (by simp [count_grow, WorkerPc.isLost]) (by simp)
  | @task w k x e r hk hpc hr =>
    have hc := count_set WorkerPc.isLost hk (r.2.pc : WorkerPc α τ)
    have hstays : TaskStays M s (.task w e) ↔ r.2 ≠ .exited := by
      constructor
      · intro h
        exact h w e k x r rfl hk hpc hr
      · intro h w' e' k' x' r' ha hk' hpc' hr'
        cases ha
        obtain rfl : k = k' := Option.some.inj (hk.symm.trans hk')
        obtain rfl : x = x' := by
          rw [hpc] at hpc'
          exact WorkerPc.running.inj hpc'
        obtain rfl : r = r' := Option.some.inj (hr.symm.trans hr')
        exact h
    rw [hstays]
    simp only [PoolState.setWorker]
    rw [hpc] at hc
    cases hres : r.2 <;> simp [hres, TaskResult.pc, WorkerPc.isLost] at hc ⊢ <;> omega

/-- A run leaves the counters exact exactly if no task of it ended its own thread. -/
theorem survives_iff_tasks_stay {min max cap : ℕ} (tid : ℕ → ℕ) (shared : σ)
    {as : List (Action α ε)} {t : PoolState α σ τ}
    (h : (poolMachine M).run (threadPoolCreate min max cap tid shared) as = some t) :
    Survives t ↔
      (poolMachine M).EachStep (TaskStays M) (threadPoolCreate min max cap tid shared) as := by
  have hinit := accounting_create (α := α) (τ := τ) min max cap tid shared
  have hcases {s : PoolState α σ τ} {a : Action α ε} {u : PoolState α σ τ}
      (hs : Accounting s) (hstep : poolStep M s a = some u) := poolStep_cases hs.running hstep
  have hmeasure := measure_eq_iff_eachStep (M := poolMachine M) (I := Accounting)
    (f := fun s => count WorkerPc.isLost s.workers) (Q := TaskStays M)
    (fun _ _ _ hs hstep => accounting_step hs (hcases hs hstep))
    (fun _ _ _ hs hstep => (lost_step (hcases hs hstep)).1)
    (fun _ _ _ hs hstep => (lost_step (hcases hs hstep)).2) hinit h
  rw [survives_iff_none_lost (accounting_of_reachable tid shared ⟨as, h⟩), ← hmeasure]
  simp [threadPoolCreate, count_create, WorkerPc.isLost]

end LinuxCat.ThreadPoolModel
