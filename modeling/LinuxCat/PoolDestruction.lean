import LinuxCat.ThreadSlots

/-! # The end of the thread pool

`threadPoolDestroy` sets `shutdown` without the lock, joins the manager, signals `notEmpty` and
frees the pool. It waits for no worker and for no caller of `threadPoolAdd`. -/
namespace LinuxCat.ThreadPoolModel
open LabelledMachines LabelledMachines.Machine WaitQueues

/-- Where `threadPoolDestroy` is. -/
inductive DestroyPc
  | pending
  /-- `shutdown` is set -/
  | joining
  /-- this many signals have been sent -/
  | signalling (i : ℕ)
  /-- `taskQ` is freed -/
  | freeing
  /-- `threadIDs` is freed too -/
  | released
  deriving DecidableEq, Repr

/-- A critical section that reads `shutdown`, by the thread that is in it. -/
inductive Section
  | add (p : ℕ)
  | work (w : ℕ)
  deriving DecidableEq, Repr

structure Destruction (α σ τ : Type) where
  threads : PoolState α σ τ
  /-- the thread that has read `shutdown` as 0 and still holds `mutexPool` -/
  holder : Option Section
  destroy : DestroyPc
  deriving DecidableEq, Repr

inductive DestroyAction (α ε : Type)
  | thread (a : Action α ε)
  /-- a thread takes `mutexPool` and reads `shutdown` as 0 -/
  | test (c : Section)
  /-- it goes on, to the wait or to `pthread_mutex_unlock` -/
  | leave (wake : Option ℕ)
  | destroy (wake : Option ℕ)
  deriving DecidableEq, Repr

section
variable {α σ τ ε : Type}

def Section.action (wake : Option ℕ) : Section → Action α ε
  | .add p => .add p wake
  | .work w => .work w wake

def Producer.enters : Producer α → Bool
  | .lock _ | .woken _ => true
  | _ => false

def WorkerPc.enters : WorkerPc α τ → Bool
  | .lock | .woken => true
  | _ => false

/-- The thread of the section is about to enter it. -/
def PoolState.enters (s : PoolState α σ τ) : Section → Bool
  | .add p => (s.producers[p]?).any Producer.enters
  | .work w => (s.workers[w]?).any (fun k => k.pc.enters)

/-- The step is a critical section on `mutexPool`. -/
def PoolState.locks (s : PoolState α σ τ) : Action α ε → Bool
  | .add _ _ | .work _ _ => true
  | .manage =>
    match s.manager with
    | .sleeping => true
    | .grown liveNum busyNum => busyNum * 2 < liveNum ∧ s.pool.minNum < liveNum
    | _ => false
  | .grow _ =>
    match s.manager with
    | .measured queueSize liveNum _ => liveNum < queueSize ∧ liveNum < s.pool.maxNum
    | _ => false
  | _ => false

/-- The step is none of a task's function, and so reads or writes the pool. -/
def Action.touchesPool : Action α ε → Bool
  | .task _ _ => false
  | _ => true

def PoolState.setShutdown (s : PoolState α σ τ) (b : Bool) : PoolState α σ τ :=
  { s with pool := { s.pool with shutdown := b } }

def threadPoolDestroy (s : Destruction α σ τ) (wake : Option ℕ) : Option (Destruction α σ τ) :=
  match s.destroy with
  | .pending => some { s with threads := s.threads.setShutdown true, destroy := .joining }
  | .joining => if s.threads.manager = .ended then some { s with destroy := .signalling 0 } else none
  | .signalling i =>
    -- the bound is read again before each signal
    if i < s.threads.pool.liveNum then
      (condSignal Worker.isWaiting Worker.wake wake s.threads.workers).map (fun ws =>
        { s with threads := { s.threads with workers := ws }, destroy := .signalling (i + 1) })
    else
      let pool := { s.threads.pool with taskQ := [] }
      some { s with threads := { s.threads with pool := pool }, destroy := .freeing }
  | .freeing =>
    let pool := { s.threads.pool with threadIDs := [] }
    some { s with threads := { s.threads with pool := pool }, destroy := .released }
  | .released => none

/-- No step is defined that reads or writes the pool behind its release. -/
def destroyStep (M : TaskModel α σ τ ε) (s : Destruction α σ τ) :
    DestroyAction α ε → Option (Destruction α σ τ)
  | .thread a =>
    if (s.holder.isSome ∧ s.threads.locks a) ∨ (s.destroy = .released ∧ a.touchesPool) then none
    else (poolStep M s.threads a).map (fun t => { s with threads := t })
  | .test c =>
    if s.holder = none ∧ s.threads.pool.shutdown = false ∧ s.threads.enters c then
      some { s with holder := some c }
    else none
  | .leave wake =>
    if s.destroy = .released then none
    else
      s.holder.bind (fun c =>
        (poolStep M (s.threads.setShutdown false) (c.action wake)).map (fun t =>
          { s with threads := t.setShutdown s.threads.pool.shutdown, holder := none }))
  | .destroy wake => threadPoolDestroy s wake

def destroyMachine (M : TaskModel α σ τ ε) : Machine (Destruction α σ τ) (DestroyAction α ε) where
  step := destroyStep M

/-- A running pool that is about to be destroyed. -/
def PoolState.toDestroy (s : PoolState α σ τ) : Destruction α σ τ := ⟨s, none, .pending⟩

/-- Every worker has terminated, and no caller is blocked on `notFull`. -/
structure PoolState.Deserted (s : PoolState α σ τ) : Prop where
  workers : ∀ k ∈ s.workers, k.pc.isThread = false
  callers : ∀ q ∈ s.producers, q.isWaiting = false

/-- Whatever the schedule, the pool is deserted when it has been released. -/
def LeavesNobody (M : TaskModel α σ τ ε) (s : PoolState α σ τ) : Prop :=
  ∀ t, (destroyMachine M).Reachable s.toDestroy t → t.destroy = .released → t.threads.Deserted

/-! ## Who stays -/

/-- The threads of `s` that have not terminated have not in `t` either, and blocked callers are
still blocked. -/
structure Keeps (s t : PoolState α σ τ) : Prop where
  workers : ∀ (w : ℕ) (k : Worker α τ), s.workers[w]? = some k → k.pc.isThread = true →
    ∃ k', t.workers[w]? = some k' ∧ k'.pc.isThread = true
  callers : ∀ (p : ℕ) (q : Producer α), s.producers[p]? = some q → q.isWaiting = true →
    ∃ q', t.producers[p]? = some q' ∧ q'.isWaiting = true

variable {M : TaskModel α σ τ ε} {s t u : PoolState α σ τ}

theorem Keeps.of_eq (hw : t.workers = s.workers) (hp : t.producers = s.producers) : Keeps s t :=
  ⟨fun _ k hk hthread => ⟨k, hw ▸ hk, hthread⟩, fun _ q hq hwait => ⟨q, hp ▸ hq, hwait⟩⟩

theorem Keeps.trans (h : Keeps s t) (h' : Keeps t u) : Keeps s u := by
  constructor
  · intro w k hk hthread
    obtain ⟨k', hk', hthread'⟩ := h.workers w k hk hthread
    exact h'.workers w k' hk' hthread'
  · intro p q hq hwait
    obtain ⟨q', hq', hwait'⟩ := h.callers p q hq hwait
    exact h'.callers p q' hq' hwait'

theorem Keeps.condSignal {wake : Option ℕ} {ws : List (Worker α τ)}
    (h : condSignal Worker.isWaiting Worker.wake wake s.workers = some ws) :
    Keeps s { s with workers := ws } := by
  refine ⟨fun w k hk hthread => ?_, fun p q hq hwait => ⟨q, hq, hwait⟩⟩
  obtain ⟨-, rfl⟩ | ⟨i, k₀, hk₀, -, rfl⟩ := condSignal_cases h
  · exact ⟨k, hk, hthread⟩
  · by_cases hi : i = w
    · subst hi
      exact ⟨k₀.wake, List.getElem?_set_self (List.getElem?_eq_some_iff.mp hk₀).1, rfl⟩
    · exact ⟨k, by rw [List.getElem?_set_ne hi, hk], hthread⟩

theorem Keeps.grow (workers : List (Worker α τ)) :
    Keeps s { s with workers := s.workers ++ workers } := by
  refine ⟨fun w k hk hthread => ⟨k, ?_, hthread⟩, fun p q hq hwait => ⟨q, hq, hwait⟩⟩
  exact (List.getElem?_append_left (List.getElem?_eq_some_iff.mp hk).1).trans hk

theorem Keeps.not_deserted (h : Keeps s t) (hs : ¬ s.Deserted) : ¬ t.Deserted := by
  intro ht
  refine hs ⟨fun k hk => ?_, fun q hq => ?_⟩
  · by_contra hthread
    obtain ⟨w, hw⟩ := List.mem_iff_getElem?.mp hk
    obtain ⟨k', hk', hthread'⟩ := h.workers w k hw (by simpa using hthread)
    simp [ht.workers k' (List.mem_of_getElem? hk')] at hthread'
  · by_contra hwait
    obtain ⟨p, hp⟩ := List.mem_iff_getElem?.mp hq
    obtain ⟨q', hq', hwait'⟩ := h.callers p q hp (by simpa using hwait)
    simp [ht.callers q' (List.mem_of_getElem? hq')] at hwait'

/-! ## The manager ends -/

/-- A run of the threads without a new call, behind which all who were there still are. -/
def Winds (M : TaskModel α σ τ ε) (s t : PoolState α σ τ) : Prop :=
  ∃ as, (poolMachine M).run s as = some t ∧ (∀ x, Action.call x ∉ as) ∧ Keeps s t

theorem Winds.refl (s : PoolState α σ τ) : Winds M s s := ⟨[], rfl, by simp, .of_eq rfl rfl⟩

theorem Winds.cons {a : Action α ε} (hstep : poolStep M s a = some t) (hcall : ∀ x, a ≠ .call x)
    (hkeeps : Keeps s t) (h : Winds M t u) : Winds M s u := by
  obtain ⟨as, hrun, hcalls, hkeeps'⟩ := h
  refine ⟨a :: as, run_cons_eq_some.mpr ⟨t, hstep, hrun⟩, fun x hx => ?_, hkeeps.trans hkeeps'⟩
  rcases List.mem_cons.mp hx with hx | hx
  · exact hcall x hx.symm
  · exact hcalls x hx

/-- The manager can end, and nobody else has to move for it. -/
def ManagerEnds (M : TaskModel α σ τ ε) (s : PoolState α σ τ) : Prop :=
  ∃ t, Winds M s t ∧ t.manager = .ended

theorem ManagerEnds.step {a : Action α ε} (hstep : poolStep M s a = some t)
    (hcall : ∀ x, a ≠ .call x) (hkeeps : Keeps s t) (h : ManagerEnds M t) : ManagerEnds M s := by
  obtain ⟨u, hwinds, hended⟩ := h
  exact ⟨u, hwinds.cons hstep hcall hkeeps, hended⟩

/-- The loop finds room for no more than two new threads. -/
theorem exists_createThreads (maxNum : ℕ) (slots tids : List ℕ) (counter : ℕ) (liveNum : ℤ)
    (h : NUMBERE ≤ counter + tids.length) :
    ∃ r, createThreads maxNum slots tids counter liveNum = some r := by
  induction slots generalizing tids counter liveNum with
  | nil => exact ⟨_, rfl⟩
  | cons slot slots ih =>
    simp only [createThreads]
    split_ifs with hmore hfree
    · cases tids with
      | nil =>
        simp only [List.length_nil] at h
        omega
      | cons tid tids =>
        simp only [List.length_cons] at h
        obtain ⟨r, hr⟩ := ih tids (counter + 1) (liveNum + 1) (by omega)
        simp [hr]
    · obtain ⟨r, hr⟩ := ih tids counter liveNum h
      simp [hr]
    · exact ⟨_, rfl⟩

section
variable (hdown : s.pool.shutdown = true)
include hdown

theorem managerEnds_of_top (h : s.manager = .top) : ManagerEnds M s := by
  refine ManagerEnds.step (a := .manage) (t := { s with manager := .ended }) ?_ (by simp)
    (.of_eq rfl rfl) ⟨_, .refl _, rfl⟩
  simp [poolStep, manager, h, hdown]

theorem managerEnds_of_signalling {n : ℕ} (h : s.manager = .signalling n) : ManagerEnds M s := by
  induction n generalizing s with
  | zero =>
    refine ManagerEnds.step (a := .manage) (t := { s with manager := .top }) ?_ (by simp)
      (.of_eq rfl rfl) (managerEnds_of_top hdown rfl)
    simp [poolStep, manager, h]
  | succ n ih =>
    obtain ⟨wake, ws, hws⟩ := exists_condSignal Worker.isWaiting Worker.wake s.workers
    refine ManagerEnds.step (a := .signal wake)
      (t := { s with workers := ws, manager := .signalling n }) ?_ (by simp) ?_ (ih hdown rfl)
    · simp [poolStep, h, hws]
    · exact (Keeps.condSignal hws).trans (.of_eq rfl rfl)

theorem managerEnds_of_grown {l b : ℤ} (h : s.manager = .grown l b) : ManagerEnds M s := by
  by_cases hidle : b * 2 < l ∧ s.pool.minNum < l
  · refine ManagerEnds.step (a := .manage)
      (t := { s with pool := { s.pool with exitNum := NUMBERE }, manager := .signalling NUMBERE })
      ?_ (by simp) (.of_eq rfl rfl) (managerEnds_of_signalling hdown rfl)
    simp [poolStep, manager, h, hidle]
  · refine ManagerEnds.step (a := .manage) (t := { s with manager := .top }) ?_ (by simp)
      (.of_eq rfl rfl) (managerEnds_of_top hdown rfl)
    simp [poolStep, manager, h, hidle]

theorem managerEnds_of_measured {q l b : ℤ} (h : s.manager = .measured q l b) :
    ManagerEnds M s := by
  -- two identifiers no thread has
  let fresh := (s.workers.map Worker.tid).sum + 1
  by_cases hneed : l < q ∧ l < s.pool.maxNum
  · obtain ⟨r, hr⟩ := exists_createThreads s.pool.maxNum s.pool.threadIDs [fresh, fresh + 1] 0
      s.pool.liveNum le_rfl
    refine ManagerEnds.step (a := .grow [fresh, fresh + 1]) ?_ (by simp) ?_
      (managerEnds_of_grown (l := l) (b := b) (s :=
        { s with
          pool := { s.pool with threadIDs := r.1, liveNum := s.pool.liveNum + r.2.length }
          workers := s.workers ++ r.2.map (fun tid => ⟨tid, .lock⟩)
          manager := .grown l b }) hdown rfl)
    · simp [poolStep, growThreads, h, hneed, hr]
    · exact (Keeps.grow _).trans (.of_eq rfl rfl)
  · refine ManagerEnds.step (a := .grow []) (t := { s with manager := .grown l b }) ?_ (by simp)
      (.of_eq rfl rfl) (managerEnds_of_grown hdown rfl)
    simp [poolStep, growThreads, h, hneed]

theorem managerEnds : ManagerEnds M s := by
  have hcounted {t : PoolState α σ τ} {q l : ℤ} (hdown : t.pool.shutdown = true)
      (h : t.manager = .counted q l) : ManagerEnds M t := by
    refine ManagerEnds.step (a := .manage)
      (t := { t with manager := .measured q l t.pool.busyNum }) ?_ (by simp) (.of_eq rfl rfl)
      (managerEnds_of_measured hdown rfl)
    simp [poolStep, manager, h]
  cases h : s.manager with
  | top => exact managerEnds_of_top hdown h
  | sleeping =>
    refine ManagerEnds.step (a := .manage)
      (t := { s with manager := .counted s.pool.queueSize s.pool.liveNum }) ?_ (by simp)
      (.of_eq rfl rfl) (hcounted hdown rfl)
    simp [poolStep, manager, h]
  | counted q l => exact hcounted hdown h
  | measured q l b => exact managerEnds_of_measured hdown h
  | grown l b => exact managerEnds_of_grown hdown h
  | signalling n => exact managerEnds_of_signalling hdown h
  | ended => exact ⟨s, .refl s, h⟩

end

/-! ## The pool is released over everybody's head -/

/-- A run of the destroyed pool without a new call of `threadPoolAdd`. -/
def DestroyRun (M : TaskModel α σ τ ε) (s t : Destruction α σ τ) : Prop :=
  ∃ as, (destroyMachine M).run s as = some t ∧ (∀ x, DestroyAction.thread (.call x) ∉ as) ∧
    Keeps s.threads t.threads

theorem DestroyRun.trans {s t u : Destruction α σ τ} (h : DestroyRun M s t)
    (h' : DestroyRun M t u) : DestroyRun M s u := by
  obtain ⟨as, hrun, hcalls, hkeeps⟩ := h
  obtain ⟨bs, hrun', hcalls', hkeeps'⟩ := h'
  refine ⟨as ++ bs, run_trans hrun hrun', fun x hx => ?_, hkeeps.trans hkeeps'⟩
  rcases List.mem_append.mp hx with hx | hx
  · exact hcalls x hx
  · exact hcalls' x hx

theorem DestroyRun.destroy {s t : Destruction α σ τ} (wake : Option ℕ)
    (h : threadPoolDestroy s wake = some t) (hkeeps : Keeps s.threads t.threads) :
    DestroyRun M s t :=
  ⟨[.destroy wake], run_cons_eq_some.mpr ⟨t, h, rfl⟩, by simp, hkeeps⟩

theorem run_threads {as : List (Action α ε)} {d : DestroyPc} (hd : d ≠ .released)
    (h : (poolMachine M).run s as = some t) :
    (destroyMachine M).run ⟨s, none, d⟩ (as.map .thread) = some ⟨t, none, d⟩ := by
  induction as generalizing s with
  | nil =>
    obtain rfl := Option.some.inj h
    rfl
  | cons a as ih =>
    obtain ⟨u, hu, hrun⟩ := run_cons_eq_some.mp h
    have hstep : destroyStep M ⟨s, none, d⟩ (.thread a) = some ⟨u, none, d⟩ := by
      have hu : poolStep M s a = some u := hu
      simp [destroyStep, hd, hu]
    exact run_cons_eq_some.mpr ⟨_, hstep, ih hrun⟩

theorem Winds.destroyRun {d : DestroyPc} (hd : d ≠ .released) (h : Winds M s t) :
    DestroyRun M ⟨s, none, d⟩ ⟨t, none, d⟩ := by
  obtain ⟨as, hrun, hcalls, hkeeps⟩ := h
  refine ⟨as.map .thread, run_threads hd hrun, fun x hx => ?_, hkeeps⟩
  obtain ⟨a, ha, hax⟩ := List.mem_map.mp hx
  cases hax
  exact hcalls x ha

/-- The signals are sent whoever waits for them, and then the two arrays are freed. -/
theorem signalling_releases (n : ℕ) {i : ℕ} (holder : Option Section)
    (h : (s.pool.liveNum - i).toNat = n) :
    ∃ t, DestroyRun M ⟨s, holder, .signalling i⟩ t ∧ t.destroy = .released := by
  induction n generalizing s i with
  | zero =>
    have hdone : ¬ (i : ℤ) < s.pool.liveNum := by omega
    have hfree : DestroyRun M ⟨s, holder, .signalling i⟩
        ⟨{ s with pool := { s.pool with taskQ := [] } }, holder, .freeing⟩ :=
      .destroy none (by simp [threadPoolDestroy, hdone]) (.of_eq rfl rfl)
    exact ⟨_, hfree.trans (.destroy none rfl (.of_eq rfl rfl)), rfl⟩
  | succ n ih =>
    have hmore : (i : ℤ) < s.pool.liveNum := by omega
    obtain ⟨wake, ws, hws⟩ := exists_condSignal Worker.isWaiting Worker.wake s.workers
    have hsignal : DestroyRun M ⟨s, holder, .signalling i⟩
        ⟨{ s with workers := ws }, holder, .signalling (i + 1)⟩ :=
      .destroy wake (by simp [threadPoolDestroy, hmore, hws]) (.condSignal hws)
    obtain ⟨t, hrun, ht⟩ := ih (s := { s with workers := ws }) (i := i + 1)
      (by simp only [Nat.cast_add, Nat.cast_one]; omega)
    exact ⟨t, hsignal.trans hrun, ht⟩

/-- From every state there is a schedule that releases the pool before anybody leaves it. -/
theorem exists_release (M : TaskModel α σ τ ε) (s : PoolState α σ τ) :
    ∃ t, DestroyRun M s.toDestroy t ∧ t.destroy = .released := by
  have hset : DestroyRun M s.toDestroy ⟨s.setShutdown true, none, .joining⟩ :=
    .destroy none rfl (.of_eq rfl rfl)
  obtain ⟨t, hwinds, hended⟩ := managerEnds (M := M) (s := s.setShutdown true) rfl
  have hmanager : DestroyRun M ⟨s.setShutdown true, none, .joining⟩ ⟨t, none, .joining⟩ :=
    hwinds.destroyRun (by simp)
  have hjoin : DestroyRun M ⟨t, none, .joining⟩ ⟨t, none, .signalling 0⟩ :=
    .destroy none (by simp [threadPoolDestroy, hended]) (.of_eq rfl rfl)
  obtain ⟨u, hrelease, hu⟩ := signalling_releases (M := M) (s := t) (i := 0) _ none rfl
  exact ⟨u, ((hset.trans hmanager).trans hjoin).trans hrelease, hu⟩

/-! ## Callers fill the queue -/

theorem size_le_step {s t : PoolState α σ τ} {a : Action α ε} (hstep : PoolStep M s a t)
    (h : s.pool.queueSize ≤ s.pool.queueCapacity) : t.pool.queueSize ≤ t.pool.queueCapacity := by
  cases hstep with
  | enqueue hp hq hroom hwake =>
    simp only [ThreadPool.enqueue]
    omega
  | dequeue =>
    simp only [ThreadPool.dequeue]
    omega
  | _ => exact h

/-- Calls of `threadPoolAdd` alone fill the queue until one of them blocks. -/
theorem exists_blocked_caller (x : α) (n : ℕ) (hup : s.pool.shutdown = false)
    (hn : s.pool.queueSize + n = s.pool.queueCapacity) :
    ∃ t, (poolMachine M).Reachable s t ∧ ∃ q ∈ t.producers, q.isWaiting = true := by
  induction n generalizing s with
  | zero =>
    let called : PoolState α σ τ := { s with producers := s.producers ++ [.lock x] }
    have hcall : (poolMachine M).Reachable s called := (Reachable.refl _ s).step (a := .call x) rfl
    have hfull : s.pool.queueSize = s.pool.queueCapacity := by simpa using hn
    refine ⟨_, hcall.step (a := .add s.producers.length none) (u :=
      { called with producers := called.producers.set s.producers.length (.waiting x) }) ?_,
      .waiting x, ?_, rfl⟩
    · simp [poolMachine, poolStep, threadPoolAdd, called, hfull, hup]
    · exact List.mem_set (by simp [called]) _
  | succ n ih =>
    let called : PoolState α σ τ := { s with producers := s.producers ++ [.lock x] }
    have hcall : (poolMachine M).Reachable s called := (Reachable.refl _ s).step (a := .call x) rfl
    obtain ⟨wake, ws, hws⟩ := exists_condSignal Worker.isWaiting Worker.wake s.workers
    have hroom : s.pool.queueSize ≠ s.pool.queueCapacity := by omega
    let added : PoolState α σ τ :=
      { called with
        pool := s.pool.enqueue x
        workers := ws
        producers := called.producers.set s.producers.length .done
        enqueued := s.enqueued ++ [x] }
    have hadd : (poolMachine M).Reachable s added := by
      refine hcall.step (a := .add s.producers.length wake) ?_
      simp [poolMachine, poolStep, threadPoolAdd, called, added, hroom, hup, hws]
    have hn' : added.pool.queueSize + n = added.pool.queueCapacity := by
      simp only [added, ThreadPool.enqueue]
      omega
    obtain ⟨t, ht, hblocked⟩ := ih (s := added) hup hn'
    exact ⟨t, hadd.trans ht, hblocked⟩

theorem bounded_of_reachable {min max cap : ℕ} (tid : ℕ → ℕ) (shared : σ)
    (h : (poolMachine M).Reachable (threadPoolCreate min max cap tid shared) s) :
    s.pool.shutdown = false ∧ s.pool.queueSize ≤ s.pool.queueCapacity := by
  refine h.invariant (I := fun s => s.pool.shutdown = false ∧
    s.pool.queueSize ≤ s.pool.queueCapacity) (fun s a t hs hstep => ?_) ⟨rfl, ?_⟩
  · have hcases := poolStep_cases hs.1 hstep
    exact ⟨hcases.shutdown.trans hs.1, size_le_step hcases hs.2⟩
  · simp [threadPoolCreate]

/-- A pool of at least one thread whose tasks return always has a thread. -/
theorem not_deserted_of_returns (hM : M.Returns) {min max cap : ℕ} (hmin : 0 < min) (tid : ℕ → ℕ)
    (shared : σ) (h : (poolMachine M).Reachable (threadPoolCreate min max cap tid shared) s) :
    ¬ s.Deserted := by
  have hinv := h.invariant (I := fun s => Accounting s ∧ s.pool.minNum = min ∧
    count WorkerPc.isLost s.workers = 0) (fun s a t hs hstep => by
      have hcases := poolStep_cases hs.1.running hstep
      have hstays : TaskStays M s a := fun w e k x r _ _ _ hr => hM s.shared x e r hr
      exact ⟨accounting_step hs.1 hcases, hcases.minNum.trans hs.2.1,
        ((lost_step hcases).2.mpr hstays).trans hs.2.2⟩)
    ⟨accounting_create min max cap tid shared, rfl,
      by simp [threadPoolCreate, count_create, WorkerPc.isLost]⟩
  obtain ⟨hacc, hmin', hlost⟩ := hinv
  have hthreads := ((survives_iff_none_lost hacc).mpr hlost).threads
  have hpos : 0 < count WorkerPc.isThread s.workers := by omega
  obtain ⟨k, hk, hthread⟩ := List.countP_pos_iff.mp hpos
  intro hdeserted
  simp [hdeserted.workers k hk] at hthread

/-- Callers can fill the queue until one of them blocks, so no running pool is left by everybody
in every schedule. Nor is it without new calls, if somebody is there or blocked at the start: in a
pool of at least one thread whose tasks return, somebody always is. -/
theorem pool_released_over_threads (M : TaskModel α σ τ ε) {min max cap : ℕ} (tid : ℕ → ℕ)
    (shared : σ) {s : PoolState α σ τ}
    (h : (poolMachine M).Reachable (threadPoolCreate min max cap tid shared) s) :
    (∀ _ : α, ¬ LeavesNobody M s) ∧
      (¬ s.Deserted → ∃ as t, (destroyMachine M).run s.toDestroy as = some t ∧
        (∀ x, DestroyAction.thread (.call x) ∉ as) ∧ t.destroy = .released ∧
        ¬ t.threads.Deserted) ∧
      (0 < min → M.Returns → ¬ s.Deserted) := by
  refine ⟨fun x hnobody => ?_, fun hs => ?_, fun hmin hM => ?_⟩
  · obtain ⟨hup, hle⟩ := bounded_of_reachable tid shared h
    obtain ⟨t, ⟨as, hfill⟩, q, hq, hwait⟩ := exists_blocked_caller (M := M) x
      (s.pool.queueCapacity - s.pool.queueSize).toNat hup (by omega)
    obtain ⟨u, ⟨bs, hrun, -, hkeeps⟩, hu⟩ := exists_release M t
    have hfill' : (destroyMachine M).run s.toDestroy (as.map .thread) = some t.toDestroy :=
      run_threads (by simp) hfill
    have hreach : (destroyMachine M).Reachable s.toDestroy u := ⟨_, run_trans hfill' hrun⟩
    refine hkeeps.not_deserted (fun ht => ?_) (hnobody u hreach hu)
    simp [ht.callers q hq] at hwait
  · obtain ⟨t, ⟨as, hrun, hcalls, hkeeps⟩, ht⟩ := exists_release M s
    exact ⟨as, t, hrun, hcalls, ht, hkeeps.not_deserted hs⟩
  · exact not_deserted_of_returns hM hmin tid shared h

end

/-- The pool is destroyed as soon as it is created: the manager ends, no worker waits for one of
the three signals, and the arrays are freed while all workers are on their way to the lock. -/
def destroyAtOnce : List (DestroyAction ℕ Unit) :=
  [.destroy none, .thread .manage, .destroy none, .destroy none, .destroy none, .destroy none,
    .destroy none, .destroy none]

theorem destroyAtOnce_leaves_workers :
    ∃ t, (destroyMachine (opaqueTasks ℕ)).run
        (threadPoolCreate 3 10 100 (· + 1) ()).toDestroy destroyAtOnce = some t ∧
      t.destroy = .released ∧ t.threads.workers.map Worker.pc = [.lock, .lock, .lock] ∧
      ¬ LeavesNobody (opaqueTasks ℕ) (threadPoolCreate 3 10 100 (· + 1) ()) := by
  have hrun : (destroyMachine (opaqueTasks ℕ)).run
      (threadPoolCreate 3 10 100 (· + 1) ()).toDestroy destroyAtOnce = some _ := rfl
  refine ⟨_, hrun, rfl, rfl, fun hnobody => ?_⟩
  have hdeserted := hnobody _ ⟨_, hrun⟩ rfl
  have hthread := hdeserted.workers ⟨1, .lock⟩ (List.mem_of_getElem? (i := 0) rfl)
  cases hthread

/-- A pool that nobody has used yet, with callers to come and without. -/
theorem pool_released_over_threads_of_one :
    ¬ LeavesNobody (opaqueTasks ℕ) (threadPoolCreate 1 1 2 (· + 1) ()) ∧
      ¬ (threadPoolCreate 1 1 2 (· + 1) () : PoolState ℕ Unit ℕ).Deserted := by
  have hall := pool_released_over_threads (opaqueTasks ℕ) (· + 1) ()
    (Reachable.refl (poolMachine (opaqueTasks ℕ)) (threadPoolCreate 1 1 2 (· + 1) ()))
  exact ⟨hall.1 0, hall.2.2 (by decide) (opaqueTasks_returns ℕ)⟩

end LinuxCat.ThreadPoolModel
