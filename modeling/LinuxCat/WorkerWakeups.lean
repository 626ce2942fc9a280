import LinuxCat.WorkerAccounting

/-! # When a task waits for workers that nobody wakes

`notEmpty` is signalled for two reasons, a task and a request to exit. A worker woken for
a task that finds a left-over request exits, and the task stays behind. -/
namespace LinuxCat.ThreadPoolModel
open LabelledMachines LabelledMachines.Machine WaitQueues

variable {α σ τ ε : Type} {M : TaskModel α σ τ ε}

/-- A task is queued, and every live worker is blocked on `notEmpty` with no wake-up under
way (a signalled worker is `woken`). -/
def LostWakeup (s : PoolState α σ τ) : Prop :=
  0 < s.pool.queueSize ∧ ∀ k ∈ s.workers, k.pc.isLive = true → k.pc.isWaiting = true

instance (s : PoolState α σ τ) : Decidable (LostWakeup s) :=
  inferInstanceAs (Decidable (_ ∧ _))

/-- The worker takes an exit request while a task is queued and every other live worker
is blocked. -/
def LeavesTask (s : PoolState α σ τ) (a : Action α ε) : Prop :=
  ∃ w wake k, a = .work w wake ∧ s.workers[w]? = some k ∧ k.pc = .woken ∧
    0 < s.pool.exitNum ∧ s.pool.minNum < s.pool.liveNum ∧ 0 < s.pool.queueSize ∧
    ∀ v j, v ≠ w → s.workers[v]? = some j → j.pc.isLive = true → j.pc.isWaiting = true

/-- Some live worker is not blocked. -/
def Awake (ws : List (Worker α τ)) : Prop :=
  ∃ k ∈ ws, k.pc.isLive = true ∧ k.pc.isWaiting = false

theorem lostWakeup_iff {s : PoolState α σ τ} :
    LostWakeup s ↔ 0 < s.pool.queueSize ∧ ¬ Awake s.workers := by
  simp [LostWakeup, Awake]

theorem awake_set_self {ws : List (Worker α τ)} {w : ℕ} {k k' : Worker α τ}
    (hk : ws[w]? = some k) (hlive : k'.pc.isLive = true) (hwait : k'.pc.isWaiting = false) :
    Awake (ws.set w k') :=
  ⟨k', List.mem_set (List.getElem?_eq_some_iff.mp hk).1 k', hlive, hwait⟩

theorem Awake.set {ws : List (Worker α τ)} (h : Awake ws) {w : ℕ} {k k' : Worker α τ}
    (hk : ws[w]? = some k) (hasleep : k.pc.isLive = true → k.pc.isWaiting = true) :
    Awake (ws.set w k') := by
  obtain ⟨j, hj, hlive, hwait⟩ := h
  obtain ⟨v, hv⟩ := List.mem_iff_getElem?.mp hj
  have hne : w ≠ v := by
    rintro rfl
    rw [Option.some.inj (hv.symm.trans hk)] at hlive hwait
    simp [hasleep hlive] at hwait
  exact ⟨j, List.mem_of_getElem? (by rw [List.getElem?_set_ne hne, hv]), hlive, hwait⟩

/-- A signal leaves an awake worker if there was one, or if it finds a live one blocked. -/
theorem awake_condSignal {ws ws' : List (Worker α τ)} {wake : Option ℕ}
    (h : Awake ws ∨ ∃ k ∈ ws, k.pc.isLive = true)
    (hws : condSignal Worker.isWaiting Worker.wake wake ws = some ws') : Awake ws' := by
  obtain ⟨hnone, rfl⟩ | ⟨i, k, hk, hwait, rfl⟩ := condSignal_cases hws
  · obtain h | ⟨k, hk, hlive⟩ := h
    · exact h
    · exact ⟨k, hk, hlive, hnone k hk⟩
  · exact awake_set_self hk rfl rfl

theorem exists_live {s : PoolState α σ τ} (h : Accounting s)
    (hlost : count WorkerPc.isLost s.workers = 0) (hmin : 0 < s.pool.minNum) :
    ∃ k ∈ s.workers, k.pc.isLive = true := by
  have hpos : 0 < count WorkerPc.isLive s.workers := by
    have hl := h.live
    have hm := h.least
    omega
  simpa [count, List.countP_pos_iff] using hpos

/-- What the wake-up argument needs of a state: exact accounts of at least one worker. -/
structure Staffed (s : PoolState α σ τ) : Prop where
  accounts : Accounting s
  noneLost : count WorkerPc.isLost s.workers = 0
  least : 0 < s.pool.minNum

theorem staffed_step {s t : PoolState α Unit α} {a : Action α Unit} (h : Staffed s)
    (hstep : poolStep (opaqueTasks α) s a = some t) : Staffed t := by
  have hcases := poolStep_cases h.accounts.running hstep
  have hstays : TaskStays (opaqueTasks α) s a := by
    intro w e k x r _ _ _ hr
    cases hr
    simp
  exact ⟨accounting_step h.accounts hcases,
    ((lost_step hcases).2.mpr hstays).trans h.noneLost, hcases.minNum ▸ h.least⟩

theorem staffed_create {min max cap : ℕ} (hmin : 0 < min) (tid : ℕ → ℕ) :
    Staffed (threadPoolCreate min max cap tid () : PoolState α Unit α) :=
  ⟨accounting_create min max cap tid (),
    by simp [threadPoolCreate, count_create, WorkerPc.isLost], hmin⟩

/-- A worker that leaves makes the wake-up lost exactly if no other live one is awake. -/
theorem leave_lostWakeup_iff {s t : PoolState α σ τ} {w : ℕ} {k : Worker α τ}
    {wake : Option ℕ} (hk : s.workers[w]? = some k) (hpc : k.pc = .woken)
    (hexit : 0 < s.pool.exitNum) (hlive : s.pool.minNum < s.pool.liveNum)
    (hq : t.pool.queueSize = s.pool.queueSize)
    (hws : t.workers = s.workers.set w { k with pc := .exiting }) :
    LostWakeup t ↔ LeavesTask s (.work w wake : Action α ε) := by
  constructor
  · rintro ⟨hpos, hall⟩
    refine ⟨w, wake, k, rfl, hk, hpc, hexit, hlive, hq ▸ hpos, ?_⟩
    intro v j hvw hj hl
    refine hall j ?_ hl
    rw [hws]
    exact List.mem_of_getElem? (by rw [List.getElem?_set_ne (Ne.symm hvw), hj])
  · rintro ⟨w', wake', k', ha, -, -, -, -, hpos, hall⟩
    cases ha
    refine ⟨hq ▸ hpos, ?_⟩
    intro j hj hl
    rw [hws] at hj
    obtain ⟨v, hv⟩ := List.mem_iff_getElem?.mp hj
    rw [List.getElem?_set] at hv
    split_ifs at hv with hvw
    · cases hv
      cases hl
    · exact hall v j (Ne.symm hvw) hv hl

/-- From a state with no lost wake-up, only `LeavesTask` leads into one. -/
theorem step_lostWakeup_iff {s t : PoolState α Unit α} {a : Action α Unit} (h : Staffed s)
    (hs : ¬ LostWakeup s) (hstep : poolStep (opaqueTasks α) s a = some t) :
    ¬ LostWakeup t ↔ ¬ LeavesTask s a := by
  have hlive := exists_live h.accounts h.noneLost h.least
  have hawake : 0 < s.pool.queueSize → Awake s.workers := by
    intro hq
    by_contra hn
    exact hs (lostWakeup_iff.mpr ⟨hq, hn⟩)
  -- every case but `leave` keeps the wake-up, and is no `LeavesTask`
  have hkeep (ht : 0 < t.pool.queueSize → Awake t.workers) (hl : ¬ LeavesTask s a) :
      ¬ LostWakeup t ↔ ¬ LeavesTask s a :=
    ⟨fun _ => hl, fun _ hlost => (lostWakeup_iff.mp hlost).2 (ht hlost.1)⟩
  cases poolStep_cases h.accounts.running hstep with
  | leave hk hpc hexit hmore =>
    exact not_congr (leave_lostWakeup_iff hk hpc hexit hmore rfl rfl)
  | call => exact hkeep hawake (by simp [LeavesTask])
  | addBlocks => exact hkeep hawake (by simp [LeavesTask])
  | spuriousProducer => exact hkeep hawake (by simp [LeavesTask])
  | think => exact hkeep hawake (by simp [LeavesTask])
  | askExit => exact hkeep hawake (by simp [LeavesTask])
  | keep => exact hkeep hawake (by simp [LeavesTask])
  | enqueue _ _ _ hwake =>
    exact hkeep (fun _ => awake_condSignal (.inr hlive) hwake) (by simp [LeavesTask])
  | signal _ hwake =>
    exact hkeep (fun _ => awake_condSignal (.inr hlive) hwake) (by simp [LeavesTask])
  | workBlocks hk hpc he hstay hempty =>
    refine hkeep (fun hq => absurd hempty hq.ne') ?_
    rintro ⟨w', wake', k', ha, -, -, -, -, hpos, -⟩
    omega
  | dequeue hk hpc he hstay hsome =>
    refine hkeep (fun _ => awake_set_self hk rfl rfl) ?_
    rintro ⟨w', wake', k', ha, hk', hwoken, hexit, hmore, -, -⟩
    cases ha
    obtain rfl := Option.some.inj (hk.symm.trans hk')
    have := hstay hwoken hexit
    omega
  | start hk => exact hkeep (fun _ => awake_set_self hk rfl rfl) (by simp [LeavesTask])
  | task hk hpc hr =>
    refine hkeep (fun _ => ?_) (by simp [LeavesTask])
    cases hr
    exact awake_set_self hk rfl rfl
  | finish hk => exact hkeep (fun _ => awake_set_self hk rfl rfl) (by simp [LeavesTask])
  | threadExit hk hpc =>
    refine hkeep (fun hq => (hawake hq).set hk ?_) (by simp [LeavesTask])
    simp [hpc, WorkerPc.isLive]
  | spuriousWorker hk => exact hkeep (fun _ => awake_set_self hk rfl rfl) (by simp [LeavesTask])
  | grow =>
    refine hkeep (fun hq => ?_) (by simp [LeavesTask])
    obtain ⟨k, hk, hl⟩ := hawake hq
    exact ⟨k, List.mem_append_left _ hk, hl⟩

/-- A run never loses a wake-up exactly if no worker of it leaves a task behind. -/
theorem no_lost_wakeup_iff (min max cap : ℕ) (hmin : 0 < min) (tid : ℕ → ℕ) (as : List (Action α Unit)) (t : PoolState α Unit α)
    (h : (poolMachine (opaqueTasks α)).run (threadPoolCreate min max cap tid ()) as = some t) :
    (poolMachine (opaqueTasks α)).EachState (fun s => ¬ LostWakeup s)
        (threadPoolCreate min max cap tid ()) as ↔
      (poolMachine (opaqueTasks α)).EachStep (fun s a => ¬ LeavesTask s a)
        (threadPoolCreate min max cap tid ()) as :=
  eachState_iff_eachStep (M := poolMachine (opaqueTasks α)) (I := Staffed)
    (fun _ _ _ hs hstep => staffed_step hs hstep)
    (fun _ _ _ hs hp hstep => step_lostWakeup_iff hs hp hstep)
    (staffed_create hmin tid) (fun hl => absurd hl.1 (lt_irrefl 0)) h

/-- Two tasks make the manager create a second thread. Both threads are still at their lock
when it asks two of them to exit, so its signals find no waiter and `exitNum` stays 2.
They run the tasks and block; the third task then wakes one of them, which exits. -/
def staleExitRequest : List (Action ℕ Unit) :=
  [.call 0, .add 0 none, .call 1, .add 1 none,
    .manage, .manage, .manage, .grow [2], .manage,
    .manage, .manage, .manage, .grow [], .manage, .signal none, .signal none, .manage,
    .work 0 none, .work 1 none, .start 0, .start 1, .task 0 (), .task 1 (),
    .finish 0, .finish 1, .work 0 none, .work 1 none,
    .call 2, .add 2 (some 0), .work 0 none]

/-- The task the last step leaves in the queue has a live worker, and it is blocked. -/
theorem lostWakeup_reachable :
    ∃ t, (poolMachine (opaqueTasks ℕ)).Reachable (threadPoolCreate 1 2 2 (· + 1) ()) t ∧
      LostWakeup t :=
  ⟨_, ⟨staleExitRequest, rfl⟩, by decide⟩

theorem staleExitRequest_leaves_task :
    ¬ (poolMachine (opaqueTasks ℕ)).EachStep (fun s a => ¬ LeavesTask s a)
      (threadPoolCreate 1 2 2 (· + 1) ()) staleExitRequest := by
  have hrun : (poolMachine (opaqueTasks ℕ)).run (threadPoolCreate 1 2 2 (· + 1) ())
      staleExitRequest = some _ := rfl
  rw [← no_lost_wakeup_iff 1 2 2 (by decide) (· + 1) staleExitRequest _ hrun]
  intro hall
  exact (hall.last hrun) (by decide)

end LinuxCat.ThreadPoolModel
