import LinuxCat.ServerModel
import LinuxCat.WorkerAccounting

/-! # The pool of the server and its handlers

`main` queues `thread_read` once for every connection. The function has no `return`: it ends
by `pthread_exit` when its client disconnects, and by `pthread_cancel` behind a relay, and
with it the worker ends that called it. -/
namespace LinuxCat.HandlerPool
open LabelledMachines ThreadPoolModel ServerModel Messages ByteLayouts

variable {DB : Type}

def handlerResult : Pc → Handler → TaskResult Handler
  | .exited, _ => .exited
  | _, h => .running h

/-- `thread_read` as a task of the pool. No state of the process is left behind a fault. -/
def handlerTasks (sql : Sqlite DB) : TaskModel ℤ (Server DB) Handler Input where
  call arg := ⟨arg, .recv⟩
  step srv h inp :=
    (threadRead sql srv h inp).bind (fun r =>
      if r.2.pc = .fault then none else some (r.1, handlerResult r.2.pc r.2))

/-- The pool `main` creates. -/
def serverPool (db : DB) (tid : ℕ → ℕ) : PoolState ℤ (Server DB) Handler :=
  threadPoolCreate 3 10 100 tid (Server.start db)

/-- What ends a handler: the end of its connection, or its pending cancellation. -/
def EndsThread (pc : Pc) (inp : Input) : Prop :=
  (pc = .recv ∧ inp = .closed) ∨ (pc = .cancelled ∧ inp = .go)

section Cases
variable {sql : Sqlite DB} {junk : CharArray 20} {srv : Server DB} {cfd : ℤ} {m : Msg}

/-- A request leaves its thread in `thread_read`. -/
theorem dispatch_ne_exited : (dispatch sql junk srv cfd m).2 ≠ .exited := by
  refine dispatch_cases (P := fun r => r.2 ≠ .exited) sql junk srv cfd m ?_ ?_ ?_ ?_ ?_ ?_ ?_ ?_ ?_ ?_ ?_ ?_ ?_ ?_
  · intro _
    simp only [case0]
    split_ifs <;> simp
  · intro _
    simp only [case1]
    split_ifs <;> simp
  · intro _
    simp only [case2]
    split_ifs <;> simp
  · intro _
    simp only [case3]
    split_ifs
    · simp
    · split <;> simp
  · intro _
    simp only [case4]
    split
    · simp
    · split_ifs <;> simp
  · intro _
    simp only [case5]
    split_ifs <;> simp
  · simp
  · intro _
    simp only [case6]
    split <;> simp
  · intro _
    simp [case7]
  · intro _
    simp only [case8, caseSay]
    split <;> simp
  · intro _
    simp only [caseMinus8, caseSay]
    split <;> simp
  · intro _
    simp [case9]
  · intro _
    simp [case10]
  · simp

theorem sendFile_ne_exited (tofd : ℤ) : (sendFile srv m cfd tofd).2 ≠ .exited := by
  unfold sendFile
  split_ifs <;> simp

theorem relayLoop_ne_exited (tofd n : ℤ) : (relayLoop srv cfd m tofd n).2 ≠ .exited := by
  unfold relayLoop
  split_ifs <;> simp

theorem relayTest_ne_exited (tofd n : ℤ) : (relayTest srv cfd m tofd n).2 ≠ .exited := by
  unfold relayTest
  split_ifs
  · simp
  · exact relayLoop_ne_exited tofd n

theorem relayFirst_ne_exited {tofd n : ℤ} {inp : Input} {r : Server DB × Pc}
    (h : relayFirst srv cfd m tofd n inp = some r) : r.2 ≠ .exited := by
  unfold relayFirst at h
  split at h
  · split_ifs at h <;> cases h <;> exact relayTest_ne_exited tofd _
  · cases h
    exact relayTest_ne_exited tofd n
  · cases h

theorem relaySecond_ne_exited {tofd n : ℤ} {inp : Input} {r : Server DB × Pc}
    (h : relaySecond srv cfd m tofd n inp = some r) : r.2 ≠ .exited := by
  unfold relaySecond at h
  split at h
  · split_ifs at h <;> cases h
    · exact relayLoop_ne_exited tofd _
    · simp
  · cases h
    exact relayLoop_ne_exited tofd _
  · cases h

theorem searchSlot_ne_exited {i : ℕ} {r : Server DB × Pc}
    (h : searchSlot srv cfd m i = some r) : r.2 ≠ .exited := by
  simp only [searchSlot, Option.map_eq_some_iff] at h
  obtain ⟨slot, -, rfl⟩ := h
  split_ifs
  · exact sendFile_ne_exited slot.cfd
  · simp

theorem registerSlot_ne_exited {i : ℕ} {r : Server DB × Pc}
    (h : registerSlot srv cfd m i = some r) : r.2 ≠ .exited := by
  simp only [registerSlot, Option.map_eq_some_iff] at h
  obtain ⟨slot, -, rfl⟩ := h
  split_ifs <;> simp

/-- The exits of `thread_read`, over its whole state machine. -/
theorem threadReadPc_exited_iff {pc : Pc} {inp : Input} {r : Server DB × Pc}
    (h : threadReadPc sql srv cfd pc inp = some r) : r.2 = .exited ↔ EndsThread pc inp := by
  have hstays (hr : r.2 ≠ .exited) (hpc : pc ≠ .cancelled) (hrecv : pc = .recv → inp ≠ .closed) :
      r.2 = .exited ↔ EndsThread pc inp := by
    refine iff_of_false hr ?_
    rintro (⟨hp, hi⟩ | ⟨hp, -⟩)
    · exact hrecv hp hi
    · exact hpc hp
  cases pc with
  | recv =>
    cases inp <;> simp only [threadReadPc, reduceCtorEq] at h
    case closed =>
      cases h
      exact iff_of_true rfl (.inl ⟨rfl, rfl⟩)
    case failed junk =>
      cases h
      exact hstays dispatch_ne_exited (by simp) (by simp)
    case record m junk =>
      cases h
      exact hstays dispatch_ne_exited (by simp) (by simp)
  | insertPerson pmsg =>
    simp only [threadReadPc] at h
    split_ifs at h
    cases h
    exact hstays (by simp) (by simp) (by simp)
  | notify pmsg toFd =>
    simp only [threadReadPc] at h
    split_ifs at h
    cases h
    exact hstays (by simp) (by simp) (by simp)
  | search pmsg i =>
    simp only [threadReadPc] at h
    split_ifs at h
    exact hstays (searchSlot_ne_exited h) (by simp) (by simp)
  | relay pmsg tofd n => exact hstays (relayFirst_ne_exited h) (by simp) (by simp)
  | relayRest pmsg tofd n => exact hstays (relaySecond_ne_exited h) (by simp) (by simp)
  | cancelled =>
    simp only [threadReadPc] at h
    split_ifs at h with hgo
    cases h
    exact iff_of_true rfl (.inr ⟨rfl, hgo⟩)
  | register pmsg i =>
    simp only [threadReadPc] at h
    split_ifs at h
    exact hstays (registerSlot_ne_exited h) (by simp) (by simp)
  | spinning =>
    simp only [threadReadPc] at h
    split_ifs at h
    cases h
    exact hstays (by simp) (by simp) (by simp)
  | fault => cases h
  | exited => cases h

end Cases

variable {sql : Sqlite DB}

/-- What a step of a handler is to the pool. -/
theorem handlerTasks_step_eq_some {srv : Server DB} {h : Handler} {inp : Input}
    {r : Server DB × TaskResult Handler} :
    (handlerTasks sql).step srv h inp = some r ↔
      ∃ srv' pc, threadReadPc sql srv h.cfd h.pc inp = some (srv', pc) ∧ pc ≠ .fault ∧
        r = (srv', handlerResult pc { h with pc := pc }) := by
  simp only [handlerTasks, threadRead, Option.bind_map, Option.bind_eq_some_iff,
    Function.comp_apply, Prod.exists]
  constructor
  · rintro ⟨srv', pc, hr, hstep⟩
    split_ifs at hstep with hf
    exact ⟨srv', pc, hr, hf, (Option.some.inj hstep).symm⟩
  · rintro ⟨srv', pc, hr, hf, rfl⟩
    exact ⟨srv', pc, hr, if_neg hf⟩

/-- The task neither sees its connection end nor reaches the `recv` behind its relay. -/
def ServesOn (s : PoolState ℤ (Server DB) Handler) (a : Action ℤ Input) : Prop :=
  ∀ w inp k h, a = .task w inp → s.workers[w]? = some k → k.pc = .running h →
    ¬ EndsThread h.pc inp

theorem handlerResult_exited_iff {pc : Pc} {h : Handler} :
    handlerResult pc h = .exited ↔ pc = .exited := by
  cases pc <;> simp [handlerResult]

theorem taskStays_iff_servesOn {s : PoolState ℤ (Server DB) Handler} {a : Action ℤ Input} :
    TaskStays (handlerTasks sql) s a ↔ ServesOn s a := by
  constructor
  · intro hstays w inp k h ha hk hpc hends
    have hexit : threadReadPc sql s.shared h.cfd h.pc inp = some (s.shared, .exited) := by
      rcases hends with ⟨hp, hi⟩ | ⟨hp, hi⟩ <;> simp [hp, hi, threadReadPc]
    exact hstays w inp k h _ ha hk hpc
      (handlerTasks_step_eq_some.mpr ⟨_, _, hexit, by simp, rfl⟩) rfl
  · intro hserves w inp k h r ha hk hpc hstep hres
    obtain ⟨srv', pc, hr, -, rfl⟩ := handlerTasks_step_eq_some.mp hstep
    exact hserves w inp k h ha hk hpc
      ((threadReadPc_exited_iff hr).mp (handlerResult_exited_iff.mp hres))

/-- At the end of a run the counters are those of the threads exactly if in the whole run no
client disconnected and no relay was finished. -/
theorem pool_survives_iff (sql : Sqlite DB) (db : DB) (tid : ℕ → ℕ) (as : List (Action ℤ Input))
    (t : PoolState ℤ (Server DB) Handler)
    (h : (poolMachine (handlerTasks sql)).run (serverPool db tid) as = some t) :
    Survives t ↔ (poolMachine (handlerTasks sql)).EachStep ServesOn (serverPool db tid) as := by
  rw [survives_iff_tasks_stay tid (Server.start db) h]
  exact ⟨.mono fun _ _ => taskStays_iff_servesOn.mp, .mono fun _ _ => taskStays_iff_servesOn.mpr⟩

/-- One client connects and disconnects. -/
def oneVisit : List (Action ℤ Input) :=
  [.call 0, .add 0 none, .work 0 none, .start 0, .task 0 .closed]

/-- Behind the visit two threads are left of the three that `liveNum` and `minNum` say. -/
theorem oneVisit_leaks :
    ∃ t, (poolMachine (handlerTasks .silent)).run (serverPool () (· + 1)) oneVisit = some t ∧
      t.pool.liveNum = 3 ∧ t.pool.busyNum = 1 ∧ t.pool.minNum = 3 ∧
      count WorkerPc.isLive t.workers = 2 ∧ count WorkerPc.isBusy t.workers = 0 ∧
      count WorkerPc.isThread t.workers = 2 ∧ ¬ Survives t := by
  refine ⟨_, rfl, rfl, rfl, rfl, rfl, rfl, rfl, fun hs => ?_⟩
  exact absurd hs.threads (by decide)

theorem oneVisit_ends_thread :
    ¬ (poolMachine (handlerTasks .silent)).EachStep ServesOn (serverPool () (· + 1)) oneVisit := by
  have hrun : (poolMachine (handlerTasks .silent)).run (serverPool () (· + 1)) oneVisit =
      some _ := rfl
  rw [← pool_survives_iff .silent () (· + 1) oneVisit _ hrun]
  exact fun hs => absurd hs.threads (by decide)

end LinuxCat.HandlerPool
