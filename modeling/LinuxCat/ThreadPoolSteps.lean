import LinuxCat.ThreadPoolModel

/-! # What one step of the running pool can do

`PoolStep` lists the steps of `poolStep` before shutdown, one constructor a kind, each
with the guards the code tested. Every invariant of the pool is a case analysis on it. -/
namespace LinuxCat.ThreadPoolModel
open LabelledMachines RingBuffers WaitQueues

variable {α σ τ ε : Type}

/-- The slots, the threads and the live count the manager's loop leaves. -/
structure Grows (maxNum : ℕ) (slots slots' tids : List ℕ) (liveNum : ℤ) : Prop where
  created : createThreads maxNum slots tids 0 liveNum = some (slots', tids)
  few : tids.length ≤ NUMBERE
  room : liveNum ≤ maxNum → liveNum + tids.length ≤ maxNum

inductive PoolStep (M : TaskModel α σ τ ε) (s : PoolState α σ τ) :
    Action α ε → PoolState α σ τ → Prop
  | call (x : α) : PoolStep M s (.call x) { s with producers := s.producers ++ [.lock x] }
  | addBlocks {p : ℕ} {q : Producer α} {x : α} {wake : Option ℕ}
      (hp : s.producers[p]? = some q) (hq : q = .lock x ∨ q = .woken x)
      (hfull : s.pool.queueSize = s.pool.queueCapacity) :
      PoolStep M s (.add p wake) { s with producers := s.producers.set p (.waiting x) }
  | enqueue {p : ℕ} {q : Producer α} {x : α} {wake : Option ℕ} {ws : List (Worker α τ)}
      (hp : s.producers[p]? = some q) (hq : q = .lock x ∨ q = .woken x)
      (hroom : s.pool.queueSize ≠ s.pool.queueCapacity)
      (hwake : condSignal Worker.isWaiting Worker.wake wake s.workers = some ws) :
      PoolStep M s (.add p wake)
        { s with
          pool := s.pool.enqueue x
          workers := ws
          producers := s.producers.set p .done
          enqueued := s.enqueued ++ [x] }
  | spuriousProducer {p : ℕ} {x : α} (hp : s.producers[p]? = some (.waiting x)) :
      PoolStep M s (.spuriousProducer p) { s with producers := s.producers.set p (.woken x) }
  | workBlocks {w : ℕ} {k : Worker α τ} {wake : Option ℕ} {e : ℤ}
      (hk : s.workers[w]? = some k) (hpc : k.pc = .lock ∨ k.pc = .woken)
      (he : e = s.pool.exitNum ∨ 0 < s.pool.exitNum ∧ e = s.pool.exitNum - 1)
      (hstay : k.pc = .woken → 0 < s.pool.exitNum → s.pool.liveNum ≤ s.pool.minNum)
      (hempty : s.pool.queueSize = 0) :
      PoolStep M s (.work w wake)
        { s.setWorker w k .waiting with pool := { s.pool with exitNum := e } }
  | dequeue {w : ℕ} {k : Worker α τ} {wake : Option ℕ} {e : ℤ} {ps : List (Producer α)}
      (hk : s.workers[w]? = some k) (hpc : k.pc = .lock ∨ k.pc = .woken)
      (he : e = s.pool.exitNum ∨ 0 < s.pool.exitNum ∧ e = s.pool.exitNum - 1)
      (hstay : k.pc = .woken → 0 < s.pool.exitNum → s.pool.liveNum ≤ s.pool.minNum)
      (hsome : s.pool.queueSize ≠ 0)
      (hwake : condSignal Producer.isWaiting Producer.wake wake s.producers = some ps) :
      PoolStep M s (.work w wake)
        { s.setWorker w k (.taken (slotAt s.pool.taskQ s.pool.queueFront)) with
          pool := { s.pool.dequeue with exitNum := e }
          producers := ps
          dequeued := s.dequeued ++ [(w, slotAt s.pool.taskQ s.pool.queueFront)] }
  | leave {w : ℕ} {k : Worker α τ} {wake : Option ℕ}
      (hk : s.workers[w]? = some k) (hpc : k.pc = .woken) (hexit : 0 < s.pool.exitNum)
      (hlive : s.pool.minNum < s.pool.liveNum) :
      PoolStep M s (.work w wake)
        { s.setWorker w k .exiting with
          pool := { s.pool with
            exitNum := s.pool.exitNum - 1
            liveNum := s.pool.liveNum - 1 } }
  | start {w : ℕ} {k : Worker α τ} {x : α}
      (hk : s.workers[w]? = some k) (hpc : k.pc = .taken (some x)) :
      PoolStep M s (.start w)
        { s.setWorker w k (.running (M.call x)) with
          pool := { s.pool with busyNum := s.pool.busyNum + 1 } }
  | task {w : ℕ} {k : Worker α τ} {t : τ} {e : ε} {r : σ × TaskResult τ}
      (hk : s.workers[w]? = some k) (hpc : k.pc = .running t)
      (hr : M.step s.shared t e = some r) :
      PoolStep M s (.task w e) { s.setWorker w k r.2.pc with shared := r.1 }
  | finish {w : ℕ} {k : Worker α τ} (hk : s.workers[w]? = some k) (hpc : k.pc = .finished) :
      PoolStep M s (.finish w)
        { s.setWorker w k .lock with pool := { s.pool with busyNum := s.pool.busyNum - 1 } }
  | threadExit {w : ℕ} {k : Worker α τ}
      (hk : s.workers[w]? = some k) (hpc : k.pc = .exiting) :
      PoolStep M s (.threadExit w)
        { s.setWorker w k .terminated with
          pool := { s.pool with threadIDs := clearSlot k.tid s.pool.threadIDs } }
  | spuriousWorker {w : ℕ} {k : Worker α τ}
      (hk : s.workers[w]? = some k) (hpc : k.pc = .waiting) :
      PoolStep M s (.spuriousWorker w) (s.setWorker w k .woken)
  | think {m : ManagerPc} : PoolStep M s .manage { s with manager := m }
  | askExit {b l : ℤ} (hm : s.manager = .grown l b) (hidle : b * 2 < l) :
      PoolStep M s .manage
        { s with
          pool := { s.pool with exitNum := NUMBERE }
          manager := .signalling NUMBERE }
  | grow {q l b : ℤ} {tids slots : List ℕ} (tids' : List ℕ)
      (hm : s.manager = .measured q l b) (hneed : l < q)
      (hg : Grows s.pool.maxNum s.pool.threadIDs slots tids s.pool.liveNum) :
      PoolStep M s (.grow tids')
        { s with
          pool := { s.pool with
            threadIDs := slots
            liveNum := s.pool.liveNum + tids.length }
          workers := s.workers ++ tids.map (fun tid => ⟨tid, .lock⟩)
          manager := .grown l b }
  | keep {m : ManagerPc} (tids : List ℕ) : PoolStep M s (.grow tids) { s with manager := m }
  | signal {n : ℕ} {wake : Option ℕ} {ws : List (Worker α τ)}
      (hm : s.manager = .signalling (n + 1))
      (hwake : condSignal Worker.isWaiting Worker.wake wake s.workers = some ws) :
      PoolStep M s (.signal wake) { s with workers := ws, manager := .signalling n }

/-- The creation loop reads no more identifiers than it stores. -/
theorem createThreads_used {maxNum : ℕ} {slots tids slots' used : List ℕ} {c : ℕ} {l : ℤ}
    (h : createThreads maxNum slots tids c l = some (slots', used)) :
    createThreads maxNum slots used c l = some (slots', used) := by
  induction slots generalizing tids slots' used c l with
  | nil =>
    simp only [createThreads, Option.some.injEq, Prod.mk.injEq] at h ⊢
    exact h
  | cons slot slots ih =>
    simp only [createThreads] at h ⊢
    split_ifs at h ⊢ with hc hs
    · cases tids with
      | nil => simp at h
      | cons tid tids =>
        simp only [Option.map_eq_some_iff, Prod.mk.injEq] at h
        obtain ⟨r, hr, rfl, rfl⟩ := h
        simp [ih hr]
    · simp only [Option.map_eq_some_iff, Prod.mk.injEq] at h ⊢
      obtain ⟨r, hr, rfl, rfl⟩ := h
      exact ⟨r, ih hr, rfl, rfl⟩
    · simp only [Option.some.injEq, Prod.mk.injEq] at h ⊢
      exact h

theorem createThreads_bounds {maxNum : ℕ} {slots tids slots' used : List ℕ} {c : ℕ} {l : ℤ}
    (h : createThreads maxNum slots tids c l = some (slots', used)) :
    (c ≤ NUMBERE → c + used.length ≤ NUMBERE) ∧ (l ≤ maxNum → l + used.length ≤ maxNum) := by
  induction slots generalizing tids slots' used c l with
  | nil =>
    simp only [createThreads, Option.some.injEq, Prod.mk.injEq] at h
    simp [← h.2]
  | cons slot slots ih =>
    simp only [createThreads] at h
    split_ifs at h with hc hs
    · cases tids with
      | nil => simp at h
      | cons tid tids =>
        simp only [Option.map_eq_some_iff, Prod.mk.injEq] at h
        obtain ⟨r, hr, -, rfl⟩ := h
        have hb := ih hr
        rw [List.length_cons]
        omega
    · simp only [Option.map_eq_some_iff, Prod.mk.injEq] at h
      obtain ⟨r, hr, -, rfl⟩ := h
      exact ih hr
    · simp only [Option.some.injEq, Prod.mk.injEq] at h
      simp [← h.2]

theorem createThreads_grows {maxNum : ℕ} {slots tids slots' used : List ℕ} {l : ℤ}
    (h : createThreads maxNum slots tids 0 l = some (slots', used)) :
    Grows maxNum slots slots' used l := by
  obtain ⟨hfew, hroom⟩ := createThreads_bounds h
  exact ⟨createThreads_used h, by simpa using hfew (Nat.zero_le _), hroom⟩

section
variable {M : TaskModel α σ τ ε} {s t : PoolState α σ τ}

private theorem threadPoolAdd_cases {p : ℕ} {q : Producer α} {x : α} {wake : Option ℕ}
    (hs : s.pool.shutdown = false) (hp : s.producers[p]? = some q)
    (hq : q = .lock x ∨ q = .woken x) (h : threadPoolAdd s p x wake = some t) :
    PoolStep M s (.add p wake) t := by
  unfold threadPoolAdd at h
  split_ifs at h with hfull hdown
  · cases h
    exact .addBlocks hp hq hfull.1
  · simp [hs] at hdown
  · obtain ⟨ws, hws, rfl⟩ := Option.map_eq_some_iff.mp h
    exact .enqueue hp hq (fun hf => hfull ⟨hf, hs⟩) hws

/-- `worker` on a pool whose exit requests may just have been reduced by one. -/
private theorem worker_cases {w : ℕ} {k : Worker α τ} {wake : Option ℕ} {e : ℤ}
    (hs : s.pool.shutdown = false) (hk : s.workers[w]? = some k)
    (hpc : k.pc = .lock ∨ k.pc = .woken)
    (he : e = s.pool.exitNum ∨ 0 < s.pool.exitNum ∧ e = s.pool.exitNum - 1)
    (hstay : k.pc = .woken → 0 < s.pool.exitNum → s.pool.liveNum ≤ s.pool.minNum)
    (h : worker { s with pool := { s.pool with exitNum := e } } w k wake = some t) :
    PoolStep M s (.work w wake) t := by
  unfold worker at h
  split_ifs at h with hempty hdown
  · cases h
    exact .workBlocks hk hpc he hstay hempty.1
  · simp [hs] at hdown
  · obtain ⟨ps, hps, rfl⟩ := Option.map_eq_some_iff.mp h
    exact .dequeue hk hpc he hstay (fun hz => hempty ⟨hz, hs⟩) hps

private theorem work_cases {w : ℕ} {k : Worker α τ} {wake : Option ℕ}
    (hs : s.pool.shutdown = false) (hk : s.workers[w]? = some k)
    (h : workerStep M s w k (.work w wake) = some t) : PoolStep M s (.work w wake) t := by
  simp only [workerStep] at h
  split at h
  next hpc => exact worker_cases hs hk (.inl hpc) (.inl rfl) (by simp [hpc]) h
  next hpc =>
    simp only [afterWait] at h
    split_ifs at h with hexit hlive
    · cases h
      exact .leave hk hpc hexit hlive
    · exact worker_cases hs hk (.inr hpc) (.inr ⟨hexit, rfl⟩) (fun _ _ => not_lt.mp hlive) h
    · exact worker_cases hs hk (.inr hpc) (.inl rfl) (fun _ he => absurd he hexit) h
  next => cases h

private theorem workerStep_cases {w : ℕ} {k : Worker α τ} {a : Action α ε}
    (hs : s.pool.shutdown = false) (hk : s.workers[w]? = some k)
    (ha : a = .start w ∨ (∃ e, a = .task w e) ∨ a = .finish w ∨ a = .threadExit w ∨
      a = .spuriousWorker w ∨ ∃ wake, a = .work w wake)
    (h : workerStep M s w k a = some t) : PoolStep M s a t := by
  obtain rfl | ⟨e, rfl⟩ | rfl | rfl | rfl | ⟨wake, rfl⟩ := ha
  · simp only [workerStep] at h
    split at h
    next x hpc => cases h; exact .start hk hpc
    next => cases h
  · simp only [workerStep] at h
    split at h
    next y hpc =>
      simp only [Option.map_eq_some_iff] at h
      obtain ⟨r, hr, rfl⟩ := h
      exact .task hk hpc hr
    next => cases h
  · simp only [workerStep] at h
    split at h
    next hpc => cases h; exact .finish hk hpc
    next => cases h
  · simp only [workerStep] at h
    split at h
    next hpc => cases h; exact .threadExit hk hpc
    next => cases h
  · simp only [workerStep] at h
    split at h
    next hpc => cases h; exact .spuriousWorker hk hpc
    next => cases h
  · exact work_cases hs hk h

private theorem manager_cases (h : manager s = some t) : PoolStep M s .manage t := by
  unfold manager at h
  split at h
  next => cases h; exact .think
  next => cases h; exact .think
  next => cases h; exact .think
  next l b hm =>
    split_ifs at h with hidle
    · cases h; exact .askExit hm hidle.1
    · cases h; exact .think
  next => cases h; exact .think
  next => cases h

private theorem growThreads_cases {tids : List ℕ} (h : growThreads s tids = some t) :
    PoolStep M s (.grow tids) t := by
  unfold growThreads at h
  split at h
  next q l b hm =>
    split_ifs at h with hneed
    · simp only [Option.map_eq_some_iff] at h
      obtain ⟨⟨slots, used⟩, hr, rfl⟩ := h
      exact .grow tids hm hneed.1 (createThreads_grows hr)
    · cases h; exact .keep tids
  next => cases h

/-- The inversion lemma: before shutdown, `poolStep` takes only the listed steps. -/
theorem poolStep_cases {a : Action α ε} (hs : s.pool.shutdown = false)
    (h : poolStep M s a = some t) : PoolStep M s a t := by
  have hworker {w : ℕ} (ha : a = .start w ∨ (∃ e, a = .task w e) ∨ a = .finish w ∨
      a = .threadExit w ∨ a = .spuriousWorker w ∨ ∃ wake, a = .work w wake)
      (h : (s.workers[w]?).bind (fun k => workerStep M s w k a) = some t) :
      PoolStep M s a t := by
    obtain ⟨k, hk, hstep⟩ := Option.bind_eq_some_iff.mp h
    exact workerStep_cases hs hk ha hstep
  cases a with
  | call x => cases h; exact .call x
  | add p wake =>
    simp only [poolStep] at h
    split at h
    next x hp => exact threadPoolAdd_cases hs hp (.inl rfl) h
    next x hp => exact threadPoolAdd_cases hs hp (.inr rfl) h
    next => cases h
  | work w wake => exact hworker (by simp) h
  | start w => exact hworker (by simp) h
  | task w e => exact hworker (by simp) h
  | finish w => exact hworker (by simp) h
  | threadExit w => exact hworker (by simp) h
  | spuriousWorker w => exact hworker (by simp) h
  | spuriousProducer p =>
    simp only [poolStep] at h
    split at h
    next x hp => cases h; exact .spuriousProducer hp
    next => cases h
  | manage => exact manager_cases h
  | grow tids => exact growThreads_cases h
  | signal wake =>
    simp only [poolStep] at h
    split at h
    next n hm =>
      simp only [Option.map_eq_some_iff] at h
      obtain ⟨ws, hws, rfl⟩ := h
      exact .signal hm hws
    next => cases h

/-- No step but `threadPoolDestroy` sets `shutdown`. -/
theorem PoolStep.shutdown {a : Action α ε} (h : PoolStep M s a t) :
    t.pool.shutdown = s.pool.shutdown := by
  cases h <;> rfl

theorem PoolStep.minNum {a : Action α ε} (h : PoolStep M s a t) :
    t.pool.minNum = s.pool.minNum := by
  cases h <;> rfl

end
end LinuxCat.ThreadPoolModel
