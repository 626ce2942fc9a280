import LinuxCat.ThreadPoolSteps

/-! # Callers blocked on `notFull`

A dequeue wakes one caller, and a caller that arrives may take the slot first. No wake-up is
lost: while anybody is blocked, there are at least as many woken callers as free slots. -/
namespace LinuxCat.ThreadPoolModel
open LabelledMachines LabelledMachines.Machine WaitQueues

variable {α σ τ ε : Type} {M : TaskModel α σ τ ε}

/-- Woken, and not back from `pthread_cond_wait` yet. -/
def Producer.isWoken : Producer α → Bool
  | .woken _ => true
  | _ => false

/-- The queue has room and a caller is blocked on `notFull`, with no wake-up under way. -/
def Stranded (s : PoolState α σ τ) : Prop :=
  s.pool.queueSize < s.pool.queueCapacity ∧ (∃ q ∈ s.producers, q.isWaiting = true) ∧
    ∀ q ∈ s.producers, q.isWoken = false

/-- While a caller is blocked, every free slot has a woken caller of its own. -/
def SlotsCovered (s : PoolState α σ τ) : Prop :=
  (∃ q ∈ s.producers, q.isWaiting = true) →
    s.pool.queueCapacity - s.pool.queueSize ≤ (s.producers.countP Producer.isWoken : ℤ)

theorem SlotsCovered.not_stranded {s : PoolState α σ τ} (h : SlotsCovered s) : ¬ Stranded s := by
  rintro ⟨hroom, hwait, hnone⟩
  have hcover := h hwait
  have hzero : s.producers.countP Producer.isWoken = 0 := by
    rw [List.countP_eq_zero]
    intro q hq
    simp [hnone q hq]
  omega

/-- A caller that is neither blocked nor woken afterwards frees at most its own wake-up. -/
theorem countP_isWoken_set {ps : List (Producer α)} {p : ℕ} {q : Producer α} (q' : Producer α)
    (hp : ps[p]? = some q) (hq' : q'.isWoken = false) :
    ps.countP Producer.isWoken ≤ (ps.set p q').countP Producer.isWoken + 1 := by
  have hc := countP_set_add Producer.isWoken hp q'
  rw [hq'] at hc
  split_ifs at hc <;> omega

theorem waiting_of_set {ps : List (Producer α)} {p : ℕ} {q' : Producer α}
    (hq' : q'.isWaiting = false) (h : ∃ q ∈ ps.set p q', q.isWaiting = true) :
    ∃ q ∈ ps, q.isWaiting = true := by
  obtain ⟨q, hq, hwait⟩ := h
  rcases List.mem_or_eq_of_mem_set hq with hq | rfl
  · exact ⟨q, hq, hwait⟩
  · simp [hq'] at hwait

theorem slotsCovered_step {s t : PoolState α σ τ} {a : Action α ε} (h : SlotsCovered s)
    (hstep : PoolStep M s a t) : SlotsCovered t := by
  cases hstep with
  | call x =>
    intro hwait
    have hold : ∃ q ∈ s.producers, q.isWaiting = true := by
      simpa [Producer.isWaiting] using hwait
    have hcount : (s.producers ++ [Producer.lock x]).countP Producer.isWoken =
        s.producers.countP Producer.isWoken := by
      simp [Producer.isWoken]
    have hcover := h hold
    simp only [hcount]
    exact hcover
  | addBlocks hp hq hfull =>
    -- nothing is free
    intro _
    simp only [hfull, sub_self]
    omega
  | enqueue hp hq hroom hwake =>
    intro hwait
    have hcover := h (waiting_of_set rfl hwait)
    have hcount := countP_isWoken_set .done hp rfl
    simp only [ThreadPool.enqueue]
    omega
  | @spuriousProducer p x hp =>
    intro hwait
    have hcover := h (waiting_of_set rfl hwait)
    have hc := countP_set_add Producer.isWoken hp (.woken x)
    simp only [Producer.isWoken, Bool.false_eq_true, if_false, if_true, add_zero] at hc
    simp only [hc]
    omega
  | dequeue hk hpc he hstay hsome hwake =>
    intro hwait
    obtain ⟨hcount, hold⟩ := countP_condSignal_of_waiting Producer.isWoken
      (by intro q hq; cases q <;> simp_all [Producer.isWaiting, Producer.isWoken])
      (by intro q hq; cases q <;> simp_all [Producer.isWaiting, Producer.wake, Producer.isWoken])
      hwake hwait
    have hcover := h hold
    simp only [ThreadPool.dequeue, hcount]
    omega
  | workBlocks => exact h
  | leave => exact h
  | start => exact h
  | task => exact h
  | finish => exact h
  | threadExit => exact h
  | spuriousWorker => exact h
  | think => exact h
  | askExit => exact h
  | grow => exact h
  | keep => exact h
  | signal => exact h

/-- No run leaves a caller blocked at a queue with room and nobody woken for it. -/
theorem no_caller_stranded {min max cap : ℕ} (tid : ℕ → ℕ) (shared : σ) {t : PoolState α σ τ}
    (h : (poolMachine M).Reachable (threadPoolCreate min max cap tid shared) t) : ¬ Stranded t := by
  have hinv := h.invariant (I := fun s => s.pool.shutdown = false ∧ SlotsCovered s)
    (fun s a u hs hstep => by
      have hcases := poolStep_cases hs.1 hstep
      exact ⟨hcases.shutdown.trans hs.1, slotsCovered_step hs.2 hcases⟩)
    ⟨rfl, by simp [SlotsCovered, threadPoolCreate]⟩
  exact hinv.2.not_stranded

/-- Two callers block at a queue of one slot, and a dequeue signals one of them. -/
def oneSlotFreed : List (Action ℕ Unit) :=
  [.call 0, .add 0 none, .call 1, .add 1 none, .call 2, .add 2 none, .work 0 (some 2)]

theorem oneSlotFreed_covered :
    ∃ t, (poolMachine (opaqueTasks ℕ)).run (threadPoolCreate 1 1 1 (· + 1) ()) oneSlotFreed =
        some t ∧
      t.pool.queueSize = 0 ∧ t.producers = [.done, .waiting 1, .woken 2] ∧ ¬ Stranded t := by
  have hrun : (poolMachine (opaqueTasks ℕ)).run (threadPoolCreate 1 1 1 (· + 1) ()) oneSlotFreed =
      some _ := rfl
  exact ⟨_, hrun, rfl, rfl, no_caller_stranded (· + 1) () ⟨oneSlotFreed, hrun⟩⟩

end LinuxCat.ThreadPoolModel
