import LinuxCat.ThreadPoolSteps

/-! # The pool's task queue is a bounded FIFO queue

The five queue fields of `ThreadPool` are those of a `RingBuffer`, and every step of the
pool is a step of the queue machine or none at all, whatever the threads do. -/
namespace LinuxCat.ThreadPoolModel
open LabelledMachines LabelledMachines.Machine RingBuffers WaitQueues

variable {α σ τ ε : Type} {M : TaskModel α σ τ ε}

/-- The queue fields of the pool are the fields of the ring buffer `b`. -/
structure ThreadPool.Holds (p : ThreadPool α) (b : RingBuffer α) : Prop where
  slots : p.taskQ = b.slots
  capacity : p.queueCapacity = b.slots.length
  size : p.queueSize = b.size
  front : p.queueFront = b.front
  rear : p.queueRear = b.rear

/-- The pool stands for the queue `f`. -/
structure QueueRefines (cap : ℕ) (s : PoolState α σ τ) (f : Fifo α) : Prop where
  running : s.pool.shutdown = false
  capacity : s.pool.queueCapacity = cap
  buffer : ∃ b : RingBuffer α, s.pool.Holds b ∧ b.contents = f.queue.map some
  put : s.enqueued = f.put
  got : s.dequeued.map Prod.snd = f.got.map some

theorem queueRefines_create {min max cap : ℕ} (hcap : 1 ≤ cap) (tid : ℕ → ℕ) (shared : σ) :
    QueueRefines cap (threadPoolCreate min max cap tid shared : PoolState α σ τ) (.empty α) where
  running := rfl
  capacity := rfl
  buffer := ⟨.empty α cap hcap, ⟨rfl, by simp [threadPoolCreate, RingBuffer.empty], rfl, rfl, rfl⟩,
    rfl⟩
  put := rfl
  got := rfl

/-- Everything the refinement reads is the same in both states. -/
structure SameQueue (s t : PoolState α σ τ) : Prop where
  taskQ : t.pool.taskQ = s.pool.taskQ
  queueCapacity : t.pool.queueCapacity = s.pool.queueCapacity
  queueSize : t.pool.queueSize = s.pool.queueSize
  queueFront : t.pool.queueFront = s.pool.queueFront
  queueRear : t.pool.queueRear = s.pool.queueRear
  shutdown : t.pool.shutdown = s.pool.shutdown
  enqueued : t.enqueued = s.enqueued
  dequeued : t.dequeued = s.dequeued

theorem QueueRefines.of_sameQueue {cap : ℕ} {s t : PoolState α σ τ} {f : Fifo α}
    (h : QueueRefines cap s f) (hst : SameQueue s t) : QueueRefines cap t f := by
  obtain ⟨b, hb, hc⟩ := h.buffer
  exact ⟨hst.shutdown.trans h.running, hst.queueCapacity.trans h.capacity,
    ⟨b, ⟨hst.taskQ.trans hb.slots, hst.queueCapacity.trans hb.capacity,
      hst.queueSize.trans hb.size, hst.queueFront.trans hb.front,
      hst.queueRear.trans hb.rear⟩, hc⟩,
    hst.enqueued.trans h.put, (congrArg _ hst.dequeued).trans h.got⟩

theorem ThreadPool.Holds.enqueue {p : ThreadPool α} {b : RingBuffer α} (h : p.Holds b) (x : α)
    (hroom : b.size < b.capacity) : (p.enqueue x).Holds (b.push x hroom) where
  slots := by simp [ThreadPool.enqueue, RingBuffer.push, h.slots, h.rear]
  capacity := by simp [ThreadPool.enqueue, RingBuffer.push, h.capacity]
  size := by simp [ThreadPool.enqueue, RingBuffer.push, h.size]
  front := by simp [ThreadPool.enqueue, RingBuffer.push, h.front]
  rear := by simp [ThreadPool.enqueue, RingBuffer.push, h.rear, h.capacity]

theorem ThreadPool.Holds.dequeue {p : ThreadPool α} {b : RingBuffer α} (h : p.Holds b) (e : ℤ)
    (hsome : 0 < b.size) : { p.dequeue with exitNum := e }.Holds (b.pop hsome) where
  slots := by simp [ThreadPool.dequeue, RingBuffer.pop, h.slots]
  capacity := by simp [ThreadPool.dequeue, RingBuffer.pop, h.capacity]
  size := by
    simp only [ThreadPool.dequeue, RingBuffer.pop, h.size]
    omega
  front := by simp [ThreadPool.dequeue, RingBuffer.pop, h.front, h.capacity]
  rear := by simp [ThreadPool.dequeue, RingBuffer.pop, h.rear]

theorem ThreadPool.Holds.slotAt_front {p : ThreadPool α} {b : RingBuffer α} (h : p.Holds b) :
    slotAt p.taskQ p.queueFront = b.first := by
  rw [h.slots, h.front]
  rfl

/-- A pool step is a `put`, a `take`, or invisible to the queue. -/
theorem step_refines {cap : ℕ} {s t : PoolState α σ τ} {f : Fifo α} {a : Action α ε}
    (hr : QueueRefines cap s f) (hstep : PoolStep M s a t) :
    QueueRefines cap t f ∨
      ∃ b g, (fifoMachine α cap).step f b = some g ∧ QueueRefines cap t g := by
  obtain ⟨b, hb, hc⟩ := hr.buffer
  have hlen : f.queue.length = b.size := by
    rw [← b.length_contents, hc, List.length_map]
  have hbcap : b.capacity = cap := hb.capacity.symm.trans hr.capacity
  cases hstep with
  | @enqueue p q x wake ws hp hq hroom hwake =>
    have hlt : b.size < b.capacity := by
      have hne : b.size ≠ b.capacity := by
        intro he
        apply hroom
        rw [hb.size, hb.capacity]
        exact_mod_cast he
      have := b.size_le
      exact lt_of_le_of_ne this hne
    refine .inr ⟨.put x, ⟨f.queue ++ [x], f.put ++ [x], f.got⟩, ?_, ?_⟩
    · simp [fifoMachine, hlen, ← hbcap, hlt]
    · refine ⟨hr.running, hr.capacity, ⟨b.push x hlt, hb.enqueue x hlt, ?_⟩, ?_, hr.got⟩
      · rw [b.contents_push, hc, List.map_append, List.map_singleton]
      · exact congrArg (· ++ [x]) hr.put
  | @dequeue w k wake e ps hk hpc he hstay hsome hwake =>
    have hpos : 0 < b.size := by
      have := hb.size
      omega
    have hfirst := b.contents_pop hpos
    cases hq : f.queue with
    | nil =>
      rw [hq, List.length_nil] at hlen
      omega
    | cons x queue =>
      rw [hc, hq, List.map_cons, List.cons.injEq] at hfirst
      refine .inr ⟨.take, ⟨queue, f.put, f.got ++ [x]⟩, by simp [fifoMachine, hq], ?_⟩
      refine ⟨hr.running, hr.capacity, ⟨b.pop hpos, hb.dequeue e hpos, hfirst.2.symm⟩,
        hr.put, ?_⟩
      simp only [List.map_append, List.map_singleton, hr.got, hb.slotAt_front, ← hfirst.1]
  | _ => exact .inl (hr.of_sameQueue ⟨rfl, rfl, rfl, rfl, rfl, rfl, rfl, rfl⟩)

theorem poolMachine_simulates_fifo (M : TaskModel α σ τ ε) (cap : ℕ) :
    Simulates (poolMachine M) (fifoMachine α cap) (QueueRefines cap) := by
  intro s a t f hr hstep
  rcases step_refines hr (poolStep_cases hr.running hstep) with h | ⟨b, g, hg, h⟩
  · exact ⟨f, .refl _ f, h⟩
  · exact ⟨g, (Reachable.refl _ f).step hg, h⟩

/-- What a worker took and has not started yet is the last entry of the history under its
name, so no entry is in the hands of two workers. -/
def TakenIsLast (s : PoolState α σ τ) : Prop :=
  ∀ w k x, s.workers[w]? = some k → k.pc = .taken x →
    (s.dequeued.filter (fun d => d.1 = w)).getLast? = some (w, x)

theorem TakenIsLast.set {s t : PoolState α σ τ} (h : TakenIsLast s) {w : ℕ} {k : Worker α τ}
    (hd : t.dequeued = s.dequeued) (hw : t.workers = s.workers.set w k)
    (hk : ∀ x, k.pc ≠ .taken x) : TakenIsLast t := by
  intro v j x hj hx
  rw [hw, List.getElem?_set] at hj
  rw [hd]
  split_ifs at hj with hvw
  · cases hj
    exact absurd hx (hk x)
  · exact h v j x hj hx

theorem TakenIsLast.condSignal {s t : PoolState α σ τ} (h : TakenIsLast s) {wake : Option ℕ}
    (hd : t.dequeued = s.dequeued)
    (hw : condSignal Worker.isWaiting Worker.wake wake s.workers = some t.workers) :
    TakenIsLast t := by
  obtain ⟨-, hws⟩ | ⟨i, k, -, -, hws⟩ := condSignal_cases hw
  · intro v j x hj hx
    rw [hws] at hj
    rw [hd]
    exact h v j x hj hx
  · exact h.set hd hws (by simp [Worker.wake])

theorem takenIsLast_step {s t : PoolState α σ τ} {a : Action α ε} (h : TakenIsLast s)
    (hstep : PoolStep M s a t) : TakenIsLast t := by
  cases hstep with
  | enqueue _ _ _ hwake => exact h.condSignal rfl hwake
  | signal _ hwake => exact h.condSignal rfl hwake
  | task => exact h.set rfl rfl (by rename_i r _ _ _; cases hr : r.2 <;> simp [TaskResult.pc])
  | @dequeue w k wake e ps hk hpc he hstay hsome hwake =>
    intro v j x hj hx
    simp only [PoolState.setWorker, List.getElem?_set] at hj
    simp only [List.filter_append]
    split_ifs at hj with hvw hlt
    · subst hvw
      cases hj
      simpa using hx
    · simpa [hvw] using h v j x hj hx
  | grow tids' hm hneed hg =>
    intro v j x hj hx
    rcases List.getElem?_append .. ▸ hj with hj
    split_ifs at hj with hlt
    · exact h v j x hj hx
    · obtain ⟨tid, -, rfl⟩ := List.mem_map.mp (List.mem_of_getElem? hj)
      cases hx
  | workBlocks => exact h.set rfl rfl (by simp)
  | leave => exact h.set rfl rfl (by simp)
  | start => exact h.set rfl rfl (by simp)
  | finish => exact h.set rfl rfl (by simp)
  | threadExit => exact h.set rfl rfl (by simp)
  | spuriousWorker => exact h.set rfl rfl (by simp)
  | _ => exact h

theorem takenIsLast_of_reachable {min max cap : ℕ} (tid : ℕ → ℕ) (shared : σ)
    {t : PoolState α σ τ}
    (h : (poolMachine M).Reachable (threadPoolCreate min max cap tid shared) t) :
    TakenIsLast t := by
  have hinv : t.pool.shutdown = false ∧ TakenIsLast t := by
    refine h.invariant (I := fun s => s.pool.shutdown = false ∧ TakenIsLast s) ?_ ⟨rfl, ?_⟩
    · intro s a u hs hstep
      have hcases := poolStep_cases hs.1 hstep
      exact ⟨hcases.shutdown.trans hs.1, takenIsLast_step hs.2 hcases⟩
    · intro w k x hk hx
      obtain ⟨i, -, rfl⟩ := List.mem_map.mp (List.mem_of_getElem? hk)
      cases hx
  exact hinv.2

/-- In every reachable state of the pool the queue fields agree, and what was taken out
followed by what is still queued is what was put in, in order. -/
theorem taskQueue_refines_fifo (M : TaskModel α σ τ ε) (min max cap : ℕ) (hcap : 1 ≤ cap)
    (tid : ℕ → ℕ) (shared : σ) (t : PoolState α σ τ)
    (h : (poolMachine M).Reachable (threadPoolCreate min max cap tid shared) t) :
    t.pool.queueCapacity = cap ∧
    (0 ≤ t.pool.queueSize ∧ t.pool.queueSize ≤ t.pool.queueCapacity) ∧
    t.pool.queueFront < t.pool.queueCapacity ∧ t.pool.queueRear < t.pool.queueCapacity ∧
    (t.pool.queueRear : ℤ) = (t.pool.queueFront + t.pool.queueSize) % t.pool.queueCapacity ∧
    t.dequeued.map Prod.snd ++
        readFrom t.pool.taskQ t.pool.queueFront t.pool.queueSize.toNat =
      t.enqueued.map some ∧
    TakenIsLast t := by
  obtain ⟨f, hf, hr⟩ := (poolMachine_simulates_fifo M cap).reachable
    (queueRefines_create hcap tid shared) h
  have hexact := (Fifo.exact_of_reachable hf).1
  obtain ⟨b, hb, hc⟩ := hr.buffer
  have hrear := b.rear_eq
  have hsize := b.size_le
  refine ⟨hr.capacity, ⟨?_, ?_⟩, ?_, ?_, ?_, ?_, takenIsLast_of_reachable tid shared h⟩
  · rw [hb.size]
    omega
  · rw [hb.size, hb.capacity]
    exact_mod_cast hsize
  · rw [hb.front, hb.capacity]
    exact b.front_lt
  · rw [hb.rear, hb.capacity]
    exact b.rear_lt
  · rw [hb.rear, hb.front, hb.size, hb.capacity, hrear]
    push_cast
    rfl
  · have hcontents : readFrom t.pool.taskQ t.pool.queueFront t.pool.queueSize.toNat =
        f.queue.map some := by
      rw [hb.slots, hb.front, hb.size, Int.toNat_natCast, ← hc]
      rfl
    rw [hcontents, hr.got, hr.put, ← hexact, List.map_append]

/-- Two tasks pass through a queue of one slot: the second call blocks until the first
task is taken, and both indices wrap at every step. -/
def oneSlotRun : List (Action ℕ Unit) :=
  [.call 7, .call 8, .add 0 none, .add 1 none, .work 0 (some 1), .add 1 none,
    .start 0, .task 0 (), .finish 0, .work 0 none]

theorem taskQueue_refines_fifo_oneSlot :
    ∃ t, (poolMachine (opaqueTasks ℕ)).run (threadPoolCreate 1 1 1 (· + 1) ()) oneSlotRun =
        some t ∧
      t.enqueued = [7, 8] ∧
      t.dequeued.map Prod.snd ++
          readFrom t.pool.taskQ t.pool.queueFront t.pool.queueSize.toNat =
        [some 7, some 8] := by
  refine ⟨_, rfl, rfl, ?_⟩
  have h := taskQueue_refines_fifo (opaqueTasks ℕ) 1 1 1 (by decide) (· + 1) () _
    ⟨oneSlotRun, rfl⟩
  exact h.2.2.2.2.2.1

end LinuxCat.ThreadPoolModel
