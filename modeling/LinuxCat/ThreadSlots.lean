import LinuxCat.WorkerAccounting

/-! # Who stands in `threadIDs`

A slot is filled when its thread is created and cleared by the thread itself, after `liveNum`
has gone down. The slots in use and the threads that have not cleared theirs are the same
identifiers, whatever the manager decides on its snapshots. -/
namespace LinuxCat.ThreadPoolModel
open LabelledMachines LabelledMachines.Machine WaitQueues

variable {α σ τ ε : Type} {M : TaskModel α σ τ ε}

/-- The identifiers of the threads that have not ended. -/
def PoolState.unterminated (s : PoolState α σ τ) : List ℕ :=
  (s.workers.filter (fun k => k.pc.isThread)).map Worker.tid

/-- What `pthread_create` promises: threads that exist have identifiers of their own. -/
def DistinctIds (s : PoolState α σ τ) : Prop := s.unterminated.Nodup ∧ 0 ∉ s.unterminated

instance (s : PoolState α σ τ) : Decidable (DistinctIds s) := inferInstanceAs (Decidable (_ ∧ _))

def ThreadPool.usedSlots (p : ThreadPool α) : List ℕ := p.threadIDs.filter (· ≠ 0)

/-- Every task function returns to `worker`. -/
def TaskModel.Returns (M : TaskModel α σ τ ε) : Prop :=
  ∀ shared x e r, M.step shared x e = some r → r.2 ≠ .exited

theorem usedSlots_cons {slot : ℕ} (hs : slot ≠ 0) (slots : List ℕ) :
    (slot :: slots).filter (· ≠ 0) = slot :: slots.filter (· ≠ 0) := by
  simp [hs]

theorem clearSlot_perm {tid : ℕ} {slots : List ℕ} (hz : tid ≠ 0)
    (h : tid ∈ slots.filter (· ≠ 0)) :
    (slots.filter (· ≠ 0)).Perm (tid :: (clearSlot tid slots).filter (· ≠ 0)) := by
  induction slots with
  | nil => simp at h
  | cons slot slots ih =>
    simp only [clearSlot]
    by_cases he : slot = tid
    · subst he
      simp [hz]
    · rw [if_neg he]
      have hmem : tid ∈ slots.filter (· ≠ 0) := by
        have := List.mem_filter.mp h
        refine List.mem_filter.mpr ⟨?_, this.2⟩
        exact (List.mem_cons.mp this.1).resolve_left (Ne.symm he)
      by_cases hs : slot = 0
      · simpa [hs] using ih hmem
      · rw [usedSlots_cons hs, usedSlots_cons hs]
        exact ((ih hmem).cons slot).trans (.swap _ _ _)

/-- The creation loop puts each new identifier into a slot that was free. -/
theorem createThreads_perm {maxNum : ℕ} {slots tids slots' used : List ℕ} {c : ℕ} {l : ℤ}
    (h : createThreads maxNum slots tids c l = some (slots', used)) (hz : 0 ∉ used) :
    (slots'.filter (· ≠ 0)).Perm (slots.filter (· ≠ 0) ++ used) := by
  induction slots generalizing tids slots' used c l with
  | nil =>
    simp only [createThreads, Option.some.injEq, Prod.mk.injEq] at h
    simp [← h.1, ← h.2]
  | cons slot slots ih =>
    simp only [createThreads] at h
    split_ifs at h with hc hs
    · cases tids with
      | nil => simp at h
      | cons tid tids =>
        simp only [Option.map_eq_some_iff, Prod.mk.injEq] at h
        obtain ⟨r, hr, rfl, rfl⟩ := h
        simp only [List.mem_cons, not_or] at hz
        rw [usedSlots_cons (Ne.symm hz.1), List.filter_cons_of_neg (by simp [hs])]
        exact ((ih hr hz.2).cons tid).trans List.perm_middle.symm
    · simp only [Option.map_eq_some_iff, Prod.mk.injEq] at h
      obtain ⟨r, hr, rfl, rfl⟩ := h
      rw [usedSlots_cons hs, usedSlots_cons hs]
      exact (ih hr hz).cons slot
    · simp only [Option.some.injEq, Prod.mk.injEq] at h
      simp [← h.1, ← h.2]

/-- The bounds of the counters, and the slots against the threads. -/
structure Slots (s : PoolState α σ τ) : Prop where
  running : s.pool.shutdown = false
  most : s.pool.liveNum ≤ s.pool.maxNum
  exits : 0 ≤ s.pool.exitNum ∧ s.pool.exitNum ≤ NUMBERE
  slots : s.pool.usedSlots.Perm s.unterminated
  kept : count WorkerPc.isLost s.workers = 0

theorem unterminated_create (min max cap : ℕ) (tid : ℕ → ℕ) (shared : σ) :
    (threadPoolCreate min max cap tid shared : PoolState α σ τ).unterminated =
      (List.range min).map tid := by
  simp [PoolState.unterminated, threadPoolCreate, List.filter_map, Function.comp_def,
    WorkerPc.isThread]

theorem slots_create {min max cap : ℕ} {tid : ℕ → ℕ} {shared : σ} (hmax : min ≤ max)
    (hids : DistinctIds (threadPoolCreate min max cap tid shared : PoolState α σ τ)) :
    Slots (threadPoolCreate min max cap tid shared : PoolState α σ τ) where
  running := rfl
  most := by simpa [threadPoolCreate] using hmax
  exits := ⟨le_rfl, by simp [threadPoolCreate]⟩
  slots := by
    obtain ⟨n, rfl⟩ := Nat.exists_eq_add_of_le hmax
    have hz := hids.2
    rw [unterminated_create] at hz ⊢
    have hfirst : ((List.range min).map (fun i => if i < min then tid i else 0)).filter (· ≠ 0) =
        (List.range min).map tid := by
      have hmap : (List.range min).map (fun i => if i < min then tid i else 0) =
          (List.range min).map tid :=
        List.map_congr_left fun i hi => if_pos (List.mem_range.mp hi)
      rw [hmap, List.filter_eq_self]
      intro id hid
      simpa using fun h : id = 0 => hz (h ▸ hid)
    have hrest : ((List.range n).map (fun i => if min + i < min then tid (min + i) else 0)).filter
        (· ≠ 0) = [] := by
      rw [List.filter_eq_nil_iff]
      simp
    rw [ThreadPool.usedSlots]
    simp only [threadPoolCreate, List.range_add, List.map_append, List.filter_append, List.map_map,
      Function.comp_def, hfirst, hrest, List.append_nil]
    exact .refl _
  kept := by simp [threadPoolCreate, count_create, WorkerPc.isLost]

/-- A worker that stays a thread keeps its slot. -/
theorem Slots.set {s t : PoolState α σ τ} (h : Slots s) {w : ℕ} {k : Worker α τ}
    {pc : WorkerPc α τ} (hk : s.workers[w]? = some k)
    (hws : t.workers = s.workers.set w { k with pc := pc })
    (hdown : t.pool.shutdown = s.pool.shutdown) (hslots : t.pool.threadIDs = s.pool.threadIDs)
    (hmost : t.pool.liveNum ≤ t.pool.maxNum)
    (hexits : 0 ≤ t.pool.exitNum ∧ t.pool.exitNum ≤ NUMBERE)
    (hold : k.pc.isThread = true) (hnew : pc.isThread = true) : Slots t := by
  refine ⟨hdown.trans h.running, hmost, hexits, ?_, ?_⟩
  · have hids : t.unterminated = s.unterminated := by
      rw [PoolState.unterminated, hws]
      exact map_filter_set hk (hnew.trans hold.symm) rfl
    rw [hids, ThreadPool.usedSlots, hslots]
    exact h.slots
  · have hc := count_set WorkerPc.isLost hk pc
    have hl := h.kept
    have hlost {pc : WorkerPc α τ} (hpc : pc.isThread = true) : pc.isLost = false := by
      cases pc <;> first | rfl | cases hpc
    rw [hlost hold, hlost hnew, ← hws] at hc
    simp only [Bool.false_eq_true, if_false] at hc
    omega

theorem Slots.condSignal {s t : PoolState α σ τ} (h : Slots s) {wake : Option ℕ}
    (hwake : condSignal Worker.isWaiting Worker.wake wake s.workers = some t.workers)
    (hdown : t.pool.shutdown = s.pool.shutdown) (hslots : t.pool.threadIDs = s.pool.threadIDs)
    (hlive : t.pool.liveNum = s.pool.liveNum) (hmax : t.pool.maxNum = s.pool.maxNum)
    (hexit : t.pool.exitNum = s.pool.exitNum) : Slots t := by
  have hmost : t.pool.liveNum ≤ t.pool.maxNum := by
    rw [hlive, hmax]
    exact h.most
  obtain ⟨-, hws⟩ | ⟨w, k, hk, hwait, hws⟩ := condSignal_cases hwake
  · refine ⟨hdown.trans h.running, hmost, hexit ▸ h.exits, ?_, by rw [hws]; exact h.kept⟩
    rw [PoolState.unterminated, hws, ThreadPool.usedSlots, hslots]
    exact h.slots
  · exact h.set hk hws hdown hslots hmost (hexit ▸ h.exits)
      (by rw [worker_isWaiting_iff.mp hwait]; rfl) rfl

theorem slots_step {s t : PoolState α σ τ} {a : Action α ε} (hM : M.Returns) (h : Slots s)
    (hs : DistinctIds s) (ht : DistinctIds t) (hstep : PoolStep M s a t) : Slots t := by
  have hmost := h.most
  have hexits := h.exits
  cases hstep with
  | call => exact ⟨h.running, hmost, hexits, h.slots, h.kept⟩
  | addBlocks => exact ⟨h.running, hmost, hexits, h.slots, h.kept⟩
  | spuriousProducer => exact ⟨h.running, hmost, hexits, h.slots, h.kept⟩
  | think => exact ⟨h.running, hmost, hexits, h.slots, h.kept⟩
  | askExit => exact ⟨h.running, hmost, ⟨by simp, le_rfl⟩, h.slots, h.kept⟩
  | keep => exact ⟨h.running, hmost, hexits, h.slots, h.kept⟩
  | enqueue _ _ _ hwake => exact h.condSignal hwake rfl rfl rfl rfl rfl
  | signal _ hwake => exact h.condSignal hwake rfl rfl rfl rfl rfl
  | workBlocks hk hpc he =>
    refine h.set hk rfl rfl rfl hmost ?_ ?_ rfl
    · dsimp only
      omega
    · rcases hpc with hpc | hpc <;> rw [hpc] <;> rfl
  | dequeue hk hpc he =>
    refine h.set hk rfl rfl rfl hmost ?_ ?_ rfl
    · dsimp only
      omega
    · rcases hpc with hpc | hpc <;> rw [hpc] <;> rfl
  | leave hk hpc hexit =>
    refine h.set hk rfl rfl rfl ?_ ?_ (by rw [hpc]; rfl) rfl <;> dsimp only <;> omega
  | start hk hpc => exact h.set hk rfl rfl rfl hmost hexits (by rw [hpc]; rfl) rfl
  | finish hk hpc => exact h.set hk rfl rfl rfl hmost hexits (by rw [hpc]; rfl) rfl
  | spuriousWorker hk hpc => exact h.set hk rfl rfl rfl hmost hexits (by rw [hpc]; rfl) rfl
  | @task w k x e r hk hpc hr =>
    refine h.set hk rfl rfl rfl hmost hexits (by rw [hpc]; rfl) ?_
    cases hres : r.2 with
    | exited => exact absurd hres (hM _ _ _ _ hr)
    | running y => rfl
    | returned => rfl
  | @threadExit w k hk hpc =>
    have hthread : k.pc.isThread = true := by rw [hpc]; rfl
    have hperm : s.unterminated.Perm
        (k.tid :: PoolState.unterminated (s.setWorker w k .terminated)) :=
      map_filter_set_perm (p := fun k : Worker α τ => k.pc.isThread) (f := Worker.tid)
        { k with pc := .terminated } hk hthread rfl
    have hmem : k.tid ∈ s.unterminated := hperm.symm.subset List.mem_cons_self
    have hz : k.tid ≠ 0 := fun h0 => hs.2 (h0 ▸ hmem)
    refine ⟨h.running, hmost, hexits, ?_, ?_⟩
    · have hclear := clearSlot_perm hz (h.slots.symm.subset hmem)
      exact (hclear.symm.trans (h.slots.trans hperm)).cons_inv
    · have hc := count_set WorkerPc.isLost hk .terminated
      have hl := h.kept
      simp only [hpc, WorkerPc.isLost, Bool.false_eq_true, if_false] at hc
      simp only [PoolState.setWorker]
      omega
  | @grow q l b tids slots tids' hm hneed hg =>
    have hids : PoolState.unterminated
        { s with
          pool := { s.pool with threadIDs := slots, liveNum := s.pool.liveNum + tids.length }
          workers := s.workers ++ tids.map (fun tid => ⟨tid, .lock⟩)
          manager := .grown l b } = s.unterminated ++ tids := by
      simp [PoolState.unterminated, List.filter_map, Function.comp_def, WorkerPc.isThread]
    have hz : 0 ∉ tids := by
      intro h0
      refine ht.2 ?_
      rw [hids]
      exact List.mem_append_right _ h0
    refine ⟨h.running, hg.room hmost, hexits, ?_, ?_⟩
    · rw [hids]
      exact (createThreads_perm hg.created hz).trans (h.slots.append_right tids)
    · rw [count_grow, h.kept]
      rfl

/-- What the counters and the slots of the pool say about its threads. -/
structure PoolAccounts (min max : ℕ) (s : PoolState α σ τ) : Prop where
  live_bounds : min ≤ s.pool.liveNum ∧ s.pool.liveNum ≤ max
  exit_bounds : 0 ≤ s.pool.exitNum ∧ s.pool.exitNum ≤ NUMBERE
  live : s.pool.liveNum = count WorkerPc.isLive s.workers
  /-- a thread that has not cleared its slot has exactly one -/
  has_slot : ∀ (w : ℕ) k, s.workers[w]? = some k → k.pc.isThread = true →
    ∃! i : ℕ, s.pool.threadIDs[i]? = some k.tid
  /-- and a slot in use is that of exactly one such thread -/
  has_thread : ∀ (i : ℕ) id, s.pool.threadIDs[i]? = some id → id ≠ 0 →
    ∃! w : ℕ, ∃ k, s.workers[w]? = some k ∧ k.pc.isThread = true ∧ k.tid = id
  busy : s.pool.busyNum = count WorkerPc.isBusy s.workers
  busy_bounds : 0 ≤ s.pool.busyNum ∧ s.pool.busyNum ≤ s.pool.liveNum

theorem PoolStep.maxNum {s t : PoolState α σ τ} {a : Action α ε} (h : PoolStep M s a t) :
    t.pool.maxNum = s.pool.maxNum := by
  cases h <;> rfl

theorem poolAccounts_of_slots {s : PoolState α σ τ} (h : Slots s) (hids : DistinctIds s)
    (hacc : Accounting s) : PoolAccounts s.pool.minNum s.pool.maxNum s := by
  have hsurvives := (survives_iff_none_lost hacc).mpr h.kept
  have hused : s.pool.usedSlots.Nodup := h.slots.nodup_iff.mpr hids.1
  have hbusy : count WorkerPc.isBusy s.workers ≤ count WorkerPc.isLive s.workers :=
    count_mono (fun pc hpc => by cases pc <;> first | rfl | cases hpc) _
  refine ⟨⟨hacc.least, h.most⟩, h.exits, hsurvives.live, fun w k hk hthread => ?_,
    fun i id hi hid => ?_, hsurvives.busy, ?_⟩
  · have hmem : k.tid ∈ s.unterminated :=
      List.mem_map_of_mem (List.mem_filter.mpr ⟨List.mem_of_getElem? hk, hthread⟩)
    have hz : k.tid ≠ 0 := fun h0 => hids.2 (h0 ▸ hmem)
    have hplace := existsUnique_place (p := fun slot : ℕ => decide (slot ≠ 0)) (f := id)
      (v := k.tid) (by rwa [List.map_id]) (by rw [List.map_id]; exact h.slots.symm.subset hmem)
    simpa [hz] using hplace
  · have hmem : id ∈ s.unterminated :=
      h.slots.subset (List.mem_filter.mpr ⟨List.mem_of_getElem? hi, by simpa using hid⟩)
    exact existsUnique_place hids.1 hmem
  · have hlive := hsurvives.live
    have hb := hsurvives.busy
    omega

/-- With tasks that return, and identifiers that tell threads apart, all of the pool's counters
and its slots are exact in every state of every run. -/
theorem poolAccounts_of_run (M : TaskModel α σ τ ε) (hM : M.Returns) (min max cap : ℕ)
    (hmax : min ≤ max) (tid : ℕ → ℕ) (shared : σ) (as : List (Action α ε)) (t : PoolState α σ τ)
    (h : (poolMachine M).run (threadPoolCreate min max cap tid shared) as = some t)
    (hids : (poolMachine M).EachState DistinctIds (threadPoolCreate min max cap tid shared) as) :
    PoolAccounts min max t := by
  have hstart := hids.first
  have hall := run_invariant_of_eachStep (M := poolMachine M)
    (I := fun s : PoolState α σ τ => Slots s ∧ Accounting s ∧ DistinctIds s ∧
      s.pool.minNum = min ∧ s.pool.maxNum = max)
    (fun s a t ⟨hs, hacc, hd, hmin, hmax⟩ hnext hstep => by
      have hcase := poolStep_cases hs.running hstep
      have hd' := hnext.2 t hstep
      exact ⟨slots_step hM hs hd hd' hcase, accounting_step hacc hcase, hd',
        hcase.minNum.trans hmin, hcase.maxNum.trans hmax⟩)
    ⟨slots_create hmax hstart, accounting_create min max cap tid shared, hstart, rfl, rfl⟩
    hids.eachStep h
  obtain ⟨hs, hacc, hd, hmin, hmax⟩ := hall
  rw [← hmin, ← hmax]
  exact poolAccounts_of_slots hs hd hacc

theorem opaqueTasks_returns (α : Type) : (opaqueTasks α).Returns := by
  intro shared x e r h
  cases h
  simp

/-- The manager creates a second thread for two tasks, and later asks a thread to exit. -/
def growAndLeave : List (Action ℕ Unit) :=
  [.call 7, .call 8, .add 0 none, .add 1 none, .manage, .manage, .manage, .grow [2], .manage,
    .work 0 none, .work 1 none, .start 0, .task 0 (), .finish 0, .work 0 none,
    .manage, .manage, .manage, .grow [], .manage, .signal (some 0), .work 0 none, .threadExit 0]

theorem growAndLeave_accounts :
    ∃ t, (poolMachine (opaqueTasks ℕ)).run (threadPoolCreate 1 2 2 (· + 1) ()) growAndLeave =
        some t ∧ t.pool.threadIDs = [0, 2] ∧ PoolAccounts 1 2 t := by
  refine ⟨_, rfl, rfl, ?_⟩
  exact poolAccounts_of_run (opaqueTasks ℕ) (opaqueTasks_returns ℕ) 1 2 2 (by decide) (· + 1) ()
    growAndLeave _ rfl (by decide)

end LinuxCat.ThreadPoolModel
