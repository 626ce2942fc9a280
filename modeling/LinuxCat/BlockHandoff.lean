import LinuxCat.ReceiverModel
import LinuxCat.WaitQueues

/-! # How a record reaches its thread

`sem[0]` and `sem[1]` share one permit. Whoever holds it owns the variable that `thread_read`
passes to `recv_file`, so the thread started for the `q`-th record copies the `q`-th record. -/
namespace LinuxCat.ReceiverModel
open ByteLayouts Messages WaitQueues

/-- The reader has taken the permit from `sem[0]` and not yet posted it to `sem[1]`. -/
def ReaderPc.holds : ReaderPc → Bool
  | .copying _ | .posting => true
  | _ => false

/-- The thread has taken the permit from `sem[1]` and not yet posted it to `sem[0]`. -/
def FilePc.holds : FilePc → Bool
  | .copying | .posting _ => true
  | _ => false

/-- The record the reader is at is the one behind those that have their threads. -/
def ReaderPc.At (inbox : List Msg) (n : ℕ) (omsg : Msg) : ReaderPc → Prop
  | .recv => True
  | .waiting m | .copying m => inbox[n]? = some m
  | .posting | .creating => inbox[n]? = some omsg
  | .exited => False

/-- Thread `q` has the `q`-th record, or will copy it. -/
def FilePc.Gets (inbox : List Msg) (omsg : Msg) (q : ℕ) : FilePc → Prop
  | .created | .copying => inbox[q]? = some omsg
  | .posting m | .opening m => inbox[q]? = some m
  | _ => True

structure Handoff (inbox : List Msg) (rc : Receiver) : Prop where
  permit : rc.sem0 + rc.sem1 + (if rc.reader.holds then 1 else 0) +
    rc.threads.countP FilePc.holds = 1
  posted : rc.sem1 = (if rc.reader = .creating then 1 else 0) +
    rc.threads.countP (fun pc => pc = .created)
  reader : rc.reader.At inbox rc.threads.length rc.omsg
  threads : ∀ (q : ℕ) pc, rc.threads[q]? = some pc → pc.Gets inbox rc.omsg q

section
variable {inbox inbox' : List Msg} {rc rc' : Receiver} {q : ℕ} {pc : FilePc} {m : Msg}

theorem getElem?_of_begins {n : ℕ} (h : inbox <+: inbox') (hn : inbox[n]? = some m) :
    inbox'[n]? = some m := by
  obtain ⟨rest, rfl⟩ := h
  rw [List.getElem?_append_left (List.getElem?_eq_some_iff.mp hn).1, hn]

theorem Handoff.mono (h : Handoff inbox rc) (hle : inbox <+: inbox') : Handoff inbox' rc := by
  refine ⟨h.permit, h.posted, ?_, fun q pc hq => ?_⟩
  · have hr := h.reader
    cases hpc : rc.reader <;> rw [hpc] at hr <;>
      first | exact hr | exact getElem?_of_begins hle hr
  · have hg := h.threads q pc hq
    cases pc <;> first | exact hg | exact getElem?_of_begins hle hg

theorem countP_eq_zero_getElem? {p : FilePc → Bool} (h : rc.threads.countP p = 0)
    (hq : rc.threads[q]? = some pc) : p pc = false := by
  have := List.countP_eq_zero.mp h pc (List.mem_of_getElem? hq)
  simpa using this

/-- The reader has read the next record. -/
theorem Handoff.hear (h : Handoff inbox rc) (hpc : rc.reader = .recv)
    (hm : inbox[rc.threads.length]? = some m) : Handoff inbox { rc with reader := .waiting m } := by
  have hpermit := h.permit
  have hposted := h.posted
  simp only [hpc, ReaderPc.holds, reduceCtorEq, if_false] at hpermit hposted
  exact ⟨hpermit, hposted, hm, h.threads⟩

/-- A step of the reader on its way through action 5. -/
theorem Handoff.threadRead {old : Bytes} (h : Handoff inbox rc) (hpc : rc.reader ≠ .recv)
    (hstep : rc.threadRead [] old = some rc') : Handoff inbox rc' := by
  have hpermit := h.permit
  have hposted := h.posted
  have hreader := h.reader
  cases hr : rc.reader with
  | recv => exact absurd hr hpc
  | waiting m =>
    simp only [hr, Receiver.threadRead, ReaderPc.holds, reduceCtorEq, if_false] at *
    split_ifs at hstep with hsem
    cases hstep
    exact ⟨by simp only [ReaderPc.holds, if_true]; omega, hposted, hreader, h.threads⟩
  | copying m =>
    simp only [hr, Receiver.threadRead, ReaderPc.holds, reduceCtorEq, if_false, if_true,
      Option.some.injEq] at *
    subst hstep
    -- the reader holds the permit: no thread is between the two semaphores
    have hnone : rc.threads.countP FilePc.holds = 0 := by omega
    have hnone' : rc.threads.countP (fun pc => pc = .created) = 0 := by omega
    refine ⟨hpermit, hposted, hreader, fun q pc hq => ?_⟩
    have hg := h.threads q pc hq
    have h₁ := countP_eq_zero_getElem? hnone hq
    have h₂ := countP_eq_zero_getElem? hnone' hq
    cases pc <;> first | exact hg | simp [FilePc.holds] at h₁ h₂
  | posting =>
    simp only [hr, Receiver.threadRead, ReaderPc.holds, reduceCtorEq, if_false, if_true,
      Option.some.injEq] at *
    subst hstep
    exact ⟨by simp only [ReaderPc.holds, Bool.false_eq_true, if_false]; omega,
      by simp only [if_true]; omega, hreader, h.threads⟩
  | creating =>
    simp only [hr, Receiver.threadRead, ReaderPc.holds, if_true, Bool.false_eq_true, if_false,
      Option.some.injEq] at *
    subst hstep
    refine ⟨?_, ?_, trivial, fun q pc hq => ?_⟩
    · simpa [ReaderPc.holds, FilePc.holds] using hpermit
    · simp only [reduceCtorEq, if_false, List.countP_append, List.countP_singleton, decide_true,
        if_true]
      omega
    · obtain ⟨rfl, rfl⟩ | hq := getElem?_concat_cases hq
      · exact hreader
      · exact h.threads q pc hq
  | exited =>
    simp [hr, Receiver.threadRead] at hstep

/-- How many records the reader has read. -/
def Receiver.heard (rc : Receiver) : ℕ :=
  rc.threads.length + (if rc.reader = .recv then 0 else 1)

@[simp] theorem heard_setThread (rc : Receiver) (q : ℕ) (pc : FilePc) :
    (rc.setThread q pc).heard = rc.heard := by
  rw [Receiver.heard, Receiver.setThread, List.length_set]
  rfl

/-- Action 5 is read once and starts one thread. -/
theorem threadRead_keeps {old : Bytes} (hpc : rc.reader ≠ .recv)
    (hstep : rc.threadRead [] old = some rc') :
    rc'.heard = rc.heard ∧ rc'.gconn = rc.gconn ∧ rc'.fault = rc.fault ∧
      ∀ (q : ℕ) pc, rc'.threads[q]? = some pc → rc.threads[q]? = some pc ∨ pc = .created := by
  cases hr : rc.reader with
  | recv => exact absurd hr hpc
  | waiting m =>
    simp only [hr, Receiver.threadRead] at hstep
    split_ifs at hstep
    cases hstep
    exact ⟨by simp [Receiver.heard, hr], rfl, rfl, fun q pc hq => .inl hq⟩
  | copying m =>
    simp only [hr, Receiver.threadRead, Option.some.injEq] at hstep
    subst hstep
    exact ⟨by simp [Receiver.heard, hr], rfl, rfl, fun q pc hq => .inl hq⟩
  | posting =>
    simp only [hr, Receiver.threadRead, Option.some.injEq] at hstep
    subst hstep
    exact ⟨by simp [Receiver.heard, hr], rfl, rfl, fun q pc hq => .inl hq⟩
  | creating =>
    simp only [hr, Receiver.threadRead, Option.some.injEq] at hstep
    subst hstep
    refine ⟨by simp [Receiver.heard, hr], rfl, rfl, fun q pc hq => ?_⟩
    obtain ⟨-, rfl⟩ | hq := getElem?_concat_cases hq
    · exact .inr rfl
    · exact .inl hq
  | exited => simp [hr, Receiver.threadRead] at hstep

/-- A thread goes on, and the permit is where it was or goes with it. -/
theorem Handoff.setThread (h : Handoff inbox rc) (hq : rc.threads[q]? = some pc) {pc' : FilePc}
    {sem0 sem1 : ℕ}
    (hpermit : sem0 + sem1 + (if pc'.holds then 1 else 0) =
      rc.sem0 + rc.sem1 + (if pc.holds then 1 else 0))
    (hposted : sem1 + (if pc = .created then 1 else 0) =
      rc.sem1 + (if pc' = .created then 1 else 0))
    (hgets : pc'.Gets inbox rc.omsg q) :
    Handoff inbox { rc.setThread q pc' with sem0 := sem0, sem1 := sem1 } := by
  have hholds := countP_set_add FilePc.holds hq pc'
  have hcreated := countP_set_add (fun pc => decide (pc = .created)) hq pc'
  have hp := h.permit
  have hs := h.posted
  simp only [decide_eq_true_eq] at hcreated
  refine ⟨?_, ?_, ?_, forall_place_set h.threads hgets⟩
  · show sem0 + sem1 + (if rc.reader.holds then 1 else 0) +
      (rc.threads.set q pc').countP FilePc.holds = 1
    omega
  · show sem1 = (if rc.reader = .creating then 1 else 0) +
      (rc.threads.set q pc').countP (fun pc => decide (pc = .created))
    omega
  · simpa only [Receiver.setThread, List.length_set] using h.reader

/-- `sem_wait(&sem[1])`. -/
theorem Handoff.wait (h : Handoff inbox rc) (hq : rc.threads[q]? = some .created)
    (hsem : 0 < rc.sem1) :
    Handoff inbox { rc.setThread q .copying with sem1 := rc.sem1 - 1 } :=
  h.setThread hq
    (by simp only [Receiver.setThread, FilePc.holds, if_true, Bool.false_eq_true, if_false]; omega)
    (by simp only [if_true, reduceCtorEq, if_false]; omega) (h.threads q .created hq)

/-- The `memcpy`. -/
theorem Handoff.copy (h : Handoff inbox rc) (hq : rc.threads[q]? = some .copying) :
    Handoff inbox (rc.setThread q (.posting rc.omsg)) :=
  h.setThread hq (by simp [FilePc.holds]) (by simp) (h.threads q .copying hq)

/-- `sem_post(&sem[0])`. -/
theorem Handoff.post (h : Handoff inbox rc) (hq : rc.threads[q]? = some (.posting m)) :
    Handoff inbox { rc.setThread q (.opening m) with sem0 := rc.sem0 + 1 } :=
  h.setThread hq
    (by simp only [Receiver.setThread, FilePc.holds, if_true, Bool.false_eq_true, if_false]; omega)
    (by simp [Receiver.setThread]) (h.threads q (.posting m) hq)

/-- Behind the two semaphores. -/
theorem Handoff.later (h : Handoff inbox rc) (hq : rc.threads[q]? = some pc) {pc' : FilePc}
    (hpc : pc.holds = false ∧ pc ≠ .created) (hpc' : pc'.holds = false ∧ pc' ≠ .created)
    (hgets : pc'.Gets inbox rc.omsg q) : Handoff inbox (rc.setThread q pc') :=
  h.setThread hq (by simp [hpc.1, hpc'.1]) (by simp [hpc.2, hpc'.2]) hgets

/-- At rest the permit is at `sem[0]`. -/
theorem handoff_atRest (inbox : List Msg) (h : rc.AtRest) : Handoff inbox rc := by
  refine ⟨?_, ?_, ?_, fun q pc hq => ?_⟩
  · simp [h.sem0, h.sem1, h.reader, h.threads, ReaderPc.holds]
  · simp [h.sem1, h.reader, h.threads]
  · rw [h.reader]
    trivial
  · simp [h.threads] at hq

end
end LinuxCat.ReceiverModel
