import LinuxCat.HandlerEffects
import LinuxCat.OnlineSessions

/-! # The connections of clients and those of blocks

The data of a block is written without a frame, and a relay closes both of its descriptors. Neither
reaches the connection of a client, as long as only logins come from clients and only blocks from
the threads that send or receive one. -/
namespace LinuxCat.ServerModel
open ByteLayouts Messages

variable {DB : Type} {sql : Sqlite DB} {users blocks : ℤ → Prop}

/-- The descriptors a handler works with. -/
def Pc.Fits (users blocks : ℤ → Prop) (cfd : ℤ) : Pc → Prop
  | .notify _ fd => users fd
  | .search _ _ | .register _ _ | .cancelled => blocks cfd
  | .relay _ fd _ | .relayRest _ fd _ => blocks cfd ∧ blocks fd
  | _ => True

/-- Raw bytes, and `close`, are for the connections of blocks. -/
def Out.Fits (users blocks : ℤ → Prop) (fd : ℤ) : Out → Prop
  | .record _ => users fd ∨ blocks fd
  | .raw _ | .close => blocks fd

structure Server.Fits (users blocks : ℤ → Prop) (srv : Server DB) : Prop where
  online : ∀ e ∈ srv.online, users e.cfd
  slots : ∀ slot ∈ srv.findCfd, slot.use = 1 → blocks slot.cfd
  written : ∀ fd o, (fd, o) ∈ srv.written → Out.Fits users blocks fd o

section
variable {users' blocks' : ℤ → Prop} (husers : ∀ fd, users fd → users' fd)
  (hblocks : ∀ fd, blocks fd → blocks' fd)
include husers hblocks

theorem Pc.Fits.mono {cfd : ℤ} {pc : Pc} (h : pc.Fits users blocks cfd) :
    pc.Fits users' blocks' cfd := by
  cases pc with
  | notify m fd => exact husers fd h
  | search m i => exact hblocks cfd h
  | register m i => exact hblocks cfd h
  | cancelled => exact hblocks cfd h
  | relay m fd n => exact ⟨hblocks cfd h.1, hblocks fd h.2⟩
  | relayRest m fd n => exact ⟨hblocks cfd h.1, hblocks fd h.2⟩
  | _ => trivial

theorem Server.Fits.mono {srv : Server DB} (h : srv.Fits users blocks) : srv.Fits users' blocks' := by
  refine ⟨fun e he => husers _ (h.online e he), fun slot hs hu => hblocks _ (h.slots slot hs hu),
    fun fd o hm => ?_⟩
  cases o with
  | record m => exact (h.written fd _ hm).imp (husers fd) (hblocks fd)
  | raw bs => exact hblocks fd (h.written fd _ hm)
  | close => exact hblocks fd (h.written fd _ hm)

end

/-- What a step leaves. -/
def Stays (users blocks : ℤ → Prop) (cfd : ℤ) (r : Server DB × Pc) : Prop :=
  r.1.Fits users blocks ∧ r.2.Fits users blocks cfd

section
variable {srv : Server DB} {cfd : ℤ} {m : Msg} {junk : CharArray 20}

theorem Server.Fits.write (h : srv.Fits users blocks) {fd : ℤ} {o : Out}
    (ho : o.Fits users blocks fd) : (srv.write fd o).Fits users blocks := by
  refine ⟨h.online, h.slots, fun fd' o' hm => ?_⟩
  rcases List.mem_append.mp hm with hm | hm
  · exact h.written fd' o' hm
  · cases List.mem_singleton.mp hm
    exact ho

theorem Server.Fits.record (h : srv.Fits users blocks) {fd : ℤ} (hfd : users fd ∨ blocks fd) (m : Msg) :
    (srv.write fd (.record m)).Fits users blocks :=
  h.write (o := .record m) hfd

theorem Server.Fits.toAll (h : srv.Fits users blocks) (m : Msg) :
    (srv.toAll m).Fits users blocks := by
  refine ⟨h.online, h.slots, fun fd' o' hm => ?_⟩
  rcases List.mem_append.mp hm with hm | hm
  · exact h.written fd' o' hm
  · obtain ⟨e, he, heq⟩ := List.mem_map.mp hm
    cases heq
    exact .inl (h.online e he)

theorem Server.Fits.db (h : srv.Fits users blocks) (db : DB) :
    Server.Fits users blocks { srv with db := db } :=
  ⟨h.online, h.slots, h.written⟩

/-- The entry that `find_fd` finds. -/
theorem users_findFd (h : srv.Fits users blocks) {name : Bytes} (hon : findFd srv.online name ≠ -1) :
    users (findFd srv.online name) := by
  rw [findFd_eq] at hon ⊢
  cases he : getOnline srv.online name with
  | none => simp [he] at hon
  | some e => exact h.online e (getOnline_mem he).1

theorem stays_caseSay (h : srv.Fits users blocks) (hcfd : users cfd ∨ blocks cfd) (target : Bytes)
    (say : ℤ) : Stays users blocks cfd (caseSay srv cfd m target say) := by
  unfold caseSay
  split
  · exact ⟨h.record hcfd _, trivial⟩
  · have hset : Server.Fits users blocks { srv with online := setSay srv.online target say } := by
      refine ⟨fun e he => ?_, h.slots, h.written⟩
      have hmem : e.session ∈ srv.online.map Online.session :=
        Plain.map_session_setSay srv.online target say ▸ List.mem_map_of_mem he
      obtain ⟨e', he', hsess⟩ := List.mem_map.mp hmem
      exact (Prod.mk.inj hsess).1 ▸ h.online e' he'
    exact ⟨hset.record hcfd m, trivial⟩

theorem stays_dispatch (h : srv.Fits users blocks) (hcfd : users cfd ∨ blocks cfd)
    (hblock : m.action = 5 ∨ m.action = -5 → blocks cfd) (huser : m.action = 1 ∨ m.action = 7 → users cfd) :
    Stays users blocks cfd (dispatch sql junk srv cfd m) := by
  have hinsert {srv' : Server DB} (h' : srv'.Fits users blocks) (hc : users cfd) (name : Bytes) :
      Server.Fits users blocks { srv' with online := insertLink srv'.online ⟨cfd, 0, name⟩ } :=
    ⟨List.forall_mem_cons.mpr ⟨hc, h'.online⟩, h'.slots, h'.written⟩
  refine dispatch_cases sql junk srv cfd m (fun _ => ?_) (fun h1 => ?_) (fun _ => ?_) (fun _ => ?_)
    (fun _ => ?_) (fun h5 => ?_) (fun h5 => ⟨h, hblock (.inr h5)⟩) (fun _ => ?_) (fun h7 => ?_)
    (fun _ => stays_caseSay h hcfd _ 1) (fun _ => stays_caseSay h hcfd _ 0) (fun _ => ?_) (fun _ => ?_)
    ⟨h, trivial⟩
  · simp only [case0]
    split
    · exact ⟨(h.db _).record hcfd _, trivial⟩
    · exact ⟨h.db _, trivial⟩
  · simp only [case1]
    split
    · exact ⟨(h.db _).record hcfd _, trivial⟩
    · exact ⟨(hinsert (h.db _) (huser (.inl h1)) _).record hcfd _, trivial⟩
  · simp only [case2]
    split_ifs with hon
    · exact ⟨(h.db _).record hcfd _, trivial⟩
    · exact ⟨(h.db _).record (.inl (users_findFd h hon)) _, trivial⟩
  · simp only [case3]
    split_ifs with hon
    · exact ⟨h.record hcfd _, trivial⟩
    · split
      · exact ⟨h, trivial⟩
      next i hi =>
        have hset : Server.Fits users blocks { srv with addr := srv.addr.set i 1 } :=
          ⟨h.online, h.slots, h.written⟩
        exact ⟨hset.record hcfd _, users_findFd h hon⟩
  · simp only [case4]
    split
    · exact ⟨h.db _, trivial⟩
    · split_ifs
      · exact ⟨(h.db _).toAll m, trivial⟩
      · exact ⟨(h.db _).record hcfd _, trivial⟩
      · exact ⟨h.db _, trivial⟩
  · simp only [case5]
    split_ifs with hon
    · exact ⟨h.record hcfd _, trivial⟩
    · exact ⟨h.record (.inl (users_findFd h hon)) _, hblock (.inl h5)⟩
  · unfold case6
    split
    · exact ⟨h, trivial⟩
    · exact ⟨h.toAll _, trivial⟩
    · exact ⟨h.toAll _, trivial⟩
  · rw [case7_eq]
    exact ⟨(hinsert (h.db _) (huser (.inr h7)) _).record hcfd _, trivial⟩
  · refine ⟨⟨h.online, h.slots, fun fd o hm => ?_⟩, trivial⟩
    rcases List.mem_append.mp hm with hm | hm
    · exact h.written fd o hm
    · obtain ⟨i, hi, heq⟩ := List.mem_mapIdx.mp hm
      cases heq
      exact hcfd
  · exact ⟨⟨fun e he => h.online e ((unlink_sublist _ _).subset he), h.slots, h.written⟩, trivial⟩

theorem stays_relayLoop (h : srv.Fits users blocks) (hcfd : blocks cfd) {tofd : ℤ} (hto : blocks tofd)
    (n : ℤ) : Stays users blocks cfd (relayLoop srv cfd m tofd n) := by
  unfold relayLoop
  split
  · exact ⟨h, hcfd, hto⟩
  · exact ⟨(h.write (o := .close) hto).write (o := .close) hcfd, hcfd⟩

theorem stays_relayTest (h : srv.Fits users blocks) (hcfd : blocks cfd) {tofd : ℤ} (hto : blocks tofd)
    (n : ℤ) : Stays users blocks cfd (relayTest srv cfd m tofd n) := by
  unfold relayTest
  split
  · exact ⟨h, hcfd, hto⟩
  · exact stays_relayLoop h hcfd hto n

theorem stays_sendFile (h : srv.Fits users blocks) (hcfd : blocks cfd) {tofd : ℤ} (hto : blocks tofd) :
    Stays users blocks cfd (sendFile srv m cfd tofd) := by
  unfold sendFile
  split
  · exact ⟨h, hcfd, hto⟩
  · exact ⟨(h.write (o := .close) hto).write (o := .close) hcfd, hcfd⟩

/-- A slot is given away or taken. -/
theorem Server.Fits.setSlot (h : srv.Fits users blocks) {slot : StroSockfd} (i : ℕ)
    (hslot : slot.use = 1 → blocks slot.cfd) :
    Server.Fits users blocks { srv with findCfd := srv.findCfd.set i slot } := by
  refine ⟨h.online, fun slot' hmem huse => ?_, h.written⟩
  rcases List.mem_or_eq_of_mem_set hmem with hmem | rfl
  · exact h.slots slot' hmem huse
  · exact hslot huse

/-- A step of a handler whose logins come from clients and whose blocks do not. -/
theorem stays_step {pc : Pc} {inp : Input} {r : Server DB × Pc} (h : srv.Fits users blocks)
    (hcfd : users cfd ∨ blocks cfd) (hpc : pc.Fits users blocks cfd)
    (hreq : ∀ m junk, requested pc inp = some (m, junk) →
      (m.action = 5 ∨ m.action = -5 → blocks cfd) ∧ (m.action = 1 ∨ m.action = 7 → users cfd))
    (hstep : threadReadPc sql srv cfd pc inp = some r) : Stays users blocks cfd r := by
  cases hrq : requested pc inp with
  | some q =>
    obtain ⟨m, junk⟩ := q
    rw [eq_dispatch hrq hstep]
    exact stays_dispatch h hcfd (hreq m junk hrq).1 (hreq m junk hrq).2
  | none =>
    cases pc with
    | recv =>
      obtain ⟨-, rfl⟩ := threadReadPc_unrequested hstep hrq
      exact ⟨h, trivial⟩
    | insertPerson m =>
      simp only [threadReadPc] at hstep
      split_ifs at hstep
      cases hstep
      exact ⟨h.db _, trivial⟩
    | notify m fd =>
      simp only [threadReadPc] at hstep
      split_ifs at hstep
      cases hstep
      exact ⟨h.record (.inl hpc) _, trivial⟩
    | search m i =>
      simp only [threadReadPc] at hstep
      split_ifs at hstep
      obtain ⟨slot, hslot, rfl⟩ := Option.map_eq_some_iff.mp hstep
      split_ifs with hfound
      · have hto : blocks slot.cfd := h.slots slot (List.mem_of_getElem? hslot) hfound.1
        have hset : Server.Fits users blocks
            { srv with findCfd := srv.findCfd.set i { slot with use := 0 } } :=
          h.setSlot i fun _ => hto
        exact stays_sendFile hset hpc hto
      · exact ⟨h, hpc⟩
    | register m i =>
      simp only [threadReadPc] at hstep
      split_ifs at hstep
      obtain ⟨slot, -, rfl⟩ := Option.map_eq_some_iff.mp hstep
      split_ifs
      · exact ⟨h.setSlot i fun _ => hpc, trivial⟩
      · exact ⟨h, hpc⟩
    | relay m tofd n =>
      have hraw (bs : Bytes) : (srv.write tofd (.raw bs)).Fits users blocks :=
        h.write (o := .raw bs) hpc.2
      simp only [threadReadPc, relayFirst] at hstep
      split at hstep
      · split_ifs at hstep <;> cases hstep
        · exact stays_relayTest (hraw _) hpc.1 hpc.2 _
        · exact stays_relayTest h hpc.1 hpc.2 n
      · cases hstep
        exact stays_relayTest h hpc.1 hpc.2 n
      · cases hstep
    | relayRest m tofd n =>
      have hraw (bs : Bytes) : (srv.write tofd (.raw bs)).Fits users blocks :=
        h.write (o := .raw bs) hpc.2
      simp only [threadReadPc, relaySecond] at hstep
      split at hstep
      · split_ifs at hstep <;> cases hstep
        · exact stays_relayLoop (hraw _) hpc.1 hpc.2 _
        · exact ⟨h, trivial⟩
      · cases hstep
        exact stays_relayLoop h hpc.1 hpc.2 _
      · cases hstep
    | cancelled =>
      simp only [threadReadPc] at hstep
      split_ifs at hstep
      cases hstep
      exact ⟨h, trivial⟩
    | spinning =>
      simp only [threadReadPc] at hstep
      split_ifs at hstep
      cases hstep
      exact ⟨h, trivial⟩
    | fault => cases hstep
    | exited => cases hstep

end

end LinuxCat.ServerModel
