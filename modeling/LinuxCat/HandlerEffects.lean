import LinuxCat.ServerRuns

/-! # What one step of a handler does to the server

Three requests and two logins matter to the tables of the server; `HandlerStep` says what they
do, and that all other steps are plain. -/
namespace LinuxCat.ServerModel
open ByteLayouts Messages

variable {DB : Type} {sql : Sqlite DB}

/-! ## What a step writes -/

/-- The step appends to what was written, and its records are all in `P`. -/
def Writes (P : Msg → Prop) (srv : Server DB) (r : Server DB × Pc) : Prop :=
  ∃ ws, Appends srv r.1 ws ∧ ∀ fd m, (fd, Out.record m) ∈ ws → P m

/-- The action of a record that is written for the request `m`. -/
def Replies (online : List Online) (m : Msg) (action : ℤ) : Prop :=
  action = m.action ∧ m.action ∈ [1, 2, 3, 4, 5, 6, 8, -8, 9] ∨ action = 255 ∧ m.action = 0 ∨
    action = -1 ∧ m.action = 1 ∨ action = -2 ∧ m.action ∈ [2, 3, 5, 8, -8] ∨
      action = 1 ∧ m.action = 7 ∨ action = 7 ∧ m.action = 4 ∧ ∃ e ∈ online, e.say = 1

namespace Writes

variable {P Q : Msg → Prop} {srv : Server DB} {cfd : ℤ} {m : Msg} {junk : CharArray 20}
  {r : Server DB × Pc}

theorem mono (h : Writes P srv r) (hpq : ∀ m, P m → Q m) : Writes Q srv r := by
  obtain ⟨ws, hws, hp⟩ := h
  exact ⟨ws, hws, fun fd m hm => hpq m (hp fd m hm)⟩

theorem silent (h : r.1.written = srv.written) : Writes P srv r :=
  ⟨[], by simpa [Appends] using h, by simp⟩

theorem single {fd : ℤ} (h : r.1.written = srv.written ++ [(fd, .record m)]) (hm : P m) :
    Writes P srv r := by
  refine ⟨_, h, fun fd' m' hm' => ?_⟩
  simp only [List.mem_singleton, Prod.mk.injEq, Out.record.injEq] at hm'
  rwa [hm'.2]

theorem of_raw {fd : ℤ} {bs : Bytes} (h : Writes P (srv.write fd (.raw bs)) r) :
    Writes P srv r := by
  obtain ⟨ws, hws, hp⟩ := h
  refine ⟨(fd, .raw bs) :: ws, by simpa [Appends, Server.write] using hws, fun fd' m' hm => ?_⟩
  exact hp fd' m' (by simpa using hm)

theorem toAll {online : List Online} (h : r.1.written = srv.written ++
    online.map (fun e => (e.cfd, Out.record m))) (hm : P m) : Writes P srv r := by
  refine ⟨_, h, fun fd m' hm' => ?_⟩
  simp only [List.mem_map, Prod.mk.injEq, Out.record.injEq] at hm'
  obtain ⟨e, -, -, rfl⟩ := hm'
  exact hm

theorem closes {tofd : ℤ} : Writes P srv ((srv.write tofd .close).write cfd .close, .cancelled) :=
  ⟨[(tofd, .close), (cfd, .close)], by simp [Appends, Server.write], by simp⟩

theorem sendFile (tofd : ℤ) : Writes P srv (sendFile srv m cfd tofd) := by
  unfold ServerModel.sendFile
  split
  · exact silent rfl
  · exact closes

theorem relayLoop (tofd n : ℤ) : Writes P srv (relayLoop srv cfd m tofd n) := by
  unfold ServerModel.relayLoop
  split
  · exact silent rfl
  · exact closes

theorem relayTest (tofd n : ℤ) : Writes P srv (relayTest srv cfd m tofd n) := by
  unfold ServerModel.relayTest
  split
  · exact silent rfl
  · exact relayLoop tofd n

theorem relayFirst {tofd n : ℤ} {inp : Input} (h : relayFirst srv cfd m tofd n inp = some r) :
    Writes P srv r := by
  unfold ServerModel.relayFirst at h
  split at h
  · split_ifs at h <;> cases h
    · exact (relayTest tofd _).of_raw
    · exact relayTest tofd n
  · cases h
    exact relayTest tofd n
  · cases h

theorem relaySecond {tofd n : ℤ} {inp : Input} (h : relaySecond srv cfd m tofd n inp = some r) :
    Writes P srv r := by
  unfold ServerModel.relaySecond at h
  split at h
  · split_ifs at h <;> cases h
    · exact (relayLoop tofd _).of_raw
    · exact silent rfl
  · cases h
    exact relayLoop tofd _
  · cases h

theorem replies :
    Writes (fun m' => Replies srv.online m m'.action) srv (dispatch sql junk srv cfd m) := by
  have hsay (target : Bytes) (say : ℤ) (h : m.action ∈ [8, -8]) :
      Writes (fun m' => Replies srv.online m m'.action) srv (caseSay srv cfd m target say) := by
    unfold caseSay
    split
    · refine single rfl (.inr (.inr (.inr (.inl ⟨rfl, ?_⟩))))
      simp only [List.mem_cons, List.not_mem_nil, or_false] at h ⊢
      omega
    · simp only [List.mem_cons, List.not_mem_nil, or_false] at h
      exact single rfl (.inl ⟨rfl, by simp; omega⟩)
  refine dispatch_cases sql junk srv cfd m (fun h => ?_) (fun h => ?_) (fun h => ?_)
    (fun h => ?_) (fun h => ?_) (fun h => ?_) (fun _ => silent rfl) (fun h => ?_)
    (fun h => ?_) (fun h => hsay _ 1 (by simp [h])) (fun h => hsay _ 0 (by simp [h])) (fun h => ?_)
    (fun _ => silent rfl) (silent rfl)
  · simp only [case0]
    split
    · exact single rfl (.inr (.inl ⟨rfl, h⟩))
    · exact silent rfl
  · simp only [case1]
    split
    · exact single rfl (.inr (.inr (.inl ⟨rfl, h⟩)))
    · exact single rfl (.inl ⟨rfl, by simp [h]⟩)
  · simp only [case2]
    split
    · exact single rfl (.inr (.inr (.inr (.inl ⟨rfl, by simp [h]⟩))))
    · exact single rfl (.inl ⟨rfl, by simp [h]⟩)
  · simp only [case3]
    split
    · exact single rfl (.inr (.inr (.inr (.inl ⟨rfl, by simp [h]⟩))))
    · split
      · exact silent rfl
      · exact single rfl (.inl ⟨rfl, by simp [h]⟩)
  · simp only [case4]
    split
    · exact silent rfl
    next e rest hon =>
      split
      · split
        · exact toAll rfl (.inl ⟨rfl, by simp [h]⟩)
        next hmuted =>
          refine single rfl (.inr (.inr (.inr (.inr (.inr ⟨rfl, h, e, ?_, by simpa using hmuted⟩)))))
          rw [hon]
          exact List.mem_cons_self
      · exact silent rfl
  · simp only [case5]
    split
    · exact single rfl (.inr (.inr (.inr (.inl ⟨rfl, by simp [h]⟩))))
    · exact single rfl (.inl ⟨rfl, by simp [h]⟩)
  · unfold case6
    split
    · exact silent rfl
    · exact toAll rfl (.inl ⟨rfl, by simp [h]⟩)
    · exact toAll rfl (.inl ⟨rfl, by simp [h]⟩)
  · simp only [case7]
    exact single rfl (.inr (.inr (.inr (.inr (.inl ⟨rfl, h⟩)))))
  · refine ⟨_, rfl, fun fd m' hm => ?_⟩
    simp only [List.mem_mapIdx, Prod.mk.injEq, Out.record.injEq] at hm
    obtain ⟨i, hi, -, rfl⟩ := hm
    exact .inl ⟨rfl, by simp [h]⟩

/-- A record the `switch` on `m` writes has the action of `m`, or that of an answer. -/
theorem dispatch : Writes (fun m' =>
    (m'.action = m.action ∧ m.action ∈ [1, 2, 3, 4, 5, 6, 8, -8, 9]) ∨
      m'.action ∈ [255, -1, -2, 7] ∨ (m.action = 7 ∧ m'.action = 1))
    srv (dispatch sql junk srv cfd m) := by
  refine replies.mono fun m' hreplies => ?_
  rcases hreplies with h | ⟨h, -⟩ | ⟨h, -⟩ | ⟨h, -⟩ | ⟨h, h7⟩ | ⟨h, -⟩
  · exact .inl h
  · exact .inr (.inl (by simp [h]))
  · exact .inr (.inl (by simp [h]))
  · exact .inr (.inl (by simp [h]))
  · exact .inr (.inr ⟨h7, h⟩)
  · exact .inr (.inl (by simp [h]))

/-- The steps without a request write raw bytes, or the notice of a transfer. -/
theorem unrequested {pc : Pc} {inp : Input} (h : threadReadPc sql srv cfd pc inp = some r)
    (hreq : requested pc inp = none)
    (hnotice : ∀ m fd, pc = .notify m fd → P { m with action := -3 }) : Writes P srv r := by
  cases pc with
  | recv =>
    obtain ⟨-, rfl⟩ := threadReadPc_unrequested h hreq
    exact silent rfl
  | relay pmsg tofd n => exact relayFirst h
  | relayRest pmsg tofd n => exact relaySecond h
  | search pmsg i =>
    simp only [threadReadPc] at h
    split_ifs at h
    obtain ⟨slot, hslot, rfl⟩ := Option.map_eq_some_iff.mp h
    split_ifs
    · let found := { srv with findCfd := srv.findCfd.set i { slot with use := 0 } }
      have hfound : Writes P found
          (ServerModel.sendFile found pmsg cfd slot.cfd) := sendFile slot.cfd
      exact hfound
    · exact silent rfl
  | register pmsg i =>
    simp only [threadReadPc] at h
    split_ifs at h
    obtain ⟨slot, hslot, rfl⟩ := Option.map_eq_some_iff.mp h
    split_ifs <;> exact silent rfl
  | notify pmsg toFd =>
    simp only [threadReadPc] at h
    split_ifs at h
    cases h
    exact single rfl (hnotice pmsg toFd rfl)
  | insertPerson pmsg =>
    simp only [threadReadPc] at h
    split_ifs at h
    cases h
    exact silent rfl
  | cancelled =>
    simp only [threadReadPc] at h
    split_ifs at h
    cases h
    exact silent rfl
  | spinning =>
    simp only [threadReadPc] at h
    split_ifs at h
    cases h
    exact silent rfl
  | fault => cases h
  | exited => cases h

theorem of_unrequested {pc : Pc} {inp : Input} (h : threadReadPc sql srv cfd pc inp = some r)
    (hreq : requested pc inp = none) : Writes (fun m => m.action = -3) srv r :=
  unrequested h hreq fun _ _ _ => rfl

end Writes

/-! ## What a step does to the tables -/

/-- Whose session an entry is. The `say` flag is not part of it. -/
def Online.session (e : Online) : ℤ × Bytes := (e.cfd, e.name)

/-- The thread is in the middle of a transfer request. -/
def Pc.waits : Pc → Bool
  | .notify _ _ | .search _ _ | .register _ _ => true
  | _ => false

/-- The sessions and the two tables stay as they are, and what is written is neither the reply
to a login nor a record of a transfer. -/
structure Plain (srv : Server DB) (r : Server DB × Pc) : Prop where
  sessions : r.1.online.map Online.session = srv.online.map Online.session
  addr : r.1.addr = srv.addr
  findCfd : r.1.findCfd = srv.findCfd
  writes : ∃ ws, Appends srv r.1 ws ∧
    ∀ fd m, (fd, Out.record m) ∈ ws → m.action ∉ [1, 3, -3, 5]
  rests : r.2.waits = false

namespace Plain

variable {srv : Server DB} {cfd : ℤ} {m : Msg} {junk : CharArray 20} {r : Server DB × Pc}

/-- Nothing is written. -/
theorem silent (hon : r.1.online = srv.online) (haddr : r.1.addr = srv.addr)
    (hfind : r.1.findCfd = srv.findCfd) (hws : r.1.written = srv.written)
    (hpc : r.2.waits = false) : Plain srv r :=
  ⟨by rw [hon], haddr, hfind, Writes.silent hws, hpc⟩

/-- One record is written. -/
theorem single {fd : ℤ} (hon : r.1.online = srv.online) (haddr : r.1.addr = srv.addr)
    (hfind : r.1.findCfd = srv.findCfd) (hws : r.1.written = srv.written ++ [(fd, .record m)])
    (hact : m.action ∉ [1, 3, -3, 5]) (hpc : r.2.waits = false) : Plain srv r :=
  ⟨by rw [hon], haddr, hfind, Writes.single hws hact, hpc⟩

theorem map_session_setSay (online : List Online) (name : Bytes) (say : ℤ) :
    (setSay online name say).map Online.session = online.map Online.session := by
  induction online with
  | nil => rfl
  | cons e online ih =>
    simp only [setSay]
    split
    · rfl
    · simp [ih]

/-- The tables and the sessions are as before, and the thread is not in a transfer request. -/
structure Kept (srv : Server DB) (r : Server DB × Pc) : Prop where
  sessions : r.1.online.map Online.session = srv.online.map Online.session
  addr : r.1.addr = srv.addr
  findCfd : r.1.findCfd = srv.findCfd
  rests : r.2.waits = false

theorem Kept.of_raw {fd : ℤ} {bs : Bytes} (h : Kept (srv.write fd (.raw bs)) r) : Kept srv r :=
  ⟨h.sessions, h.addr, h.findCfd, h.rests⟩

theorem kept_caseSay (target : Bytes) (say : ℤ) : Kept srv (caseSay srv cfd m target say) := by
  unfold caseSay
  split
  · exact ⟨rfl, rfl, rfl, rfl⟩
  · exact ⟨map_session_setSay srv.online target say, rfl, rfl, rfl⟩

theorem kept_dispatch (h : m.action ∉ [1, 7, 10, 3, 5, -5]) :
    Kept srv (dispatch sql junk srv cfd m) := by
  simp only [List.mem_cons, List.not_mem_nil, or_false, not_or] at h
  obtain ⟨h1, h7, h10, h3, h5, hm5⟩ := h
  refine dispatch_cases sql junk srv cfd m (fun _ => ?_) (fun h => absurd h h1) (fun _ => ?_)
    (fun h => absurd h h3) (fun _ => ?_) (fun h => absurd h h5) (fun h => absurd h hm5)
    (fun _ => ?_) (fun h => absurd h h7) (fun _ => kept_caseSay _ 1) (fun _ => kept_caseSay _ 0)
    (fun _ => ⟨rfl, rfl, rfl, rfl⟩) (fun h => absurd h h10) ⟨rfl, rfl, rfl, rfl⟩
  · simp only [case0]
    split <;> exact ⟨rfl, rfl, rfl, rfl⟩
  · simp only [case2]
    split <;> exact ⟨rfl, rfl, rfl, rfl⟩
  · simp only [case4]
    split
    · exact ⟨rfl, rfl, rfl, rfl⟩
    · split_ifs <;> exact ⟨rfl, rfl, rfl, rfl⟩
  · unfold case6
    split <;> exact ⟨rfl, rfl, rfl, rfl⟩

/-- Of all requests, only logins, logouts and those of transfers are not plain. -/
theorem dispatch (h : m.action ∉ [1, 7, 10, 3, 5, -5]) : Plain srv (dispatch sql junk srv cfd m) := by
  have hkept : Kept srv (ServerModel.dispatch sql junk srv cfd m) := kept_dispatch h
  refine ⟨hkept.sessions, hkept.addr, hkept.findCfd, Writes.dispatch.mono fun m' hm' => ?_,
    hkept.rests⟩
  simp only [List.mem_cons, List.not_mem_nil, or_false, not_or] at h hm' ⊢
  omega

theorem sendFile (tofd : ℤ) : Plain srv (sendFile srv m cfd tofd) := by
  have hkept : Kept srv (ServerModel.sendFile srv m cfd tofd) := by
    unfold ServerModel.sendFile
    split <;> exact ⟨rfl, rfl, rfl, rfl⟩
  exact ⟨hkept.sessions, hkept.addr, hkept.findCfd, Writes.sendFile tofd, hkept.rests⟩

theorem of_sendFile {tofd : ℤ} (h : r = ServerModel.sendFile srv m cfd tofd) : Plain srv r := by
  rw [h]
  exact sendFile tofd

theorem kept_relayLoop (tofd n : ℤ) : Kept srv (relayLoop srv cfd m tofd n) := by
  unfold relayLoop
  split <;> exact ⟨rfl, rfl, rfl, rfl⟩

theorem kept_relayTest (tofd n : ℤ) : Kept srv (relayTest srv cfd m tofd n) := by
  unfold relayTest
  split
  · exact ⟨rfl, rfl, rfl, rfl⟩
  · exact kept_relayLoop tofd n

theorem relayFirst {tofd n : ℤ} {inp : Input} (h : relayFirst srv cfd m tofd n inp = some r) :
    Plain srv r := by
  have hkept : Kept srv r := by
    unfold ServerModel.relayFirst at h
    split at h
    next bs =>
      split_ifs at h <;> cases h
      · exact (kept_relayTest tofd _).of_raw
      · exact kept_relayTest tofd n
    next => cases h; exact kept_relayTest tofd n
    next => cases h
  exact ⟨hkept.sessions, hkept.addr, hkept.findCfd, Writes.relayFirst h, hkept.rests⟩

theorem relaySecond {tofd n : ℤ} {inp : Input} (h : relaySecond srv cfd m tofd n inp = some r) :
    Plain srv r := by
  have hkept : Kept srv r := by
    unfold ServerModel.relaySecond at h
    split at h
    next bs =>
      split_ifs at h <;> cases h
      · exact (kept_relayLoop tofd _).of_raw
      · exact ⟨rfl, rfl, rfl, rfl⟩
    next => cases h; exact kept_relayLoop tofd _
    next => cases h
  exact ⟨hkept.sessions, hkept.addr, hkept.findCfd, Writes.relaySecond h, hkept.rests⟩

end Plain

theorem unlink_sublist (online : List Online) (name : Bytes) :
    (unlink online name).Sublist online := by
  induction online with
  | nil => exact .slnil
  | cons e online ih =>
    simp only [unlink]
    split
    · exact List.sublist_cons_self e online
    · exact ih.cons_cons e

/-- `find_fd` looks at nothing but the sessions. -/
theorem findFd_congr {online online' : List Online}
    (h : online.map Online.session = online'.map Online.session) (name : Bytes) :
    findFd online name = findFd online' name := by
  induction online generalizing online' with
  | nil =>
    rw [List.map_eq_nil_iff.mp h.symm]
  | cons e online ih =>
    cases online' with
    | nil => cases h
    | cons e' online' =>
      simp only [List.map_cons, List.cons.injEq, Online.session, Prod.mk.injEq] at h
      obtain ⟨⟨hcfd, hname⟩, hrest⟩ := h
      simp only [findFd, hcfd, hname, ih hrest]

/-- The steps of a handler, by what they do to the sessions, the ids and the table. -/
inductive HandlerStep (sql : Sqlite DB) (srv : Server DB) (cfd : ℤ) (pc : Pc) (inp : Input)
    (r : Server DB × Pc) : Prop
  | plain (h : Plain srv r) (hpc : pc.waits = false)
      (hreq : ∀ m junk, requested pc inp = some (m, junk) →
        m.action ∉ [1, 7] ∧ (m.action = 3 ∨ m.action = 5 → findFd srv.online m.toname.str = -1))
  /-- an action 1 or 7 -/
  | login (m : Msg) (junk : CharArray 20) (hreq : requested pc inp = some (m, junk))
      (hact : m.action = 1 ∨ m.action = 7) (hr : r = dispatch sql junk srv cfd m)
      (hfind : r.1.findCfd = srv.findCfd) (hpc : r.2 = .recv)
  | logout (m : Msg) (junk : CharArray 20) (hreq : requested pc inp = some (m, junk))
      (hact : m.action = 10) (hr : r = ({ srv with online := unlink srv.online m.name.str }, .recv))
  /-- an action 3 for a user who is online -/
  | reply (m : Msg) (junk : CharArray 20) (i : ℕ) (hreq : requested pc inp = some (m, junk))
      (hact : m.action = 3) (hon : findFd srv.online m.toname.str ≠ -1)
      (hi : srv.addr.findIdx? (fun a => a ≠ 1) = some i)
      (hr : r = ({ srv with addr := srv.addr.set i 1 }.write cfd (.record { m with sfileId := i }),
        .notify { m with sfileId := i } (findFd srv.online m.toname.str)))
  /-- an action 3 when every id is given away -/
  | noId (m : Msg) (junk : CharArray 20) (hreq : requested pc inp = some (m, junk))
      (hact : m.action = 3) (hr : r = (srv, .fault))
  /-- an action 5 for a user who is online -/
  | header (m : Msg) (junk : CharArray 20) (hreq : requested pc inp = some (m, junk))
      (hact : m.action = 5) (hon : findFd srv.online m.toname.str ≠ -1)
      (hr : r = (srv.write (findFd srv.online m.toname.str) (.record m), .search m 0))
  /-- an action -5 -/
  | registration (m : Msg) (junk : CharArray 20) (hreq : requested pc inp = some (m, junk))
      (hact : m.action = -5) (hr : r = (srv, .register m 0))
  | notice (m : Msg) (fd : ℤ) (hpc : pc = .notify m fd)
      (hr : r = (srv.write fd (.record { m with action := -3 }), .recv))
  /-- a search finds its offset, or goes on -/
  | found (m : Msg) (i : ℕ) (slot : StroSockfd) (hpc : pc = .search m i)
      (hslot : srv.findCfd[i]? = some slot) (huse : slot.use = 1) (hoff : slot.offset = m.offset)
      (hr : r = sendFile { srv with findCfd := srv.findCfd.set i { slot with use := 0 } } m cfd
        slot.cfd)
  | passed (m : Msg) (i : ℕ) (hpc : pc = .search m i) (hr : r = (srv, .search m ((i + 1) % 10)))
  /-- a connection gets a slot, or goes on -/
  | entered (m : Msg) (i : ℕ) (slot : StroSockfd) (hpc : pc = .register m i)
      (hslot : srv.findCfd[i]? = some slot) (huse : slot.use = 0)
      (hr : r = ({ srv with
        findCfd :=
          srv.findCfd.set i ⟨cfd, 1, m.offset, slot.filename.strcpy m.filename.str⟩ }, .recv))
  | occupied (m : Msg) (i : ℕ) (hpc : pc = .register m i)
      (hr : r = (srv, .register m ((i + 1) % 10)))

theorem dispatch_step {srv : Server DB} {cfd : ℤ} {pc : Pc} {inp : Input} {m : Msg}
    {junk : CharArray 20} (hreq : requested pc inp = some (m, junk)) :
    HandlerStep sql srv cfd pc inp (dispatch sql junk srv cfd m) := by
  have hpc : pc.waits = false := by
    cases pc <;> simp_all [requested, Pc.waits]
  have hone {m' : Msg} {junk' : CharArray 20} (h : requested pc inp = some (m', junk')) :
      m' = m := by
    rw [hreq] at h
    exact (congrArg Prod.fst (Option.some.inj h)).symm
  by_cases hplain : m.action ∈ [1, 7, 10, 3, 5, -5]
  · simp only [List.mem_cons, List.not_mem_nil, or_false] at hplain
    rcases hplain with hact | hact | hact | hact | hact | hact
    · refine .login m junk hreq (.inl hact) rfl ?_ ?_ <;>
        · rw [dispatch_eq_case1 hact]
          simp only [case1]
          split_ifs <;> rfl
    · refine .login m junk hreq (.inr hact) rfl ?_ ?_ <;>
        · rw [dispatch_eq_case7 hact]
          rfl
    · rw [dispatch_eq_case10 hact]
      exact .logout m junk hreq hact rfl
    · rw [dispatch_eq_case3 hact]
      by_cases hon : findFd srv.online m.toname.str = -1
      · rw [case3, if_pos hon]
        refine .plain (.single rfl rfl rfl rfl (by simp) rfl) hpc fun m' junk' h => ?_
        rw [hone h]
        exact ⟨by simp [hact], fun _ => hon⟩
      · simp only [case3, if_neg hon]
        cases hi : srv.addr.findIdx? (fun a => a ≠ 1) with
        | none => exact .noId m junk hreq hact rfl
        | some i => exact .reply m junk i hreq hact hon hi rfl
    · rw [dispatch_eq_case5 hact]
      by_cases hon : findFd srv.online m.toname.str = -1
      · rw [case5, if_pos hon]
        refine .plain (.single rfl rfl rfl rfl (by simp) rfl) hpc fun m' junk' h => ?_
        rw [hone h]
        exact ⟨by simp [hact], fun _ => hon⟩
      · rw [case5, if_neg hon]
        exact .header m junk hreq hact hon rfl
    · rw [dispatch_eq_register hact]
      exact .registration m junk hreq hact rfl
  · refine .plain (Plain.dispatch hplain) hpc fun m' junk' h => ?_
    rw [hone h]
    simp only [List.mem_cons, List.not_mem_nil, or_false, not_or] at hplain ⊢
    exact ⟨⟨hplain.1, hplain.2.1⟩, fun h => by rcases h with h | h <;> simp [h] at hplain⟩

/-- Inversion of a step of a handler. -/
theorem handlerStep {srv : Server DB} {cfd : ℤ} {pc : Pc} {inp : Input} {r : Server DB × Pc}
    (h : threadReadPc sql srv cfd pc inp = some r) : HandlerStep sql srv cfd pc inp r := by
  have hplain (hp : Plain srv r) (hpc : pc.waits = false) (hreq : requested pc inp = none) :
      HandlerStep sql srv cfd pc inp r := .plain hp hpc fun m junk hm => by simp [hreq] at hm
  cases pc with
  | recv =>
    cases inp <;> simp only [threadReadPc, reduceCtorEq] at h
    case closed =>
      cases h
      exact hplain (.silent rfl rfl rfl rfl rfl) rfl rfl
    case failed junk =>
      cases h
      exact dispatch_step rfl
    case record m junk =>
      cases h
      exact dispatch_step rfl
  | insertPerson pmsg =>
    simp only [threadReadPc] at h
    split_ifs at h
    cases h
    exact hplain (.silent rfl rfl rfl rfl rfl) rfl rfl
  | notify pmsg toFd =>
    simp only [threadReadPc] at h
    split_ifs at h
    cases h
    exact .notice pmsg toFd rfl rfl
  | search pmsg i =>
    simp only [threadReadPc] at h
    split_ifs at h
    simp only [searchSlot, Option.map_eq_some_iff] at h
    obtain ⟨slot, hslot, hr⟩ := h
    split_ifs at hr with hfound
    · exact .found pmsg i slot rfl hslot hfound.1 hfound.2 hr.symm
    · exact .passed pmsg i rfl hr.symm
  | relay pmsg tofd n => exact hplain (Plain.relayFirst h) rfl rfl
  | relayRest pmsg tofd n => exact hplain (Plain.relaySecond h) rfl rfl
  | cancelled =>
    simp only [threadReadPc] at h
    split_ifs at h
    cases h
    exact hplain (.silent rfl rfl rfl rfl rfl) rfl rfl
  | register pmsg i =>
    simp only [threadReadPc] at h
    split_ifs at h
    simp only [registerSlot, Option.map_eq_some_iff] at h
    obtain ⟨slot, hslot, hr⟩ := h
    split_ifs at hr with huse
    · exact .entered pmsg i slot rfl hslot huse hr.symm
    · exact .occupied pmsg i rfl hr.symm
  | spinning =>
    simp only [threadReadPc] at h
    split_ifs at h
    cases h
    exact hplain (.silent rfl rfl rfl rfl rfl) rfl rfl
  | fault => cases h
  | exited => cases h

end LinuxCat.ServerModel
