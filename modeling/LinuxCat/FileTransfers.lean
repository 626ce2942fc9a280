import LinuxCat.StoredBlocks
import Mathlib.Data.List.Perm.Subperm

/-! # A file arrives as it was sent -/
namespace LinuxCat.FileTransfer
open LabelledMachines ByteLayouts Messages FileBlocks ServerModel ReceiverModel WaitQueues
  MemoryStores

variable {DB : Type} {sql : Sqlite DB}

section
variable {req : Msg} {file : Bytes} {r c q : ℕ} {s t : Transfer DB}

theorem Transferring.untouched (h : Transferring req file r s) (hu : Untouched s t)
    (hs : ∃ stage, Staged req file r t stage) (ha : Announced req file r t) :
    Transferring req file r t :=
  ⟨hs, ha, by rw [hu.client]; exact h.handoff.mono (told_grows hu.written),
    h.stored.untouched hu⟩

/-- A step of `recv_file`. -/
theorem transferring_recvFile (hid : 0 ≤ req.sfileId) (h : Transferring req file r s)
    (hstep : recvFile sql s q = some t) : Transferring req file r t := by
  obtain ⟨pc, hq, hstep⟩ := Option.bind_eq_some_iff.mp hstep
  have hquiet {client : Receiver} {pc' : FilePc}
      (hhand : Handoff (told r s.server.srv.written) client)
      (hthreads : client.threads = s.client.threads.set q pc')
      (hreader : client.reader = s.client.reader) (hgconn : client.gconn = s.client.gconn)
      (hfault : client.fault = s.client.fault) (hpc : Holds s.conns s.server.srv.written q pc') :
      Transferring req file r { s with client := client } := by
    obtain ⟨⟨stage, hstaged⟩, hann, -, hstored⟩ := h
    exact ⟨⟨stage, { hstaged with }⟩, { hann with }, hhand,
      hstored.setThread hthreads hreader hgconn hfault hpc⟩
  cases pc with
  | created =>
    simp only at hstep
    split_ifs at hstep with hsem
    cases hstep
    exact hquiet (h.handoff.wait hq hsem) rfl rfl rfl rfl trivial
  | copying =>
    cases hstep
    exact hquiet (h.handoff.copy hq) rfl rfl rfl rfl trivial
  | posting m =>
    cases hstep
    exact hquiet (h.handoff.post hq) rfl rfl rfl rfl trivial
  | opening m => exact transferring_open h hq hstep
  | writing m c =>
    obtain ⟨conn, hc, ht⟩ := Option.map_eq_some_iff.mp hstep
    exact transferring_write h hq hc ht.symm
  | receiving m c fp =>
    obtain ⟨⟨conn', bs⟩, hrecv, ht⟩ := Option.map_eq_some_iff.mp hstep
    obtain ⟨conn, hc, hrecv⟩ := Option.bind_eq_some_iff.mp hrecv
    obtain ⟨bs, hbs, he⟩ := Option.map_eq_some_iff.mp hrecv
    cases he
    exact transferring_receive hid h hq hc hbs ht.symm
  | closing c =>
    obtain ⟨conn, hc, ht⟩ := Option.map_eq_some_iff.mp hstep
    exact transferring_close h hq hc ht.symm
  | ended => cases hstep

theorem transferring_step {heads : List Msg} {a : TransferAction} (hid : 0 ≤ req.sfileId)
    (hheads : heads = (List.range (blockCount file.length)).map (head req file.length))
    (htyped : ∀ j < blockCount file.length, (header req file j).Typed)
    (h : Transferring req file r s) (hstep : transferStep sql file heads r s a = some t) :
    Transferring req file r t := by
  obtain ⟨stage, hstaged⟩ := h.staged
  cases a with
  | openBlock j =>
    obtain ⟨hs, ha⟩ := staged_openBlock hheads hstaged h.announced hstep
    obtain ⟨m, hm, hstep⟩ := Option.bind_eq_some_iff.mp hstep
    split_ifs at hstep
    obtain rfl := connect_eq hstep
    exact h.untouched (untouched_connect j _ _ List.prefix_rfl) hs ha
  | send c =>
    obtain ⟨hs, ha⟩ := staged_send hstaged h.announced hstep
    obtain ⟨conn, conn', j, hc, hpeer, rfl, hconn'⟩ := send_cases hstep
    refine h.untouched (untouched_setConn hc ?_ _ List.prefix_rfl) ⟨stage, hs⟩ ha
    rcases hconn' with ⟨bs, rest, -, rfl⟩ | ⟨-, rfl⟩ <;> exact ⟨rfl, rfl, by simp [hpeer]⟩
  | serve c junk fails =>
    obtain ⟨hs, ha, hw⟩ := staged_serve htyped hstaged h.announced hstep
    obtain ⟨k, conn, inp, n, srv, pc, hk, hc, -, -, rfl⟩ := serve_cases hstep
    refine h.untouched (untouched_setConn hc ?_ _ hw) hs ha
    exact ⟨rfl, rfl, fun _ => rfl⟩
  | threadRead old => exact transferring_threadRead htyped h hstep
  | recvFile q => exact transferring_recvFile hid h hstep

end

section
variable {srv : Server DB} {n r : ℕ} {rc : Receiver} {req : Msg} {file old : Bytes}

theorem conn_start {c : ℕ} {conn : Conn}
    (hc : (Transfer.start srv n rc req old).conns[c]? = some conn) : conn = .new .session [] :=
  List.eq_of_mem_replicate (List.mem_of_getElem? hc)

theorem peer_start {c : ℕ} {peer : Peer}
    (h : (Transfer.start srv n rc req old).peer c = some peer) : peer = .session := by
  obtain ⟨conn, hc, rfl⟩ := Option.map_eq_some_iff.mp h
  rw [conn_start hc, Conn.new]

theorem handler_start {c : ℕ} {k : Handler}
    (hk : (Transfer.start srv n rc req old).server.handlers[c]? = some k) : k = ⟨c, .recv⟩ := by
  obtain ⟨i, hi, rfl⟩ := Option.map_eq_some_iff.mp (List.getElem?_map ▸ hk)
  obtain ⟨-, rfl⟩ := List.getElem?_eq_some_iff.mp hi
  rw [List.getElem_range]

theorem staged_start (hfree : ∀ slot ∈ srv.findCfd, slot.use ≠ 1) (hr : r < n)
    (hon : findFd srv.online req.toname.str = r) :
    Staged req file r (Transfer.start srv n rc req old) (fun _ => .opened) := by
  refine ⟨by simp [Transfer.start], fun c k hk => by rw [handler_start hk],
    fun c k conn hk hc => ?_, ⟨fun i slot hslot huse => ?_, fun c q j hc => ?_, fun c hc => ?_,
      fun w hw => absurd hw List.not_mem_nil⟩, ?_, hon⟩
  · rw [conn_start hc, handler_start hk]
    exact .session rfl rfl rfl rfl rfl
  · exact absurd huse (hfree slot (List.mem_of_getElem? hslot))
  · cases peer_start hc
  · simp [Transfer.start]
  · simp [Transfer.peer, Transfer.start, hr, Conn.new]

theorem announced_start : Announced req file r (Transfer.start srv n rc req old) :=
  ⟨fun o ho => absurd ho List.not_mem_nil, List.nodup_nil,
    fun j hj => absurd hj List.not_mem_nil, fun c c' j hc => by cases peer_start hc⟩

/-- Nothing was opened, and the mapping holds what the file `copy` held. -/
theorem transferring_start (hfree : ∀ slot ∈ srv.findCfd, slot.use ≠ 1) (hrest : rc.AtRest)
    (hr : r < n) (hon : findFd srv.online req.toname.str = r)
    (hid : 0 ≤ req.sfileId ∧ req.sfileId < 20) (hsize : req.filesize = file.length)
    (hpos : 0 < file.length) :
    Transferring req file r (Transfer.start srv n rc req old) := by
  have hclient : (Transfer.start srv n rc req old).client =
      { rc with gconn := rc.gconn.set req.sfileId.toNat (some (pad file.length old)) } := by
    simp [Transfer.start, Receiver.caseMinus3, hid, hsize, hpos]
  refine ⟨⟨_, staged_start hfree hr hon⟩, announced_start, ?_, ⟨⟨.new .session [], ?_, ?_⟩,
    fun q pc hq => ?_, fun c conn q m hc hpeer => ?_, ⟨pad file.length old, ?_, length_pad _ _,
      fun c conn q j hc hpeer => ?_⟩, ?_⟩⟩
  · rw [hclient]
    exact handoff_atRest _ { hrest with gconn := by rw [List.length_set, hrest.gconn] }
  · simp [Transfer.start, hr]
  · rw [hclient]
    simp [Conn.new, Receiver.heard, hrest.reader, hrest.threads]
  · rw [hclient] at hq
    simp [hrest.threads] at hq
  · cases (conn_start hc).symm.trans rfl
    cases hpeer
  · rw [hclient]
    refine List.getElem?_set_self ?_
    rw [hrest.gconn]
    omega
  · cases (conn_start hc).symm.trans rfl
    cases hpeer
  · rw [hclient]
    exact hrest.fault

/-- When as many blocks were announced as there are, each of them was. -/
theorem Announced.covers {s : Transfer DB} (h : Announced req file r s)
    (hlen : blockCount file.length ≤ (told r s.server.srv.written).length) {j : ℕ}
    (hj : j < blockCount file.length) :
    ∃ q < blockCount file.length,
      (told r s.server.srv.written)[q]? = some (header req file j) := by
  have hsub : (told r s.server.srv.written).take (blockCount file.length) ⊆
      (List.range (blockCount file.length)).map (header req file) := by
    intro m hm
    obtain ⟨j, hj, he⟩ := h.records _ (mem_told.mp (List.mem_of_mem_take hm))
    exact List.mem_map.mpr ⟨j, List.mem_range.mpr hj, (Out.record.inj he).symm⟩
  have hnodup := h.nodup.sublist (List.take_sublist (blockCount file.length) _)
  have hperm := (List.subperm_of_subset hnodup hsub).perm_of_length_le
    (by rw [List.length_map, List.length_range, List.length_take_of_le hlen])
  have hmem := hperm.mem_iff.mpr (List.mem_map_of_mem (List.mem_range.mpr hj))
  obtain ⟨q, hq⟩ := List.mem_iff_getElem?.mp hmem
  have hlt := (List.getElem?_eq_some_iff.mp hq).1
  rw [List.length_take_of_le hlen] at hlt
  exact ⟨q, hlt, by rwa [List.getElem?_take_of_lt hlt] at hq⟩

end

/-- A request for a file to user `b`. -/
def fileForUser : Msg := { Msg.zero with toname := .ofBytes 20 [98] }

/-- The server behind the login of user `b` on connection 0. -/
def oneUser : Server Unit := { Server.start () with online := [⟨0, 0, [98]⟩] }

/-- A file of one byte: connection 1 is its block's, connection 2 the receiver's. -/
def oneByteRun : List TransferAction :=
  [.openBlock 0, .send 1, .send 1, .send 1, .serve 1 (.zero 20) false,
    .threadRead [], .threadRead [], .threadRead [], .threadRead [], .threadRead [],
    .recvFile 0, .recvFile 0, .recvFile 0, .recvFile 0, .recvFile 0,
    .serve 2 (.zero 20) false, .serve 2 (.zero 20) false,
    .serve 1 (.zero 20) false, .serve 1 (.zero 20) false, .serve 1 (.zero 20) false,
    .recvFile 0, .recvFile 0]

end LinuxCat.FileTransfer
