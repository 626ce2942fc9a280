import LinuxCat.RelayedBlocks

/-! # The server's side of a transfer

Every connection has a stage, and the receiver is told of each block at most once, whatever the
threads of the two clients and the handlers do. -/
namespace LinuxCat.FileTransfer
open LabelledMachines ByteLayouts Messages FileBlocks ServerModel ReceiverModel WaitQueues

variable {DB : Type} {sql : Sqlite DB}

def Transfer.peer (s : Transfer DB) (c : ℕ) : Option Peer := (s.conns[c]?).map Conn.peer

/-- Connections, handlers and table agree with the stages. -/
structure Staged (req : Msg) (file : Bytes) (r : ℕ) (s : Transfer DB) (stage : ℕ → Stage) :
    Prop where
  length : s.server.handlers.length = s.conns.length
  cfd : ∀ (c : ℕ) k, s.server.handlers[c]? = some k → k.cfd = c
  conn : ∀ (c : ℕ) k conn, s.server.handlers[c]? = some k → s.conns[c]? = some conn →
    ConnOk req file s.peer stage c conn k.pc
  table : Table req file s.peer s.server.srv.findCfd s.server.srv.written stage
  receiver : s.peer r = some .session
  online : findFd s.server.srv.online req.toname.str = r

/-- The receiver hears of blocks only, and of each when its header is read. -/
structure Announced (req : Msg) (file : Bytes) (r : ℕ) (s : Transfer DB) : Prop where
  records : ∀ o, ((r : ℤ), o) ∈ s.server.srv.written →
    ∃ j < blockCount file.length, o = .record (header req file j)
  nodup : (told r s.server.srv.written).Nodup
  source : ∀ j, header req file j ∈ told r s.server.srv.written → ∃ (c : ℕ) (conn : Conn),
    s.conns[c]? = some conn ∧ conn.peer = .sender j ∧ conn.taken ≠ 0
  once : ∀ c c' j, s.peer c = some (.sender j) → s.peer c' = some (.sender j) → c = c'

section
variable {req : Msg} {file : Bytes} {r c : ℕ} {s : Transfer DB} {stage : ℕ → Stage}
  {conn conn' : Conn} {peer : Peer} {rest : List Bytes} {client : Receiver}

theorem peer_of_getElem? (h : s.conns[c]? = some conn) : s.peer c = some conn.peer := by
  rw [Transfer.peer, h]
  rfl

/-- Nobody changes hands. -/
theorem peer_set (h : s.conns[c]? = some conn) (hpeer : conn'.peer = conn.peer)
    (server : ServerState DB) (client : Receiver) :
    (Transfer.mk server (s.conns.set c conn') client).peer = s.peer := by
  funext x
  simp only [Transfer.peer]
  by_cases hx : c = x
  · subst hx
    rw [List.getElem?_set_self (List.getElem?_eq_some_iff.mp h).1, h]
    exact congrArg some hpeer
  · rw [List.getElem?_set_ne hx]

theorem peer_connect (server : ServerState DB) (client : Receiver) :
    (Transfer.mk server (s.conns ++ [.new peer rest]) client).peer =
      Function.update s.peer s.conns.length (some peer) := by
  funext x
  by_cases hx : x = s.conns.length
  · subst hx
    simp [Transfer.peer, Conn.new]
  · rw [Function.update_of_ne hx]
    simp only [Transfer.peer]
    rcases Nat.lt_or_ge x s.conns.length with hlt | hge
    · rw [List.getElem?_append_left hlt]
    · rw [List.getElem?_eq_none (by simp; omega), List.getElem?_eq_none hge]

theorem ConnOk.connect {P : ℕ → Option Peer} {x : ℕ} {pc : Pc}
    (h : ConnOk req file P stage c conn pc) (hx : P x = none) (hc : c ≠ x) :
    ConnOk req file (Function.update P x (some peer)) (Function.update stage x .opened) c conn
      pc := by
  have hstage : Function.update stage x .opened c = stage c := Function.update_of_ne hc _ _
  have hrelays {j : ℕ} {tofd remain : ℤ} (hr : Relays req file P stage c j tofd remain) :
      Relays req file (Function.update P x (some peer)) (Function.update stage x .opened) c j tofd
        remain := by
    obtain ⟨t, q, htofd, hP, hst⟩ := hr
    have htx : t ≠ x := by
      rintro rfl
      simp [hx] at hP
    exact ⟨t, q, htofd, by rwa [Function.update_of_ne htx], by rwa [Function.update_of_ne htx]⟩
  cases h with
  | session hpeer hsent hended hpc hs => exact .session hpeer hsent hended hpc (hstage.trans hs)
  | sender j h hat =>
    refine .sender j h ?_
    cases pc <;> try exact hat
    case recv => exact ⟨hat.1, hstage.trans hat.2⟩
    case search m i => exact ⟨hat.1, hat.2.1, hstage.trans hat.2.2⟩
    case relay m tofd remain =>
      obtain ⟨hm, hpos, hle, htaken, hs, hr⟩ := hat
      exact ⟨hm, hpos, hle, htaken, hstage.trans hs, hrelays hr⟩
    case relayRest m tofd remain =>
      obtain ⟨hm, hpos, hlt, hle, htaken, hs, hr⟩ := hat
      exact ⟨hm, hpos, hlt, hle, htaken, hstage.trans hs, hrelays hr⟩
  | receiver q j h hat =>
    refine .receiver q j h ?_
    cases pc <;> try exact hat
    case recv => exact hat.imp_left fun h => ⟨h.1, hstage.trans h.2⟩
    case register m i => exact ⟨hat.1, hat.2.1, hstage.trans hat.2.2⟩

/-- A client does something on one of its connections. -/
theorem Staged.setConn (h : Staged req file r s stage) (hc : s.conns[c]? = some conn)
    (hpeer : conn'.peer = conn.peer)
    (hok : ∀ pc, ConnOk req file s.peer stage c conn pc → ConnOk req file s.peer stage c conn' pc) :
    Staged req file r ⟨s.server, s.conns.set c conn', client⟩ stage := by
  have hP := peer_set hc hpeer s.server client
  refine ⟨by simpa using h.length, h.cfd, fun c' k conn'' hk hc' => ?_, ?_, ?_, h.online⟩
  · rw [hP]
    obtain ⟨rfl, rfl⟩ | ⟨-, hc'⟩ := getElem?_set_cases hc'
    · exact hok k.pc (h.conn _ k conn hk hc)
    · exact h.conn c' k conn'' hk hc'
  · rw [hP]
    exact h.table
  · rw [hP]
    exact h.receiver

theorem Announced.setConn (h : Announced req file r s) (hc : s.conns[c]? = some conn)
    (hpeer : conn'.peer = conn.peer) (htaken : conn.taken ≠ 0 → conn'.taken ≠ 0) :
    Announced req file r ⟨s.server, s.conns.set c conn', client⟩ := by
  have hP := peer_set hc hpeer s.server client
  refine ⟨h.records, h.nodup, fun j hj => ?_, ?_⟩
  · obtain ⟨c', conn'', hc', hpeer', htaken'⟩ := h.source j hj
    by_cases hcc : c = c'
    · subst hcc
      rw [hc] at hc'
      cases hc'
      exact ⟨c, conn', List.getElem?_set_self (List.getElem?_eq_some_iff.mp hc).1,
        hpeer.trans hpeer', htaken htaken'⟩
    · exact ⟨c', conn'', by simpa only [List.getElem?_set_ne hcc] using hc', hpeer', htaken'⟩
  · rw [hP]
    exact h.once

/-- A new connection, of which the server has seen nothing. -/
theorem Staged.connect (h : Staged req file r s stage)
    (hok : ConnOk req file (Function.update s.peer s.conns.length (some peer))
      (Function.update stage s.conns.length .opened) s.conns.length (.new peer rest) .recv) :
    Staged req file r
      ⟨{ s.server with handlers := s.server.handlers ++ [⟨s.server.handlers.length, .recv⟩] },
        s.conns ++ [.new peer rest], client⟩
      (Function.update stage s.conns.length .opened) := by
  have hnone : s.peer s.conns.length = none := by simp [Transfer.peer]
  refine ⟨by simpa using h.length, forall_place_concat h.cfd rfl, fun c k conn hk hc => ?_, ?_, ?_,
    h.online⟩
  · rw [peer_connect]
    have hlen := h.length
    obtain ⟨rfl, rfl⟩ | hc := getElem?_concat_cases hc
    · obtain ⟨-, rfl⟩ | hk := getElem?_concat_cases hk
      · exact hok
      · have := (List.getElem?_eq_some_iff.mp hk).1
        omega
    · have hlt := (List.getElem?_eq_some_iff.mp hc).1
      obtain ⟨rfl, -⟩ | hk := getElem?_concat_cases hk
      · omega
      · exact (h.conn c k conn hk hc).connect hnone (by omega)
  · rw [peer_connect]
    exact h.table.connect hnone peer
  · rw [peer_connect, Function.update_of_ne, h.receiver]
    rintro rfl
    have := h.receiver
    simp [hnone] at this

theorem Announced.connect (h : Announced req file r s)
    (honce : ∀ j, peer = .sender j → ∀ c, s.peer c ≠ some (.sender j)) :
    Announced req file r
      ⟨{ s.server with handlers := s.server.handlers ++ [⟨s.server.handlers.length, .recv⟩] },
        s.conns ++ [.new peer rest], client⟩ := by
  refine ⟨h.records, h.nodup, fun j hj => ?_, fun c c' j hc hc' => ?_⟩
  · obtain ⟨c, conn, hc, hpeer, htaken⟩ := h.source j hj
    have hlt := (List.getElem?_eq_some_iff.mp hc).1
    exact ⟨c, conn, by rw [List.getElem?_append_left hlt, hc], hpeer, htaken⟩
  · rw [peer_connect] at hc hc'
    by_cases hx : c = s.conns.length
    · by_cases hx' : c' = s.conns.length
      · rw [hx, hx']
      · rw [Function.update_of_ne hx'] at hc'
        rw [hx, Function.update_self] at hc
        exact absurd hc' (honce j (Option.some.inj hc) c')
    · rw [Function.update_of_ne hx] at hc
      by_cases hx' : c' = s.conns.length
      · rw [hx', Function.update_self] at hc'
        exact absurd hc (honce j (Option.some.inj hc') c)
      · rw [Function.update_of_ne hx'] at hc'
        exact h.once c c' j hc hc'

/-- Inversion of a step of a handler. -/
theorem serve_cases {t : Transfer DB} {junk : CharArray 20} {fails : Bool}
    (h : serve sql s c junk fails = some t) :
    ∃ k conn inp n srv pc, s.server.handlers[c]? = some k ∧ s.conns[c]? = some conn ∧
      serverInput conn ((k.cfd, Out.close) ∈ s.server.srv.written) k.pc junk fails =
        some (inp, n) ∧
      threadReadPc sql s.server.srv k.cfd k.pc inp = some (srv, pc) ∧
      t = { s with
        server := {
          srv := srv
          handlers := s.server.handlers.set c { k with pc := pc }
          history := s.server.history ++ [served sql s.server.srv srv k inp] }
        conns := s.conns.set c { conn with taken := conn.taken + n } } := by
  obtain ⟨k, hk, h⟩ := Option.bind_eq_some_iff.mp h
  obtain ⟨conn, hc, h⟩ := Option.bind_eq_some_iff.mp h
  obtain ⟨⟨inp, n⟩, hin, h⟩ := Option.bind_eq_some_iff.mp h
  obtain ⟨server, hstep, rfl⟩ := Option.map_eq_some_iff.mp h
  obtain ⟨hacc, -⟩ | ⟨c', inp', k', srv, pc, he, hk', hr, rfl⟩ := serverStep_cases hstep
  · cases hacc
  · cases he
    rw [hk] at hk'
    cases hk'
    exact ⟨k, conn, inp, n, srv, pc, hk, hc, hin, hr, rfl⟩

theorem told_append (fd : ℤ) (ws ws' : List (ℤ × Out)) :
    told fd (ws ++ ws') = told fd ws ++ told fd ws' := List.filterMap_append

theorem told_of_ne {fd : ℤ} {ws : List (ℤ × Out)} (h : ∀ w ∈ ws, w.1 ≠ fd) : told fd ws = [] := by
  rw [told, List.filterMap_eq_nil_iff]
  rintro ⟨fd', o⟩ hw
  cases o <;> simp [h _ hw]

theorem mem_told {fd : ℤ} {ws : List (ℤ × Out)} {m : Msg} :
    m ∈ told fd ws ↔ (fd, Out.record m) ∈ ws := by
  simp only [told, List.mem_filterMap]
  constructor
  · rintro ⟨⟨fd', o⟩, hw, h⟩
    cases o <;> simp only [Option.ite_none_right_eq_some, Option.some.injEq, reduceCtorEq] at h
    obtain ⟨rfl, rfl⟩ := h
    exact hw
  · intro h
    exact ⟨_, h, by simp⟩

theorem ConnOk.lt_of_sender {P : ℕ → Option Peer} {pc : Pc} {j : ℕ}
    (h : ConnOk req file P stage c conn pc) (hpeer : conn.peer = .sender j) :
    j < blockCount file.length := by
  cases h with
  | session hpeer' => simp [hpeer'] at hpeer
  | sender j' h hat =>
    have := h.peer.symm.trans hpeer
    simp only [Peer.sender.injEq] at this
    exact this ▸ h.lt
  | receiver q j' h hat => simp [h.peer] at hpeer

/-- A block whose header is still to be read was not announced. -/
theorem Announced.not_told (h : Announced req file r s) {j : ℕ} (hc : s.conns[c]? = some conn)
    (hpeer : conn.peer = .sender j) (htaken : conn.taken = 0) :
    header req file j ∉ told r s.server.srv.written := by
  intro hmem
  obtain ⟨c', conn', hc', hpeer', htaken'⟩ := h.source j hmem
  have hcc := h.once c' c j (by rw [peer_of_getElem? hc', hpeer'])
    (by rw [peer_of_getElem? hc, hpeer])
  subst hcc
  rw [hc] at hc'
  cases hc'
  exact htaken' htaken

/-- A step of a handler keeps everything in its stage. -/
theorem staged_serve {t : Transfer DB} {junk : CharArray 20} {fails : Bool}
    (htyped : ∀ j < blockCount file.length, (header req file j).Typed)
    (h : Staged req file r s stage) (ha : Announced req file r s)
    (hstep : serve sql s c junk fails = some t) :
    (∃ stage', Staged req file r t stage') ∧ Announced req file r t ∧
      s.server.srv.written <+: t.server.srv.written := by
  obtain ⟨k, conn, inp, n, srv, pc, hk, hc, hin, hr, rfl⟩ := serve_cases hstep
  have hcfd := h.cfd c k hk
  rw [hcfd] at hin hr
  obtain ⟨stage', hown, htable, hmoves, honline, ws, hws, htold⟩ := handled h.table h.receiver
    h.online htyped (h.conn c k conn hk hc) (peer_of_getElem? hc) hin hr
  have hP (server : ServerState DB) :
      (Transfer.mk server (s.conns.set c { conn with taken := conn.taken + n }) s.client).peer =
        s.peer := peer_set hc (by rfl) server s.client
  have hset : (s.conns.set c { conn with taken := conn.taken + n })[c]? =
      some { conn with taken := conn.taken + n } :=
    List.getElem?_set_self (List.getElem?_eq_some_iff.mp hc).1
  refine ⟨⟨stage', by simpa using h.length, forall_place_set h.cfd hcfd,
    fun c' k' conn' hk' hc' => ?_, ?_, ?_, ?_⟩, ⟨fun o ho => ?_, ?_, fun j hj => ?_, ?_⟩, ⟨ws, hws.symm⟩⟩
  · rw [hP]
    obtain ⟨rfl, rfl⟩ | ⟨hcc, hc'⟩ := getElem?_set_cases hc'
    · obtain ⟨-, rfl⟩ | ⟨hne, -⟩ := getElem?_set_cases hk'
      · exact hown
      · exact absurd rfl hne
    · obtain ⟨rfl, -⟩ | ⟨-, hk'⟩ := getElem?_set_cases hk'
      · exact absurd rfl hcc
      · exact (h.conn c' k' conn' hk' hc').moves (Ne.symm hcc) hmoves
  · rw [hP]
    exact htable
  · rw [hP]
    exact h.receiver
  · rw [honline]
    exact h.online
  · simp only [hws, List.mem_append] at ho
    rcases ho with ho | ho
    · exact ha.records o ho
    · rcases htold with hne | ⟨j, hpeer, htaken, htaken', rfl⟩
      · exact absurd rfl (hne _ ho)
      · simp only [List.mem_singleton, Prod.mk.injEq, true_and] at ho
        exact ⟨j, (h.conn c k conn hk hc).lt_of_sender hpeer, ho⟩
  · simp only [hws, told_append]
    rcases htold with hne | ⟨j, hpeer, htaken, htaken', rfl⟩
    · rw [told_of_ne hne, List.append_nil]
      exact ha.nodup
    · have hnew : told (r : ℤ) [((r : ℤ), .record (header req file j))] = [header req file j] := by
        simp [told]
      rw [hnew, List.nodup_append]
      refine ⟨ha.nodup, by simp, fun m hm m' hm' he => ?_⟩
      rw [he, List.mem_singleton.mp hm'] at hm
      exact ha.not_told hc hpeer htaken hm
  · simp only [hws, told_append, List.mem_append] at hj
    rcases hj with hj | hj
    · obtain ⟨c', conn', hc', hpeer', htaken'⟩ := ha.source j hj
      by_cases hcc : c = c'
      · subst hcc
        rw [hc] at hc'
        cases hc'
        exact ⟨c, _, hset, hpeer', by simp [htaken']⟩
      · exact ⟨c', conn', by simpa only [List.getElem?_set_ne hcc] using hc', hpeer', htaken'⟩
    · rcases htold with hne | ⟨j', hpeer, htaken, htaken', rfl⟩
      · simp [told_of_ne hne] at hj
      · rw [mem_told, List.mem_singleton, Prod.mk.injEq, Out.record.injEq] at hj
        obtain rfl := header_injective hj.2
        exact ⟨c, _, hset, hpeer, htaken'⟩
  · rw [hP]
    exact ha.once

/-- Inversion of a step of the thread of a block. -/
theorem send_cases {t : Transfer DB} (h : send s c = some t) :
    ∃ conn conn' j, s.conns[c]? = some conn ∧ conn.peer = .sender j ∧ t = s.setConn c conn' ∧
      ((∃ bs rest, conn.rest = bs :: rest ∧
          conn' = { conn with sent := conn.sent ++ bs, rest := rest }) ∨
        (conn.rest = [] ∧ conn' = { conn with ended := true })) := by
  obtain ⟨⟨peer, rest, sent, ended, taken, read⟩, hc, h⟩ := Option.bind_eq_some_iff.mp h
  cases peer with
  | session => cases h
  | receiver q m => cases h
  | sender j =>
    cases rest with
    | nil =>
      simp only at h
      split_ifs at h
      cases h
      exact ⟨_, _, j, hc, rfl, rfl, .inr ⟨rfl, rfl⟩⟩
    | cons bs rest =>
      cases h
      exact ⟨_, _, j, hc, rfl, rfl, .inl ⟨bs, rest, rfl, rfl⟩⟩

/-- The thread of a block writes, or closes its connection. -/
theorem staged_send {t : Transfer DB} (h : Staged req file r s stage)
    (ha : Announced req file r s) (hstep : send s c = some t) :
    Staged req file r t stage ∧ Announced req file r t := by
  obtain ⟨conn, conn', j, hc, hpeer, rfl, hconn'⟩ := send_cases hstep
  have hkeeps : conn'.peer = conn.peer ∧ conn'.taken = conn.taken := by
    rcases hconn' with ⟨bs, rest, -, rfl⟩ | ⟨-, rfl⟩ <;> exact ⟨rfl, rfl⟩
  refine ⟨h.setConn hc hkeeps.1 fun pc hok => ?_,
    ha.setConn hc hkeeps.1 (by rw [hkeeps.2]; exact id)⟩
  cases hok with
  | session hp => simp [hp] at hpeer
  | receiver q j hj => simp [hj.peer] at hpeer
  | sender j' hj hat =>
    refine .sender j' ⟨hkeeps.1.trans hj.peer, hj.lt, ?_, ?_⟩ (by rwa [hkeeps.2])
    · rcases hconn' with ⟨bs, rest, hrest, rfl⟩ | ⟨-, rfl⟩
      · rw [← hj.stream, hrest]
        simp
      · exact hj.stream
    · rcases hconn' with ⟨bs, rest, hrest, rfl⟩ | ⟨hrest, rfl⟩
      · intro hended
        simp [hj.ended hended] at hrest
      · exact fun _ => hrest

/-- `Create_sock` of a client. -/
theorem connect_eq {t : Transfer DB} (h : s.connect sql peer rest = some t) :
    t = ⟨{ s.server with handlers := s.server.handlers ++ [⟨s.server.handlers.length, .recv⟩] },
      s.conns ++ [.new peer rest], s.client⟩ := by
  obtain ⟨server, hstep, rfl⟩ := Option.map_eq_some_iff.mp h
  obtain ⟨-, rfl⟩ | ⟨c, inp, k, srv, pc, he, -⟩ := serverStep_cases hstep
  · rfl
  · cases he

/-- The thread of a block connects. -/
theorem staged_openBlock {t : Transfer DB} {heads : List Msg} {j : ℕ}
    (hheads : heads = (List.range (blockCount file.length)).map (head req file.length))
    (h : Staged req file r s stage) (ha : Announced req file r s)
    (hstep : openBlock sql file heads s j = some t) :
    (∃ stage', Staged req file r t stage') ∧ Announced req file r t := by
  obtain ⟨m, hm, hstep⟩ := Option.bind_eq_some_iff.mp hstep
  split_ifs at hstep with hfresh
  obtain rfl := connect_eq hstep
  have hj : j < blockCount file.length := by
    have := (List.getElem?_eq_some_iff.mp hm).1
    simpa [hheads] using this
  rw [hheads, List.getElem?_map, List.getElem?_range hj] at hm
  obtain rfl := Option.some.inj hm
  refine ⟨⟨_, h.connect (.sender j ⟨rfl, hj, ?_, by simp [Conn.new]⟩
    ⟨rfl, Function.update_self _ _ _⟩)⟩, ha.connect fun j' he c hc => ?_⟩
  · show [] ++ (sendFiledata file (head req file.length j)).flatten = _
    rw [sendFiledata_flatten _ _ (by simp [head, blockHead]), List.nil_append]
    have hoff : (500 * (j : ℤ)).toNat = 500 * j := by omega
    simp [header, block, head, blockHead, hoff]
  · cases he
    obtain ⟨conn, hconn, hpeer⟩ := Option.map_eq_some_iff.mp hc
    exact hfresh conn (List.mem_of_getElem? hconn) hpeer

end
end LinuxCat.FileTransfer
