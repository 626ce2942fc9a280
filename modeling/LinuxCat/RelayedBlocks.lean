import LinuxCat.TransferStages

/-! # The handlers of the server during a transfer

Where the handler of a connection is tells how much of its stream was read and which connection
it relays to. One step of one handler keeps this for all of them. -/
namespace LinuxCat.FileTransfer
open LabelledMachines ByteLayouts Messages FileBlocks ServerModel ReceiverModel

variable {DB : Type} {sql : Sqlite DB}

/-- Handler `c` relays block `j` to this descriptor. -/
def Relays (req : Msg) (file : Bytes) (P : ℕ → Option Peer) (stage : ℕ → Stage) (c j : ℕ)
    (tofd remain : ℤ) : Prop :=
  ∃ t q : ℕ, tofd = t ∧ P t = some (.receiver q (header req file j)) ∧
    stage t = .relayed c remain

/-- The handler of the connection of block `j`. -/
def SenderAt (req : Msg) (file : Bytes) (P : ℕ → Option Peer) (stage : ℕ → Stage)
    (c j taken : ℕ) : Pc → Prop
  | .recv => taken = 0 ∧ stage c = .opened
  | .search m _ => m = header req file j ∧ taken = sizeofMsg ∧ stage c = .opened
  | .relay m tofd remain =>
    m = header req file j ∧ 0 < remain ∧ remain ≤ blockLength file.length j ∧
      (taken : ℤ) + remain = sizeofMsg + blockLength file.length j ∧ stage c = .opened ∧
      Relays req file P stage c j tofd remain
  | .relayRest m tofd remain =>
    m = header req file j ∧ 0 ≤ remain ∧ remain < 100 ∧ remain ≤ blockLength file.length j ∧
      (taken : ℤ) + remain = sizeofMsg + blockLength file.length j ∧ stage c = .opened ∧
      Relays req file P stage c j tofd remain
  | .cancelled | .exited => taken ≠ 0
  | _ => False

/-- The handler of a connection the receiver opened for block `j`. -/
def ReceiverAt (req : Msg) (file : Bytes) (stage : ℕ → Stage) (c j taken : ℕ) : Pc → Prop
  | .recv => taken = 0 ∧ stage c = .opened ∨ taken = sizeofMsg
  | .register m _ => m = answer req file j ∧ taken = sizeofMsg ∧ stage c = .opened
  | .insertPerson _ => taken = sizeofMsg
  | .exited => True
  | _ => False

/-- The thread of block `j` writes its header and its bytes on this connection. -/
structure Sends (req : Msg) (file : Bytes) (conn : Conn) (j : ℕ) : Prop where
  peer : conn.peer = .sender j
  lt : j < blockCount file.length
  stream : conn.sent ++ conn.rest.flatten = (header req file j).toBytes ++ block file j
  ended : conn.ended = true → conn.rest = []

/-- Thread `q` of the receiver opened this connection for block `j`. -/
structure Fetches (req : Msg) (file : Bytes) (conn : Conn) (q j : ℕ) : Prop where
  peer : conn.peer = .receiver q (header req file j)
  lt : j < blockCount file.length
  sent : conn.sent = [] ∧ conn.ended = false ∨ conn.sent = (answer req file j).toBytes

inductive ConnOk (req : Msg) (file : Bytes) (P : ℕ → Option Peer) (stage : ℕ → Stage) (c : ℕ)
    (conn : Conn) (pc : Pc) : Prop
  | session (hpeer : conn.peer = .session) (hsent : conn.sent = []) (hended : conn.ended = false)
      (hpc : pc = .recv) (hstage : stage c = .opened)
  | sender (j : ℕ) (h : Sends req file conn j) (hat : SenderAt req file P stage c j conn.taken pc)
  | receiver (q j : ℕ) (h : Fetches req file conn q j)
      (hat : ReceiverAt req file stage c j conn.taken pc)

/-- A step of handler `c` only moves stages that are its own business. -/
structure Moves (c : ℕ) (stage stage' : ℕ → Stage) : Prop where
  opened : ∀ x, x ≠ c → stage x = .opened → stage' x = .opened
  relayed : ∀ x c' remain, c' ≠ c → stage x = .relayed c' remain → stage' x = .relayed c' remain

theorem Moves.refl (c : ℕ) (stage : ℕ → Stage) : Moves c stage stage :=
  ⟨fun _ _ h => h, fun _ _ _ _ h => h⟩

theorem Moves.trans {c : ℕ} {stage stage' stage'' : ℕ → Stage} (h : Moves c stage stage')
    (h' : Moves c stage' stage'') : Moves c stage stage'' :=
  ⟨fun x hx hs => h'.opened x hx (h.opened x hx hs),
    fun x c' remain hc hs => h'.relayed x c' remain hc (h.relayed x c' remain hc hs)⟩

theorem Moves.update {c x : ℕ} {stage : ℕ → Stage} {st : Stage}
    (hopened : stage x = .opened → x = c) (hrelayed : ∀ c' remain, stage x = .relayed c' remain → c' = c) :
    Moves c stage (Function.update stage x st) := by
  refine ⟨fun y hy hs => ?_, fun y c' remain hc hs => ?_⟩
  · rw [Function.update_of_ne (by rintro rfl; exact hy (hopened hs)), hs]
  · rw [Function.update_of_ne (by rintro rfl; exact hc (hrelayed c' remain hs)), hs]

section Frame
variable {req : Msg} {file : Bytes} {P P' : ℕ → Option Peer} {stage stage' : ℕ → Stage}
  {c c' j taken : ℕ} {conn : Conn} {pc : Pc} {tofd remain : ℤ}

theorem Relays.moves (h : Relays req file P stage c' j tofd remain) (hc : c' ≠ c)
    (hmoves : Moves c stage stage') : Relays req file P stage' c' j tofd remain := by
  obtain ⟨t, q, htofd, hP, hstage⟩ := h
  exact ⟨t, q, htofd, hP, hmoves.relayed t c' remain hc hstage⟩

/-- What holds of the other connections still holds. -/
theorem ConnOk.moves (h : ConnOk req file P stage c' conn pc) (hc : c' ≠ c)
    (hmoves : Moves c stage stage') : ConnOk req file P stage' c' conn pc := by
  have hopened := hmoves.opened c' hc
  cases h with
  | session hpeer hsent hended hpc hstage => exact .session hpeer hsent hended hpc (hopened hstage)
  | sender j h hat =>
    refine .sender j h ?_
    cases pc <;> try exact hat
    case recv => exact ⟨hat.1, hopened hat.2⟩
    case search m i => exact ⟨hat.1, hat.2.1, hopened hat.2.2⟩
    case relay m tofd remain =>
      obtain ⟨hm, hpos, hle, htaken, hstage, hrelays⟩ := hat
      exact ⟨hm, hpos, hle, htaken, hopened hstage, hrelays.moves hc hmoves⟩
    case relayRest m tofd remain =>
      obtain ⟨hm, hpos, hlt, hle, htaken, hstage, hrelays⟩ := hat
      exact ⟨hm, hpos, hlt, hle, htaken, hopened hstage, hrelays.moves hc hmoves⟩
  | receiver q j h hat =>
    refine .receiver q j h ?_
    cases pc <;> try exact hat
    case recv => exact hat.imp_left fun h => ⟨h.1, hopened h.2⟩
    case register m i => exact ⟨hat.1, hat.2.1, hopened hat.2.2⟩

end Frame

/-! ## One step of a handler -/

theorem recvOf_stream {sent rest bs : Bytes} {ended : Bool} {taken k : ℕ}
    (hended : ended = true → rest = []) (h : recvOf (sent.drop taken) ended k = some bs) :
    bs = ((sent ++ rest).drop taken).take k := by
  simp only [recvOf] at h
  split_ifs at h with hk
  cases h
  rcases hk with hk | hk
  · rw [List.drop_append, List.take_append_of_le_length hk]
  · rw [hended hk, List.append_nil]

/-- The records the server has written to a connection. -/
def told (fd : ℤ) (written : List (ℤ × Out)) : List Msg :=
  written.filterMap (fun w =>
    match w with
    | (fd', .record m) => if fd' = fd then some m else none
    | _ => none)

/-- What a step of handler `c` leaves behind. `r` is the session of the receiver. -/
structure Handled (req : Msg) (file : Bytes) (r : ℕ) (P : ℕ → Option Peer)
    (stage stage' : ℕ → Stage) (srv srv' : Server DB) (c : ℕ) (conn : Conn) (taken : ℕ)
    (pc : Pc) : Prop where
  own : ConnOk req file P stage' c { conn with taken := taken } pc
  table : Table req file P srv'.findCfd srv'.written stage'
  moves : Moves c stage stage'
  online : srv'.online = srv.online
  writes : ∃ ws, srv'.written = srv.written ++ ws ∧ ((∀ w ∈ ws, w.1 ≠ (r : ℤ)) ∨
    ∃ j, conn.peer = .sender j ∧ conn.taken = 0 ∧ taken ≠ 0 ∧
      ws = [((r : ℤ), .record (header req file j))])

/-- A step that writes nothing and moves no stage. -/
theorem Handled.quiet {req : Msg} {file : Bytes} {r c n : ℕ} {P : ℕ → Option Peer}
    {stage : ℕ → Stage} {srv srv' : Server DB} {conn : Conn} {pc : Pc}
    (hown : ConnOk req file P stage c { conn with taken := n } pc)
    (htable : Table req file P srv.findCfd srv.written stage)
    (hfind : srv'.findCfd = srv.findCfd) (hwritten : srv'.written = srv.written)
    (honline : srv'.online = srv.online) :
    Handled req file r P stage stage srv srv' c conn n pc :=
  ⟨hown, by rwa [hfind, hwritten], .refl c stage, honline, [], by simp [hwritten], .inl (by simp)⟩

/-- A connection of a block is not a session. -/
theorem fd_ne_session {P : ℕ → Option Peer} {r c : ℕ} {peer : Peer} (hr : P r = some .session)
    (hP : P c = some peer) (hpeer : peer ≠ .session) : (c : ℤ) ≠ r := by
  intro he
  rw [Nat.cast_inj.mp he, hr] at hP
  exact hpeer (Option.some.inj hP).symm

section Senders
variable {req : Msg} {file : Bytes} {P : ℕ → Option Peer} {stage : ℕ → Stage} {c j r : ℕ}
  {conn : Conn} {srv srv' : Server DB} {pc₀ pc : Pc} {inp : Input} {n : ℕ} {junk : CharArray 20}
  {fails : Bool}

theorem delivered_append {remain : ℤ} {bs : Bytes} (c : ℕ)
    (hle : remain ≤ blockLength file.length j) (hlen : (bs.length : ℤ) ≤ remain)
    (hbs : bs = ((block file j).drop (blockLength file.length j - remain.toNat)).take bs.length) :
    (Stage.relayed c remain).delivered file j ++ bs =
      (Stage.relayed c (remain - bs.length)).delivered file j := by
  have hsum : blockLength file.length j - (remain - bs.length).toNat =
      blockLength file.length j - remain.toNat + bs.length := by omega
  simp only [Stage.delivered]
  rw [hsum, List.take_add, ← hbs]

theorem Sends.recv {k : ℕ} {bs : Bytes} (h : Sends req file conn j)
    (hbs : recvOf (conn.sent.drop conn.taken) conn.ended k = some bs) :
    bs = (((header req file j).toBytes ++ block file j).drop conn.taken).take k := by
  have hall : conn.ended = true → conn.rest.flatten = [] := fun he => by rw [h.ended he]; rfl
  rw [← h.stream]
  exact recvOf_stream hall hbs

/-- What a `recv` of the relay returns: the next bytes of the block. -/
theorem Sends.recv_block {remain : ℤ} {k : ℕ} {bs : Bytes} (h : Sends req file conn j)
    (htaken : (conn.taken : ℤ) + remain = sizeofMsg + blockLength file.length j)
    (hpos : 0 ≤ remain) (hle : remain ≤ blockLength file.length j)
    (hbs : recvOf (conn.sent.drop conn.taken) conn.ended k = some bs) :
    bs.length = min k remain.toNat ∧
      bs = ((block file j).drop (blockLength file.length j - remain.toNat)).take bs.length := by
  have hread : conn.taken = (header req file j).toBytes.length +
      (blockLength file.length j - remain.toNat) := by
    rw [Msg.length_toBytes]
    omega
  have hnext : bs = ((block file j).drop (blockLength file.length j - remain.toNat)).take k := by
    rw [h.recv hbs, hread, List.drop_length_add_append]
  refine ⟨?_, List.prefix_iff_eq_take.mp (hnext ▸ List.take_prefix _ _)⟩
  rw [hnext, List.length_take, List.length_drop, length_block h.lt]
  omega

theorem toBytes_ne_nil (m : Msg) : m.toBytes ≠ [] := by
  intro he
  have := congrArg List.length he
  rw [Msg.length_toBytes] at this
  simp [sizeofMsg] at this

/-- A record that a `recv` returns whole. -/
theorem inputOf_toBytes {m : Msg} (h : m.Typed) :
    inputOf .recv junk m.toBytes = .record m junk := by
  rw [inputOf, if_neg (toBytes_ne_nil m), pad_of_length m.length_toBytes, Msg.ofBytes_toBytes h]

/-- A `recv` of a descriptor that is not closed does not fail. -/
theorem serverInput_of_open {k : ℕ} (hk : requestedBytes pc = some k)
    (h : serverInput conn false pc junk fails = some (inp, n)) :
    ∃ bs, recvOf (conn.sent.drop conn.taken) conn.ended k = some bs ∧ inp = inputOf pc junk bs ∧
      n = bs.length := by
  simp only [serverInput, hk] at h
  split_ifs at h with hf hc
  · cases hc
  · obtain ⟨bs, hbs, he⟩ := Option.map_eq_some_iff.mp h
    cases he
    exact ⟨bs, hbs, rfl, rfl⟩

theorem serverInput_go (hk : requestedBytes pc = none) {closed : Bool}
    (h : serverInput conn closed pc junk fails = some (inp, n)) : inp = .go ∧ n = 0 := by
  simp only [serverInput, hk] at h
  split_ifs at h
  cases h
  exact ⟨rfl, rfl⟩

/-- The header comes in, and the receiver is told of its block. -/
theorem handled_header (htable : Table req file P srv.findCfd srv.written stage)
    (hr : P r = some .session) (hon : findFd srv.online req.toname.str = r)
    (htyped : (header req file j).Typed) (hconn : Sends req file conn j) (htaken : conn.taken = 0)
    (hstage : stage c = .opened) (hin : serverInput conn false .recv junk fails = some (inp, n))
    (h : threadReadPc sql srv c .recv inp = some (srv', pc)) :
    Handled req file r P stage stage srv srv' c conn (conn.taken + n) pc := by
  obtain ⟨bs, hbs, rfl, rfl⟩ := serverInput_of_open rfl hin
  have hhead : bs = (header req file j).toBytes := by
    rw [hconn.recv hbs, htaken, List.drop_zero, ← (header req file j).length_toBytes,
      List.take_left]
  rw [hhead, inputOf_toBytes htyped] at h
  have hcase : dispatch sql junk srv c (header req file j) =
      (srv.write r (.record (header req file j)), .search (header req file j) 0) := by
    simp [dispatch, case5, hon]
  simp only [threadReadPc, hcase, Option.some.injEq, Prod.mk.injEq] at h
  obtain ⟨rfl, rfl⟩ := h
  have hlen : conn.taken + bs.length = sizeofMsg := by
    rw [htaken, hhead, Msg.length_toBytes, zero_add]
  refine ⟨.sender j { hconn with } ⟨rfl, hlen, hstage⟩, ?_, .refl c stage, rfl,
    [((r : ℤ), .record (header req file j))], rfl, .inr ⟨j, hconn.peer, htaken, ?_, rfl⟩⟩
  · exact htable.record (by simp [hr]) (.inr (by simp [hr])) _
  · rw [hlen]
    decide

/-- One look of a search. -/
theorem handled_search (htable : Table req file P srv.findCfd srv.written stage)
    (hconn : Sends req file conn j) (htaken : conn.taken = sizeofMsg) (hstage : stage c = .opened)
    {i : ℕ} (h : searchSlot srv c (header req file j) i = some (srv', pc)) :
    ∃ stage', Handled req file r P stage stage' srv srv' c conn conn.taken pc := by
  simp only [searchSlot, Option.map_eq_some_iff] at h
  obtain ⟨slot, hslot, h⟩ := h
  split_ifs at h with hfound
  · obtain ⟨t, q, j', hcfd, hoff, hP, hst⟩ := htable.slot i slot hslot hfound.1
    obtain rfl : j' = j := by
      have := hoff.symm.trans hfound.2
      simp only [header_offset] at this
      omega
    have hpos : (0 : ℤ) < blockLength file.length j' := by
      have := blockLength_pos hconn.lt
      omega
    rw [ServerModel.sendFile, header_bs, if_pos hpos, Prod.mk.injEq] at h
    obtain ⟨rfl, rfl⟩ := h
    have htc : c ≠ t := by
      rintro rfl
      simp [hstage] at hst
    refine ⟨Function.update stage t (.relayed c (blockLength file.length j')),
      .sender j' { hconn with } ⟨rfl, hpos, le_rfl, by rw [htaken], ?_, t, q, hcfd, hP, ?_⟩,
      htable.found hP hst, .update (by simp [hst]) (by simp [hst]), rfl, [], by simp,
      .inl (by simp)⟩
    · rw [Function.update_of_ne htc, hstage]
    · rw [Function.update_self]
  · simp only [Prod.mk.injEq] at h
    obtain ⟨rfl, rfl⟩ := h
    exact ⟨stage, .quiet (.sender j { hconn with } ⟨rfl, htaken, hstage⟩) htable rfl rfl rfl⟩

/-- The next bytes of the block go to the connection of the receiver. -/
theorem handled_relay (htable : Table req file P srv.findCfd srv.written stage)
    (hr : P r = some .session) (hconn : Sends req file conn j) {tofd remain : ℤ} (hpos : 0 < remain)
    (hle : remain ≤ blockLength file.length j)
    (htaken : (conn.taken : ℤ) + remain = sizeofMsg + blockLength file.length j)
    (hstage : stage c = .opened) (hrelays : Relays req file P stage c j tofd remain)
    (hin : serverInput conn false (.relay (header req file j) tofd remain) junk fails =
      some (inp, n))
    (h : relayFirst srv c (header req file j) tofd remain inp = some (srv', pc)) :
    ∃ stage', Handled req file r P stage stage' srv srv' c conn (conn.taken + n) pc := by
  obtain ⟨bs, hbs, rfl, rfl⟩ := serverInput_of_open rfl hin
  obtain ⟨hlen, hblock⟩ := hconn.recv_block htaken hpos.le hle hbs
  have hbuf : ServerModel.RECVBUF_SIZE = 100 := rfl
  obtain ⟨t, q, rfl, hP, hst⟩ := hrelays
  have htable' := htable.raw hP hst (delivered_append c hle (by omega) hblock)
  have htc : c ≠ t := by
    rintro rfl
    simp [hstage] at hst
  have htr := fd_ne_session hr hP (by simp)
  have hmoves : Moves c stage (Function.update stage t (.relayed c (remain - bs.length))) := by
    refine .update (by simp [hst]) fun c' remain' hs => ?_
    rw [hst] at hs
    exact (Stage.relayed.inj hs).1.symm
  have hstage' : Function.update stage t (.relayed c (remain - bs.length)) c = .opened := by
    rw [Function.update_of_ne htc, hstage]
  have hrelays' : Relays req file P (Function.update stage t (.relayed c (remain - bs.length))) c j
      t (remain - bs.length) := ⟨t, q, rfl, hP, Function.update_self _ _ _⟩
  have htmod : 0 ≤ ((blockLength file.length j : ℕ) : ℤ).tmod 100 ∧
      ((blockLength file.length j : ℕ) : ℤ).tmod 100 < 100 :=
    ⟨Int.tmod_nonneg _ (by omega), Int.tmod_lt_of_pos _ (by omega)⟩
  have hsome : relayTest (srv.write t (.raw bs)) c (header req file j) t (remain - bs.length) =
      (srv', pc) := by
    simp only [inputOf, relayFirst] at h
    rw [if_pos (by omega), if_pos (by omega)] at h
    exact Option.some.inj h
  rw [relayTest, header_bs, hbuf, Nat.cast_ofNat] at hsome
  have hwrites : ∃ ws, srv.written ++ [((t : ℤ), Out.raw bs)] = srv.written ++ ws ∧
      ((∀ w ∈ ws, w.1 ≠ (r : ℤ)) ∨ ∃ j, conn.peer = .sender j ∧ conn.taken = 0 ∧
        conn.taken + bs.length ≠ 0 ∧ ws = [((r : ℤ), .record (header req file j))]) :=
    ⟨_, rfl, .inl (by simpa using htr)⟩
  split_ifs at hsome with hrest
  · cases hsome
    exact ⟨_, .sender j { hconn with } ⟨rfl, by omega, by omega, by omega, by push_cast; omega,
      hstage', hrelays'⟩, htable', hmoves, rfl, hwrites⟩
  · rw [relayLoop, if_pos (by omega)] at hsome
    cases hsome
    exact ⟨_, .sender j { hconn with } ⟨rfl, by omega, by omega, by push_cast; omega, hstage',
      hrelays'⟩, htable', hmoves, rfl, hwrites⟩

/-- The last bytes of the block, and both connections are closed. -/
theorem handled_relayRest (htable : Table req file P srv.findCfd srv.written stage)
    (hr : P r = some .session) (hconn : Sends req file conn j) {tofd remain : ℤ}
    (hpos : 0 ≤ remain) (hlt : remain < 100) (hle : remain ≤ blockLength file.length j)
    (htaken : (conn.taken : ℤ) + remain = sizeofMsg + blockLength file.length j)
    (hP : P c = some (.sender j)) (hstage : stage c = .opened)
    (hrelays : Relays req file P stage c j tofd remain)
    (hin : serverInput conn false (.relayRest (header req file j) tofd remain) junk fails =
      some (inp, n))
    (h : relaySecond srv c (header req file j) tofd remain inp = some (srv', pc)) :
    ∃ stage', Handled req file r P stage stage' srv srv' c conn (conn.taken + n) pc := by
  obtain ⟨bs, hbs, rfl, rfl⟩ := serverInput_of_open rfl hin
  obtain ⟨hlen, hblock⟩ := hconn.recv_block htaken hpos hle hbs
  have hall : (bs.length : ℤ) = remain := by
    rw [hlen, Int.emod_eq_of_lt hpos (by omega)]
    omega
  obtain ⟨t, q, rfl, hPt, hst⟩ := hrelays
  have htc : c ≠ t := by
    rintro rfl
    simp [hstage] at hst
  have htr := fd_ne_session hr hPt (by simp)
  have hcr := fd_ne_session hr hP (by simp)
  have hraw := htable.raw hPt hst (delivered_append c hle (by omega) hblock)
  rw [hall, sub_self] at hraw
  have hdone : ∀ q' j', P t = some (.receiver q' (header req file j')) →
      (Function.update stage t (.relayed c 0) t).delivered file j' = block file j' := by
    intro q' j' hx
    rw [hPt] at hx
    simp only [Option.some.injEq, Peer.receiver.injEq] at hx
    obtain rfl := header_injective hx.2
    simp only [Function.update_self, Stage.delivered, Int.toNat_zero, Nat.sub_zero]
    exact List.take_of_length_le (length_block hconn.lt).le
  have hcloset := hraw.close (x := t) (by simp [hPt]) (by simp) hdone
  have hopened : Function.update (Function.update stage t (.relayed c 0)) t .closed c =
      .opened := by
    rw [Function.update_of_ne htc, Function.update_of_ne htc, hstage]
  have hclosec := hcloset.close (x := c) (by simp [hP]) (by simp [hopened]) (by simp [hP])
  have hmoves : Moves c stage (Function.update (Function.update (Function.update stage t
      (.relayed c 0)) t .closed) c .closed) := by
    refine ((Moves.update ?_ ?_).trans (.update ?_ ?_)).trans (.update ?_ ?_)
    all_goals simp [hst, hopened]
  have hsome : relayLoop (srv.write t (.raw bs)) c (header req file j) t (remain - bs.length) =
      (srv', pc) := by
    simp only [relaySecond, inputOf] at h
    rw [if_pos (by omega), if_pos (by simp only [ServerModel.RECVBUF_SIZE]; omega)] at h
    exact Option.some.inj h
  rw [relayLoop, if_neg (by omega)] at hsome
  cases hsome
  refine ⟨_, .sender j { hconn with } ?_, by simpa [Server.write] using hclosec, hmoves, rfl,
    [((t : ℤ), .raw bs), ((t : ℤ), .close), ((c : ℤ), .close)], by simp [Server.write],
    .inl (by simp [htr, hcr])⟩
  have hsize : sizeofMsg = 1168 := rfl
  show conn.taken + bs.length ≠ 0
  omega

/-- The handler of a block's connection. -/
theorem handled_sender (htable : Table req file P srv.findCfd srv.written stage)
    (hr : P r = some .session) (hon : findFd srv.online req.toname.str = r)
    (htyped : (header req file j).Typed) (hconn : Sends req file conn j) (hP : P c = some conn.peer)
    (hat : SenderAt req file P stage c j conn.taken pc₀)
    (hin : serverInput conn (((c : ℤ), Out.close) ∈ srv.written) pc₀ junk fails = some (inp, n))
    (h : threadReadPc sql srv c pc₀ inp = some (srv', pc)) :
    ∃ stage', Handled req file r P stage stage' srv srv' c conn (conn.taken + n) pc := by
  rw [hconn.peer] at hP
  have hshut := htable.shut c (by simp [hP])
  have hopen (hs : stage c = .opened) : decide (((c : ℤ), Out.close) ∈ srv.written) = false := by
    simp [hshut, hs]
  cases pc₀ <;> try exact hat.elim
  case recv =>
    rw [hopen hat.2] at hin
    exact ⟨stage, handled_header htable hr hon htyped hconn hat.1 hat.2 hin h⟩
  case search m i =>
    obtain ⟨rfl, htaken, hstage⟩ := hat
    obtain ⟨rfl, rfl⟩ := serverInput_go rfl hin
    exact handled_search htable hconn htaken hstage (by simpa [threadReadPc] using h)
  case relay m tofd remain =>
    obtain ⟨rfl, hpos, hle, htaken, hstage, hrelays⟩ := hat
    rw [hopen hstage] at hin
    exact handled_relay htable hr hconn hpos hle htaken hstage hrelays hin h
  case relayRest m tofd remain =>
    obtain ⟨rfl, hpos, hlt, hle, htaken, hstage, hrelays⟩ := hat
    rw [hopen hstage] at hin
    exact handled_relayRest htable hr hconn hpos hlt hle htaken hP hstage hrelays hin h
  case cancelled =>
    obtain ⟨rfl, rfl⟩ := serverInput_go rfl hin
    simp only [threadReadPc, if_true, Option.some.injEq, Prod.mk.injEq] at h
    obtain ⟨rfl, rfl⟩ := h
    exact ⟨stage, .quiet (.sender j { hconn with } hat) htable rfl rfl rfl⟩
  case exited => cases h

end Senders

section Receivers
variable {req : Msg} {file : Bytes} {P : ℕ → Option Peer} {stage : ℕ → Stage} {c j q r : ℕ}
  {conn : Conn} {srv srv' : Server DB} {pc₀ pc : Pc} {inp : Input} {n : ℕ} {junk : CharArray 20}
  {fails : Bool}

/-- The -5 of the receiver comes in. -/
theorem handled_answer (htable : Table req file P srv.findCfd srv.written stage)
    (htyped : (answer req file j).Typed) (hconn : Fetches req file conn q j)
    (htaken : conn.taken = 0) (hstage : stage c = .opened)
    (hin : serverInput conn false .recv junk fails = some (inp, n))
    (h : threadReadPc sql srv c .recv inp = some (srv', pc)) :
    Handled req file r P stage stage srv srv' c conn (conn.taken + n) pc := by
  obtain ⟨bs, hbs, rfl, rfl⟩ := serverInput_of_open rfl hin
  have hrecord : bs = (answer req file j).toBytes := by
    rw [htaken, List.drop_zero, recvOf] at hbs
    rcases hconn.sent with ⟨hsent, hended⟩ | hsent
    · simp [hsent, hended, sizeofMsg] at hbs
    · rw [hsent, Msg.length_toBytes, if_pos (.inl le_rfl)] at hbs
      rw [← Option.some.inj hbs, ← (answer req file j).length_toBytes, List.take_length]
  rw [hrecord, inputOf_toBytes htyped] at h
  simp only [threadReadPc, dispatch_eq_register answer_action, Option.some.injEq,
    Prod.mk.injEq] at h
  obtain ⟨rfl, rfl⟩ := h
  refine .quiet (.receiver q j { hconn with } ⟨rfl, ?_, hstage⟩) htable rfl rfl rfl
  rw [htaken, hrecord, Msg.length_toBytes, zero_add]

/-- The connection gets a slot, or the search for one goes on. -/
theorem handled_register (htable : Table req file P srv.findCfd srv.written stage)
    (hconn : Fetches req file conn q j) (hP : P c = some conn.peer)
    (htaken : conn.taken = sizeofMsg) (hstage : stage c = .opened) {i : ℕ}
    (h : registerSlot srv c (answer req file j) i = some (srv', pc)) :
    ∃ stage', Handled req file r P stage stage' srv srv' c conn conn.taken pc := by
  simp only [registerSlot, Option.map_eq_some_iff] at h
  obtain ⟨slot, hslot, h⟩ := h
  rw [hconn.peer] at hP
  split_ifs at h with huse
  · simp only [Prod.mk.injEq] at h
    obtain ⟨rfl, rfl⟩ := h
    exact ⟨_, .receiver q j { hconn with } (.inr htaken), htable.enter hP hstage rfl rfl,
      .update (fun _ => rfl) (by simp [hstage]), rfl, [], by simp, .inl (by simp)⟩
  · simp only [Prod.mk.injEq] at h
    obtain ⟨rfl, rfl⟩ := h
    exact ⟨stage, .quiet (.receiver q j { hconn with } ⟨rfl, htaken, hstage⟩) htable rfl rfl rfl⟩

/-- Behind its request the connection brings nothing: it ends, or its descriptor is gone. -/
theorem handled_over (htable : Table req file P srv.findCfd srv.written stage)
    (hr : P r = some .session) (hconn : Fetches req file conn q j) (hP : P c = some conn.peer)
    (htaken : conn.taken = sizeofMsg)
    (hin : serverInput conn (((c : ℤ), Out.close) ∈ srv.written) .recv junk fails = some (inp, n))
    (h : threadReadPc sql srv c .recv inp = some (srv', pc)) :
    Handled req file r P stage stage srv srv' c conn (conn.taken + n) pc := by
  rw [hconn.peer] at hP
  have hcr := fd_ne_session hr hP (by simp)
  have hempty : conn.sent.drop conn.taken = [] := by
    rw [htaken, List.drop_eq_nil_iff]
    rcases hconn.sent with ⟨hsent, -⟩ | hsent
    · simp [hsent]
    · rw [hsent, Msg.length_toBytes]
  simp only [serverInput, requestedBytes, hempty] at hin
  split_ifs at hin with hfails hclosed
  · -- the zeros of the cleared buffer are a registration
    cases hin
    have hstage : stage c = .closed := (htable.shut c (by simp [hP])).mp (by simpa using hclosed)
    have hzero : Msg.zero.action = 0 := rfl
    simp only [threadReadPc, failedInput, dispatch_eq_case0 hzero, case0, Option.some.injEq] at h
    split_ifs at h
    · cases h
      exact ⟨.receiver q j { hconn with } (.inr htaken),
        htable.record (by simp [hP]) (.inl hstage) _, .refl c stage, rfl, [(_, _)], rfl,
        .inl (by simpa using hcr)⟩
    · cases h
      exact .quiet (.receiver q j { hconn with } htaken) htable rfl rfl rfl
  · obtain ⟨bs, hbs, he⟩ := Option.map_eq_some_iff.mp hin
    have hnil : bs = [] := by
      simp only [recvOf] at hbs
      split_ifs at hbs
      simpa using hbs.symm
    subst hnil
    cases he
    simp only [threadReadPc, inputOf, if_true, Option.some.injEq, Prod.mk.injEq] at h
    obtain ⟨rfl, rfl⟩ := h
    exact .quiet (.receiver q j { hconn with } trivial) htable rfl rfl rfl

/-- The handler of a connection of the receiver. -/
theorem handled_receiver (htable : Table req file P srv.findCfd srv.written stage)
    (hr : P r = some .session) (htyped : (answer req file j).Typed)
    (hconn : Fetches req file conn q j) (hP : P c = some conn.peer)
    (hat : ReceiverAt req file stage c j conn.taken pc₀)
    (hin : serverInput conn (((c : ℤ), Out.close) ∈ srv.written) pc₀ junk fails = some (inp, n))
    (h : threadReadPc sql srv c pc₀ inp = some (srv', pc)) :
    ∃ stage', Handled req file r P stage stage' srv srv' c conn (conn.taken + n) pc := by
  cases pc₀ <;> try exact hat.elim
  case recv =>
    rcases hat with ⟨htaken, hstage⟩ | htaken
    · have hopen : decide (((c : ℤ), Out.close) ∈ srv.written) = false := by
        simp [htable.shut c (by simp [hP]), hstage]
      rw [hopen] at hin
      exact ⟨stage, handled_answer htable htyped hconn htaken hstage hin h⟩
    · exact ⟨stage, handled_over htable hr hconn hP htaken hin h⟩
  case register m i =>
    obtain ⟨rfl, htaken, hstage⟩ := hat
    obtain ⟨rfl, rfl⟩ := serverInput_go rfl hin
    exact handled_register htable hconn hP htaken hstage (by simpa [threadReadPc] using h)
  case insertPerson m =>
    obtain ⟨rfl, rfl⟩ := serverInput_go rfl hin
    simp only [threadReadPc, if_true, Option.some.injEq, Prod.mk.injEq] at h
    obtain ⟨rfl, rfl⟩ := h
    exact ⟨stage, .quiet (.receiver q j { hconn with } (.inr hat)) htable rfl rfl rfl⟩
  case exited => cases h

end Receivers

/-- A step of any handler. -/
theorem handled {req : Msg} {file : Bytes} {P : ℕ → Option Peer} {stage : ℕ → Stage} {c r : ℕ}
    {conn : Conn} {srv srv' : Server DB} {pc₀ pc : Pc} {inp : Input} {n : ℕ} {junk : CharArray 20}
    {fails : Bool} (htable : Table req file P srv.findCfd srv.written stage)
    (hr : P r = some .session) (hon : findFd srv.online req.toname.str = r)
    (htyped : ∀ j < blockCount file.length, (header req file j).Typed)
    (hconn : ConnOk req file P stage c conn pc₀) (hP : P c = some conn.peer)
    (hin : serverInput conn (((c : ℤ), Out.close) ∈ srv.written) pc₀ junk fails = some (inp, n))
    (h : threadReadPc sql srv c pc₀ inp = some (srv', pc)) :
    ∃ stage', Handled req file r P stage stage' srv srv' c conn (conn.taken + n) pc := by
  cases hconn with
  | session hpeer hsent hended hpc hstage =>
    subst hpc
    have hopen : decide (((c : ℤ), Out.close) ∈ srv.written) = false := by
      simp [htable.shut c (by simp [hP]), hstage]
    rw [hopen] at hin
    obtain ⟨bs, hbs, -⟩ := serverInput_of_open rfl hin
    simp [recvOf, hsent, hended, sizeofMsg] at hbs
  | sender j hsends hat =>
    exact handled_sender htable hr hon (htyped j hsends.lt) hsends hP hat hin h
  | receiver q j hfetches hat =>
    exact handled_receiver htable hr (typed_answer (htyped j hfetches.lt)) hfetches hP hat hin h

end LinuxCat.FileTransfer
