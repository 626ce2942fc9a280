import LinuxCat.BlockHandoff
import LinuxCat.StagedTransfers
import LinuxCat.StreamReads
import Mathlib.Data.List.Infix

/-! # The receiver's side of a transfer

A thread of the receiver stores what its connection carries at the place of its block, so the
mapping agrees with the file wherever something was read. -/
namespace LinuxCat.FileTransfer
open LabelledMachines ByteLayouts Messages FileBlocks ServerModel ReceiverModel WaitQueues
  MemoryStores

variable {DB : Type} {sql : Sqlite DB}

/-- The connection is closed, and all it carried was read. -/
def Drained (written : List (ℤ × Out)) (c : ℕ) (conn : Conn) : Prop :=
  ((c : ℤ), Out.close) ∈ written ∧ conn.read = (lineTo c written).length

/-- What thread `q` has done with its connection. -/
def Holds (conns : List Conn) (written : List (ℤ × Out)) (q : ℕ) : FilePc → Prop
  | .writing m c => ∃ conn : Conn, conns[c]? = some conn ∧ conn.peer = .receiver q m ∧
      conn.sent = [] ∧ conn.read = 0
  | .receiving m c fp => ∃ (conn : Conn) (m' : Msg), conns[c]? = some conn ∧
      conn.peer = .receiver q m' ∧ conn.sent ≠ [] ∧ m.sfileId = m'.sfileId ∧
      fp = m'.offset + conn.read
  | .closing c => ∃ (conn : Conn) (m : Msg), conns[c]? = some conn ∧ conn.peer = .receiver q m ∧
      conn.sent ≠ [] ∧ Drained written c conn
  | .ended => ∃ (c : ℕ) (conn : Conn) (m : Msg), conns[c]? = some conn ∧
      conn.peer = .receiver q m ∧ Drained written c conn
  | _ => True

structure Stored (req : Msg) (file : Bytes) (r : ℕ) (s : Transfer DB) : Prop where
  heard : ∃ conn, s.conns[r]? = some conn ∧ conn.read = sizeofMsg * s.client.heard
  threads : ∀ (q : ℕ) pc, s.client.threads[q]? = some pc →
    Holds s.conns s.server.srv.written q pc
  conns : ∀ (c : ℕ) conn q m, s.conns[c]? = some conn → conn.peer = .receiver q m →
    (told r s.server.srv.written)[q]? = some m ∧
      conn.read ≤ (lineTo c s.server.srv.written).length
  mapping : ∃ map, s.client.gconn[req.sfileId.toNat]? = some (some map) ∧
    map.length = file.length ∧ ∀ (c : ℕ) conn q j, s.conns[c]? = some conn →
      conn.peer = .receiver q (header req file j) → AgreesOn map file (500 * j) conn.read
  fault : s.client.fault = false

/-- Nothing the receiver did to the connection was changed. -/
structure Keeps (conn conn' : Conn) : Prop where
  peer : conn'.peer = conn.peer
  read : conn'.read = conn.read
  sent : (∃ q m, conn.peer = .receiver q m) → conn'.sent = conn.sent

/-- The rest of the system does a step. -/
structure Untouched (s t : Transfer DB) : Prop where
  client : t.client = s.client
  written : s.server.srv.written <+: t.server.srv.written
  conns : ∀ (c : ℕ) conn, s.conns[c]? = some conn → ∃ conn', t.conns[c]? = some conn' ∧
    Keeps conn conn'
  back : ∀ (c : ℕ) conn' q m, t.conns[c]? = some conn' → conn'.peer = .receiver q m →
    ∃ conn, s.conns[c]? = some conn ∧ Keeps conn conn'

section
variable {req : Msg} {file : Bytes} {r c q : ℕ} {s t : Transfer DB} {conn conn' : Conn}
  {conns conns' : List Conn} {written written' : List (ℤ × Out)} {pc : FilePc} {m : Msg}

theorem told_grows {fd : ℤ} (h : written <+: written') : told fd written <+: told fd written' := by
  obtain ⟨ws, rfl⟩ := h
  rw [told_append]
  exact List.prefix_append _ _

/-- What was drained stays drained. -/
theorem Drained.mono (h : Drained written c conn) (hle : written <+: written')
    (hread : conn'.read = conn.read) : Drained written' c conn' := by
  obtain ⟨ws, rfl⟩ := hle
  exact ⟨List.mem_append_left _ h.1, by rw [lineTo_append_of_closed h.1, hread, h.2]⟩

theorem Holds.mono (h : Holds conns written q pc) (hle : written <+: written')
    (hconns : ∀ (c : ℕ) conn m, conns[c]? = some conn → conn.peer = .receiver q m →
      ∃ conn', conns'[c]? = some conn' ∧ Keeps conn conn') : Holds conns' written' q pc := by
  cases pc with
  | created => trivial
  | copying => trivial
  | posting m => trivial
  | opening m => trivial
  | writing m c =>
    obtain ⟨conn, hc, hpeer, hsent, hread⟩ := h
    obtain ⟨conn', hc', hk⟩ := hconns c conn m hc hpeer
    exact ⟨conn', hc', hk.peer.trans hpeer, (hk.sent ⟨q, m, hpeer⟩).trans hsent,
      hk.read.trans hread⟩
  | receiving m c fp =>
    obtain ⟨conn, m', hc, hpeer, hsent, hid, hfp⟩ := h
    obtain ⟨conn', hc', hk⟩ := hconns c conn m' hc hpeer
    exact ⟨conn', m', hc', hk.peer.trans hpeer, by rwa [hk.sent ⟨q, m', hpeer⟩], hid,
      by rwa [hk.read]⟩
  | closing c =>
    obtain ⟨conn, m', hc, hpeer, hsent, hd⟩ := h
    obtain ⟨conn', hc', hk⟩ := hconns c conn m' hc hpeer
    exact ⟨conn', m', hc', hk.peer.trans hpeer, by rwa [hk.sent ⟨q, m', hpeer⟩],
      hd.mono hle hk.read⟩
  | ended =>
    obtain ⟨c, conn, m', hc, hpeer, hd⟩ := h
    obtain ⟨conn', hc', hk⟩ := hconns c conn m' hc hpeer
    exact ⟨c, conn', m', hc', hk.peer.trans hpeer, hd.mono hle hk.read⟩

/-- The frame rule for the receiver's side. -/
theorem Stored.untouched (h : Stored req file r s) (hu : Untouched s t) :
    Stored req file r t := by
  refine ⟨?_, fun q pc hq => ?_, fun c conn' q m hc hpeer => ?_, ?_, ?_⟩
  · obtain ⟨conn, hc, hread⟩ := h.heard
    obtain ⟨conn', hc', hk⟩ := hu.conns r conn hc
    exact ⟨conn', hc', by rw [hk.read, hread, hu.client]⟩
  · rw [hu.client] at hq
    exact (h.threads q pc hq).mono hu.written fun c conn m hc _ => hu.conns c conn hc
  · obtain ⟨conn, hc', hk⟩ := hu.back c conn' q m hc hpeer
    obtain ⟨htold, hread⟩ := h.conns c conn q m hc' (hk.peer.symm.trans hpeer)
    exact ⟨getElem?_of_begins (told_grows hu.written) htold,
      hk.read.trans_le (hread.trans (lineTo_grows hu.written).length_le)⟩
  · obtain ⟨map, hmap, hlen, hag⟩ := h.mapping
    refine ⟨map, by rw [hu.client, hmap], hlen, fun c conn' q j hc hpeer => ?_⟩
    obtain ⟨conn, hc', hk⟩ := hu.back c conn' q _ hc hpeer
    rw [hk.read]
    exact hag c conn q j hc' (hk.peer.symm.trans hpeer)
  · rw [hu.client, h.fault]

theorem Keeps.refl (conn : Conn) : Keeps conn conn := ⟨rfl, rfl, fun _ => rfl⟩

/-- Another thread's connection changes. -/
theorem Holds.set (h : Holds conns written q pc) (hc : conns[c]? = some conn)
    (hne : ∀ m, conn.peer ≠ .receiver q m) (conn' : Conn) :
    Holds (conns.set c conn') written q pc := by
  refine h.mono List.prefix_rfl fun c' conn'' m hc' hpeer => ⟨conn'', ?_, .refl conn''⟩
  rw [List.getElem?_set_ne, hc']
  rintro rfl
  rw [hc] at hc'
  cases hc'
  exact hne m hpeer

theorem untouched_setConn (hc : s.conns[c]? = some conn) (hk : Keeps conn conn')
    (server : ServerState DB) (hw : s.server.srv.written <+: server.srv.written) :
    Untouched s ⟨server, s.conns.set c conn', s.client⟩ := by
  refine ⟨rfl, hw, fun c' conn'' hc' => ?_, fun c' conn'' q m hc' hpeer => ?_⟩
  · by_cases hcc : c = c'
    · subst hcc
      rw [hc] at hc'
      cases hc'
      exact ⟨conn', List.getElem?_set_self (List.getElem?_eq_some_iff.mp hc).1, hk⟩
    · exact ⟨conn'', by simpa only [List.getElem?_set_ne hcc] using hc', .refl _⟩
  · obtain ⟨rfl, rfl⟩ | ⟨-, hc'⟩ := getElem?_set_cases hc'
    · exact ⟨conn, hc, hk⟩
    · exact ⟨conn'', hc', .refl _⟩

theorem untouched_connect (j : ℕ) (rest : List Bytes) (server : ServerState DB)
    (hw : s.server.srv.written <+: server.srv.written) :
    Untouched s ⟨server, s.conns ++ [.new (.sender j) rest], s.client⟩ := by
  refine ⟨rfl, hw, fun c conn hc => ⟨conn, ?_, .refl conn⟩, fun c conn q m hc hpeer => ?_⟩
  · rw [List.getElem?_append_left (List.getElem?_eq_some_iff.mp hc).1, hc]
  · obtain ⟨-, rfl⟩ | hc := getElem?_concat_cases hc
    · cases hpeer
    · exact ⟨conn, hc, .refl conn⟩

/-! ## What the reader reads -/

/-- A session that is only sent records carries their bytes. -/
theorem lineTo_of_records {fd : ℤ} {ws : List (ℤ × Out)}
    (h : ∀ o, (fd, o) ∈ ws → ∃ m, o = .record m) :
    lineTo fd ws = (told fd ws).flatMap Msg.toBytes := by
  induction ws with
  | nil => rfl
  | cons w ws ih =>
    obtain ⟨fd', o⟩ := w
    have ih := ih fun o ho => h o (List.mem_cons_of_mem _ ho)
    simp only [lineTo]
    split_ifs with hfd
    · subst hfd
      obtain ⟨m, rfl⟩ := h o (by simp)
      simp [told, ih]
    · rw [ih]
      cases o <;> simp [told, hfd]

theorem Announced.line (h : Announced req file r s) :
    lineTo r s.server.srv.written = (told r s.server.srv.written).flatMap Msg.toBytes :=
  lineTo_of_records fun o ho => by
    obtain ⟨j, -, rfl⟩ := h.records o ho
    exact ⟨_, rfl⟩

/-- The next `recv` of the reader returns the next record it was told. -/
theorem Announced.recv {n : ℕ} {bs : Bytes} (h : Announced req file r s)
    (hbs : recvOf ((lineTo r s.server.srv.written).drop (sizeofMsg * n))
      (((r : ℤ), Out.close) ∈ s.server.srv.written) sizeofMsg = some bs) :
    ∃ m, (told r s.server.srv.written)[n]? = some m ∧ bs = m.toBytes := by
  have hopen : ((r : ℤ), Out.close) ∉ s.server.srv.written := by
    intro hc
    obtain ⟨j, -, he⟩ := h.records _ hc
    cases he
  rw [h.line] at hbs
  simp only [recvOf, hopen, decide_false, Bool.false_eq_true, or_false] at hbs
  split_ifs at hbs with hlen
  rw [List.length_drop, StreamReads.length_flatMap_frames Msg.length_toBytes] at hlen
  have hlt : n < (told r s.server.srv.written).length := by
    have hsize : 0 < sizeofMsg := by decide
    by_contra hge
    have := Nat.mul_le_mul_left sizeofMsg (Nat.le_of_not_lt hge)
    omega
  refine ⟨_, List.getElem?_eq_getElem hlt, ?_⟩
  rw [← Option.some.inj hbs]
  exact StreamReads.frame_of_flatMap Msg.length_toBytes (List.getElem?_eq_getElem hlt)

theorem header_of_told {n : ℕ} (h : Announced req file r s)
    (hm : (told r s.server.srv.written)[n]? = some m) :
    ∃ j < blockCount file.length, m = header req file j := by
  obtain ⟨j, hj, he⟩ := h.records _ (mem_told.mp (List.mem_of_getElem? hm))
  exact ⟨j, hj, Out.record.inj he⟩

end

/-- The invariant of a transfer: both sides, and what is between the reader and its threads. -/
structure Transferring (req : Msg) (file : Bytes) (r : ℕ) (s : Transfer DB) : Prop where
  staged : ∃ stage, Staged req file r s stage
  announced : Announced req file r s
  handoff : Handoff (told r s.server.srv.written) s.client
  stored : Stored req file r s

section
variable {req : Msg} {file : Bytes} {r c q : ℕ} {s t : Transfer DB} {conn : Conn} {m : Msg}

/-- What `read` counts is no business of the server. -/
theorem ConnOk.read {P : ℕ → Option Peer} {stage : ℕ → Stage} {pc : Pc} {n : ℕ}
    (h : ConnOk req file P stage c conn pc) :
    ConnOk req file P stage c { conn with read := n } pc := by
  cases h with
  | session hpeer hsent hended hpc hstage => exact .session hpeer hsent hended hpc hstage
  | sender j h hat => exact .sender j { h with } hat
  | receiver q j h hat => exact .receiver q j { h with } hat

/-- A step of the reader. -/
theorem transferring_threadRead {old : Bytes}
    (htyped : ∀ j < blockCount file.length, (header req file j).Typed)
    (h : Transferring req file r s) (hstep : threadRead r s old = some t) :
    Transferring req file r t := by
  obtain ⟨⟨stage, hstaged⟩, hann, hhand, hstored⟩ := h
  simp only [threadRead] at hstep
  split_ifs at hstep with hpc
  · obtain ⟨⟨conn', bs⟩, hrecv, hstep⟩ := Option.bind_eq_some_iff.mp hstep
    obtain ⟨client, hclient, rfl⟩ := Option.map_eq_some_iff.mp hstep
    obtain ⟨conn, hc, hrecv⟩ := Option.bind_eq_some_iff.mp hrecv
    obtain ⟨bs, hbs, he⟩ := Option.map_eq_some_iff.mp hrecv
    cases he
    obtain ⟨conn', hc', hread⟩ := hstored.heard
    rw [hc] at hc'
    cases hc'
    have hheard : s.client.heard = s.client.threads.length := by simp [Receiver.heard, hpc]
    rw [hread, hheard] at hbs
    obtain ⟨m, hm, rfl⟩ := hann.recv hbs
    obtain ⟨j, hj, rfl⟩ := header_of_told hann hm
    have hread' : client = { s.client with reader := .waiting (header req file j) } := by
      simp only [Receiver.threadRead, hpc, if_neg (toBytes_ne_nil _),
        pad_of_length (header req file j).length_toBytes, Msg.ofBytes_toBytes (htyped j hj),
        Receiver.switch, header_action] at hclient
      simpa using hclient.symm
    subst hread'
    have hsession : conn.peer = .session := by
      have := hstaged.receiver
      rw [peer_of_getElem? hc] at this
      exact Option.some.inj this
    refine ⟨⟨stage, hstaged.setConn hc rfl fun pc hok => hok.read⟩, hann.setConn hc rfl id,
      hhand.hear hpc hm, ⟨_, List.getElem?_set_self (List.getElem?_eq_some_iff.mp hc).1, ?_⟩,
      fun q pc hq => ?_, fun c conn' q m hc' hpeer => ?_, ?_, hstored.fault⟩
    · show conn.read + (header req file j).toBytes.length = _
      rw [hread, hheard, Msg.length_toBytes]
      simp [Receiver.heard, Nat.mul_succ]
    · exact (hstored.threads q pc hq).set hc (by simp [hsession]) _
    · obtain ⟨rfl, rfl⟩ | ⟨-, hc'⟩ := getElem?_set_cases hc'
      · simp [hsession] at hpeer
      · exact hstored.conns c conn' q m hc' hpeer
    · obtain ⟨map, hmap, hlen, hag⟩ := hstored.mapping
      refine ⟨map, hmap, hlen, fun c conn' q j hc' hpeer => ?_⟩
      obtain ⟨rfl, rfl⟩ | ⟨-, hc'⟩ := getElem?_set_cases hc'
      · simp [hsession] at hpeer
      · exact hag c conn' q j hc' hpeer
  · obtain ⟨client, hclient, rfl⟩ := Option.map_eq_some_iff.mp hstep
    obtain ⟨hheard, hgconn, hfault, hthreads⟩ := threadRead_keeps hpc hclient
    refine ⟨⟨stage, ?_⟩, ?_, hhand.threadRead hpc hclient, ?_⟩
    · exact { hstaged with }
    · exact { hann with }
    · obtain ⟨conn, hc, hread⟩ := hstored.heard
      refine ⟨⟨conn, hc, by rw [hread, ← hheard]⟩, fun q pc hq => ?_, hstored.conns, ?_, ?_⟩
      · rcases hthreads q pc hq with hq | rfl
        · exact hstored.threads q pc hq
        · trivial
      · obtain ⟨map, hmap, hlen, hag⟩ := hstored.mapping
        exact ⟨map, by rw [← hmap]; exact congrArg (·[req.sfileId.toNat]?) hgconn, hlen, hag⟩
      · exact hfault.trans hstored.fault

/-- A thread goes on without a word to the network. -/
theorem Stored.setThread (h : Stored req file r s) {client : Receiver} {pc : FilePc}
    (hthreads : client.threads = s.client.threads.set q pc)
    (hreader : client.reader = s.client.reader) (hgconn : client.gconn = s.client.gconn)
    (hfault : client.fault = s.client.fault) (hpc : Holds s.conns s.server.srv.written q pc) :
    Stored req file r { s with client := client } := by
  have hheard : client.heard = s.client.heard := by
    simp [Receiver.heard, hthreads, hreader]
  refine ⟨?_, ?_, h.conns, ?_, hfault.trans h.fault⟩
  · obtain ⟨conn, hc, hread⟩ := h.heard
    exact ⟨conn, hc, by rw [hread, ← hheard]⟩
  · simp only [hthreads]
    exact forall_place_set h.threads hpc
  · obtain ⟨map, hmap, hlen, hag⟩ := h.mapping
    exact ⟨map, by simpa only [hgconn] using hmap, hlen, hag⟩

/-- A thread does something on its connection. -/
theorem Stored.setConn (h : Stored req file r s) (hr : s.peer r = some .session)
    {j : ℕ} (hc : s.conns[c]? = some conn) (hpeer : conn.peer = .receiver q (header req file j))
    {conn' : Conn} (hpeer' : conn'.peer = conn.peer) {client : Receiver} (pc : FilePc)
    (hthreads : client.threads = s.client.threads.set q pc)
    (hreader : client.reader = s.client.reader) (hfault : client.fault = false)
    (hpc : Holds (s.conns.set c conn') s.server.srv.written q pc)
    (hread : conn'.read ≤ (lineTo c s.server.srv.written).length)
    (hmap : ∀ map, s.client.gconn[req.sfileId.toNat]? = some (some map) →
      map.length = file.length → AgreesOn map file (500 * j) conn.read →
      ∃ map', client.gconn[req.sfileId.toNat]? = some (some map') ∧ map'.length = file.length ∧
        (∀ p k, AgreesOn map file p k → AgreesOn map' file p k) ∧
        AgreesOn map' file (500 * j) conn'.read) :
    Stored req file r ⟨s.server, s.conns.set c conn', client⟩ := by
  have hcr : c ≠ r := by
    rintro rfl
    rw [peer_of_getElem? hc, hpeer] at hr
    cases hr
  have hheard : client.heard = s.client.heard := by
    simp [Receiver.heard, hthreads, hreader]
  refine ⟨?_, fun q' pc' hq' => ?_, fun c' conn'' q' m hc' hp => ?_, ?_, hfault⟩
  · obtain ⟨conn, hc, hread⟩ := h.heard
    exact ⟨conn, by rwa [List.getElem?_set_ne hcr], by rw [hread, ← hheard]⟩
  · simp only [hthreads] at hq'
    obtain ⟨rfl, rfl⟩ | ⟨hne, hq'⟩ := getElem?_set_cases hq'
    · exact hpc
    · refine (h.threads q' pc' hq').set hc (fun m hp => hne ?_) conn'
      rw [hpeer] at hp
      exact (Peer.receiver.inj hp).1
  · obtain ⟨rfl, rfl⟩ | ⟨-, hc'⟩ := getElem?_set_cases hc'
    · exact ⟨(h.conns _ conn q' m hc (hpeer'.symm.trans hp)).1, hread⟩
    · exact h.conns c' conn'' q' m hc' hp
  · obtain ⟨map, hgconn, hlen, hag⟩ := h.mapping
    obtain ⟨map', hgconn', hlen', hkeep, hown⟩ := hmap map hgconn hlen (hag c conn q j hc hpeer)
    refine ⟨map', hgconn', hlen', fun c' conn'' q' j' hc' hp => ?_⟩
    obtain ⟨rfl, rfl⟩ | ⟨-, hc'⟩ := getElem?_set_cases hc'
    · have := (hpeer'.symm.trans hp).symm.trans hpeer
      simp only [Peer.receiver.injEq] at this
      obtain rfl := header_injective this.2
      exact hown
    · exact hkeep _ _ (hag c' conn'' q' j' hc' hp)

theorem Stored.connect (h : Stored req file r s) (hq : (told r s.server.srv.written)[q]? = some m)
    {server : ServerState DB} (hserver : server.srv = s.server.srv) :
    Stored req file r ⟨server, s.conns ++ [.new (.receiver q m) []],
      s.client.setThread q (.writing m s.conns.length)⟩ := by
  have hold {c : ℕ} {conn : Conn} (hc : s.conns[c]? = some conn) :
      (s.conns ++ [Conn.new (.receiver q m) []])[c]? = some conn := by
    rw [List.getElem?_append_left (List.getElem?_eq_some_iff.mp hc).1, hc]
  refine ⟨?_, fun q' pc' hq' => ?_, fun c conn q' m' hc hp => ?_, ?_, h.fault⟩
  · obtain ⟨conn, hc, hread⟩ := h.heard
    exact ⟨conn, hold hc, by rw [hread, heard_setThread]⟩
  · rw [hserver]
    obtain ⟨rfl, rfl⟩ | ⟨-, hq'⟩ := getElem?_set_cases hq'
    · exact ⟨.new (.receiver q' m) [], by simp, rfl, rfl, rfl⟩
    · exact (h.threads q' pc' hq').mono List.prefix_rfl
        fun c conn m' hc _ => ⟨conn, hold hc, .refl conn⟩
  · rw [hserver]
    obtain ⟨-, rfl⟩ | hc := getElem?_concat_cases hc
    · cases hp
      exact ⟨hq, Nat.zero_le _⟩
    · exact h.conns c conn q' m' hc hp
  · obtain ⟨map, hmap, hlen, hag⟩ := h.mapping
    refine ⟨map, hmap, hlen, fun c conn q' j hc hp => ?_⟩
    obtain ⟨-, rfl⟩ | hc := getElem?_concat_cases hc
    · exact agreesOn_zero map file _
    · exact hag c conn q' j hc hp

/-- `Create_sock` in `recv_file`. -/
theorem transferring_open (h : Transferring req file r s)
    (hq : s.client.threads[q]? = some (.opening m))
    (hstep : (s.setThread q (.writing m s.conns.length)).connect sql (.receiver q m) [] = some t) :
    Transferring req file r t := by
  obtain ⟨⟨stage, hstaged⟩, hann, hhand, hstored⟩ := h
  have htold := hhand.threads q _ hq
  obtain ⟨j, hj, rfl⟩ := header_of_told hann htold
  obtain rfl := connect_eq hstep
  exact ⟨⟨_, hstaged.connect (.receiver q j ⟨rfl, hj, .inl ⟨rfl, rfl⟩⟩
    (.inl ⟨rfl, Function.update_self _ _ _⟩))⟩, hann.connect (by simp),
    hhand.later hq ⟨rfl, by simp⟩ ⟨rfl, by simp⟩ trivial, hstored.connect htold rfl⟩

/-- The `write` in `recv_file`. -/
theorem transferring_write (h : Transferring req file r s)
    (hq : s.client.threads[q]? = some (.writing m c)) (hc : s.conns[c]? = some conn)
    (ht : t = (s.setConn c { conn with
      sent := conn.sent ++ { m with action := -5 }.toBytes }).setThread q
        (.receiving { m with action := -5 } c m.offset)) :
    Transferring req file r t := by
  obtain ⟨⟨stage, hstaged⟩, hann, hhand, hstored⟩ := h
  obtain ⟨conn', hc', hpeer, hsent, hread⟩ := hstored.threads q _ hq
  rw [hc] at hc'
  cases hc'
  obtain ⟨htold, hline⟩ := hstored.conns c conn q m hc hpeer
  obtain ⟨j, hj, rfl⟩ := header_of_told hann htold
  have hok (pc : Pc) (hok : ConnOk req file s.peer stage c conn pc) :
      ConnOk req file s.peer stage c
        { conn with sent := conn.sent ++ (answer req file j).toBytes } pc := by
    cases hok with
    | session hp => simp [hpeer] at hp
    | sender j' hs => simp [hs.peer] at hpeer
    | receiver q' j' hf hat =>
      have := hf.peer.symm.trans hpeer
      simp only [Peer.receiver.injEq] at this
      obtain rfl := header_injective this.2
      exact .receiver q' j' ⟨hf.peer, hf.lt, .inr (by rw [hsent, List.nil_append])⟩ hat
  subst ht
  refine ⟨⟨stage, hstaged.setConn hc rfl hok⟩, hann.setConn hc rfl id,
    hhand.later hq ⟨rfl, by simp⟩ ⟨rfl, by simp⟩ trivial, ?_⟩
  refine hstored.setConn hstaged.receiver hc hpeer (by rfl)
    (.receiving (answer req file j) c (500 * j)) (by rfl) rfl hstored.fault
    ⟨_, header req file j, List.getElem?_set_self (List.getElem?_eq_some_iff.mp hc).1, hpeer, ?_,
      rfl, by simp [hread]⟩ hline fun map hmap hlen hag => ⟨map, hmap, hlen, fun _ _ h => h, hag⟩
  simp only [hsent, List.nil_append]
  exact toBytes_ne_nil _

/-- The `close` in `recv_file`. -/
theorem transferring_close (h : Transferring req file r s)
    (hq : s.client.threads[q]? = some (.closing c)) (hc : s.conns[c]? = some conn)
    (ht : t = (s.setConn c { conn with ended := true }).setThread q .ended) :
    Transferring req file r t := by
  obtain ⟨⟨stage, hstaged⟩, hann, hhand, hstored⟩ := h
  obtain ⟨conn', m, hc', hpeer, hsent, hdrained⟩ := hstored.threads q _ hq
  rw [hc] at hc'
  cases hc'
  obtain ⟨htold, hline⟩ := hstored.conns c conn q m hc hpeer
  obtain ⟨j, hj, rfl⟩ := header_of_told hann htold
  have hok (pc : Pc) (hok : ConnOk req file s.peer stage c conn pc) :
      ConnOk req file s.peer stage c { conn with ended := true } pc := by
    cases hok with
    | session hp => simp [hpeer] at hp
    | sender j' hs => simp [hs.peer] at hpeer
    | receiver q' j' hf hat =>
      exact .receiver q' j' ⟨hf.peer, hf.lt, hf.sent.elim (fun he => absurd he.1 hsent) .inr⟩ hat
  subst ht
  refine ⟨⟨stage, hstaged.setConn hc rfl hok⟩, hann.setConn hc rfl id,
    hhand.later hq ⟨rfl, by simp⟩ ⟨rfl, by simp⟩ trivial, ?_⟩
  exact hstored.setConn hstaged.receiver hc hpeer (by rfl) .ended (by rfl) rfl hstored.fault
    ⟨c, _, header req file j, List.getElem?_set_self (List.getElem?_eq_some_iff.mp hc).1, hpeer,
      hdrained⟩ hline fun map hmap hlen hag => ⟨map, hmap, hlen, fun _ _ h => h, hag⟩

/-! ## A `recv` into the mapping -/

theorem delivered_begins_block (j : ℕ) (st : Stage) : st.delivered file j <+: block file j := by
  cases st with
  | opened => exact List.nil_prefix
  | entered i => exact List.nil_prefix
  | relayed c remain => exact List.take_prefix _ _
  | closed => exact List.prefix_rfl

theorem Staged.line_begins_block {stage : ℕ → Stage} {j : ℕ} (h : Staged req file r s stage)
    (hc : s.conns[c]? = some conn) (hpeer : conn.peer = .receiver q (header req file j)) :
    lineTo c s.server.srv.written <+: block file j := by
  rw [h.table.line c q j (by rw [peer_of_getElem? hc, hpeer])]
  exact delivered_begins_block j _

/-- On a connection that is closed the whole block was sent. -/
theorem Staged.line_closed {stage : ℕ → Stage} {j : ℕ} (h : Staged req file r s stage)
    (hc : s.conns[c]? = some conn) (hpeer : conn.peer = .receiver q (header req file j))
    (hclosed : ((c : ℤ), Out.close) ∈ s.server.srv.written) :
    lineTo c s.server.srv.written = block file j := by
  have hP := peer_of_getElem? hc
  rw [hpeer] at hP
  rw [h.table.line c q j hP, (h.table.shut c (by simp [hP])).mp hclosed]
  rfl

/-- What a `recv` finds on the connection of a block is the file from the block's place on. -/
theorem Staged.recv_file {stage : ℕ → Stage} {j k : ℕ} {bs : Bytes} {ended : Bool}
    (h : Staged req file r s stage) (hc : s.conns[c]? = some conn)
    (hpeer : conn.peer = .receiver q (header req file j)) (hj : j < blockCount file.length)
    (hread : conn.read ≤ (lineTo c s.server.srv.written).length)
    (hbs : recvOf ((lineTo c s.server.srv.written).drop conn.read) ended k = some bs) :
    conn.read + bs.length ≤ (lineTo c s.server.srv.written).length ∧
      500 * j + conn.read + bs.length ≤ file.length ∧
      bs = (file.drop (500 * j + conn.read)).take bs.length := by
  have hnext : bs <+: (lineTo c s.server.srv.written).drop conn.read := by
    simp only [recvOf] at hbs
    split_ifs at hbs
    exact Option.some.inj hbs ▸ List.take_prefix _ _
  have hlen := hnext.length_le
  rw [List.length_drop] at hlen
  have hline := h.line_begins_block hc hpeer
  have hblock := hline.length_le
  rw [length_block hj] at hblock
  have hin : blockLength file.length j ≤ file.length - 500 * j := by simp [blockLength]
  have hfile : bs <+: file.drop (500 * j + conn.read) := by
    rw [← List.drop_drop]
    have hplace : lineTo c s.server.srv.written <+: file.drop (500 * j) :=
      hline.trans (List.take_prefix _ _)
    exact hnext.trans (hplace.drop conn.read)
  simp only [blockCount] at hj
  exact ⟨by omega, by omega, List.prefix_iff_eq_take.mp hfile⟩

/-- Bytes of the file stored at their place. -/
theorem storeAt_file {rc : Receiver} {map bs : Bytes} {p : ℕ}
    (hid : 0 ≤ req.sfileId) (hmap : rc.gconn[req.sfileId.toNat]? = some (some map))
    (hfit : p + bs.length ≤ map.length) (hbs : bs = (file.drop p).take bs.length) :
    ∃ map', rc.storeAt req.sfileId p bs =
        { rc with gconn := rc.gconn.set req.sfileId.toNat (some map') } ∧
      map'.length = map.length ∧ (∀ p k, AgreesOn map file p k → AgreesOn map' file p k) ∧
      AgreesOn map' file p bs.length := by
  by_cases hnil : bs = []
  · subst hnil
    refine ⟨map, ?_, rfl, fun _ _ h => h, agreesOn_zero map file p⟩
    have hset : rc.gconn.set req.sfileId.toNat (some map) = rc.gconn := by
      obtain ⟨hlt, hget⟩ := List.getElem?_eq_some_iff.mp hmap
      rw [← hget, List.set_getElem_self]
    rw [Receiver.storeAt, if_pos rfl, hset]
  · refine ⟨store map p bs, ?_, length_store hfit, fun _ _ h => h.store hfit hbs,
      agreesOn_store hfit hbs⟩
    rw [Receiver.storeAt, if_neg hnil, hmap]
    simp only
    rw [if_pos ⟨hid, by omega, by omega⟩, Int.toNat_natCast]

/-- A short `recv` was the last. -/
theorem drained_of_short {written : List (ℤ × Out)} {k : ℕ} {bs : Bytes}
    (hread : conn.read ≤ (lineTo c written).length)
    (hbs : recvOf ((lineTo c written).drop conn.read) (((c : ℤ), Out.close) ∈ written) k = some bs)
    (hshort : bs.length ≠ k) : Drained written c { conn with read := conn.read + bs.length } := by
  simp only [recvOf, decide_eq_true_eq] at hbs
  split_ifs at hbs with hk
  obtain rfl := Option.some.inj hbs
  rw [List.length_take, List.length_drop] at hshort
  rw [List.length_drop] at hk
  refine ⟨hk.resolve_left (by omega), ?_⟩
  simp only [List.length_take, List.length_drop]
  omega

/-- A `recv` in `recv_file`. -/
theorem transferring_receive {fp : ℤ} {bs : Bytes} (hid : 0 ≤ req.sfileId)
    (h : Transferring req file r s)
    (hq : s.client.threads[q]? = some (.receiving m c fp)) (hc : s.conns[c]? = some conn)
    (hbs : recvOf ((lineTo c s.server.srv.written).drop conn.read)
      (((c : ℤ), Out.close) ∈ s.server.srv.written) ReceiverModel.RECVBUF_SIZE = some bs)
    (ht : t = { s.setConn c { conn with read := conn.read + bs.length } with
      client := (s.client.storeAt m.sfileId fp bs).setThread q
        (if bs.length = ReceiverModel.RECVBUF_SIZE then
          .receiving m c (fp + ReceiverModel.RECVBUF_SIZE)
        else .closing c) }) :
    Transferring req file r t := by
  obtain ⟨⟨stage, hstaged⟩, hann, hhand, hstored⟩ := h
  obtain ⟨conn', m', hc', hpeer, hsent, hsame, rfl⟩ := hstored.threads q _ hq
  rw [hc] at hc'
  cases hc'
  obtain ⟨htold, hline⟩ := hstored.conns c conn q m' hc hpeer
  obtain ⟨j, hj, rfl⟩ := header_of_told hann htold
  obtain ⟨hread, hfit, hfile⟩ := hstaged.recv_file hc hpeer hj hline hbs
  obtain ⟨map, hmap, hlen, hag⟩ := hstored.mapping
  obtain ⟨map', hstore, hlen', hkeep, hown⟩ := storeAt_file (p := 500 * j + conn.read) hid hmap
    (by omega) hfile
  have hat : (header req file j).offset + (conn.read : ℤ) = ((500 * j + conn.read : ℕ) : ℤ) := by
    simp
  rw [hsame, header_sfileId, hat, hstore] at ht
  subst ht
  refine ⟨⟨stage, hstaged.setConn hc rfl fun pc hok => hok.read⟩, hann.setConn hc rfl id, ?_, ?_⟩
  · have hhand' : Handoff (told r s.server.srv.written)
        { s.client with gconn := s.client.gconn.set req.sfileId.toNat (some map') } :=
      ⟨hhand.permit, hhand.posted, hhand.reader, hhand.threads⟩
    refine hhand'.later hq ⟨rfl, by simp⟩ ?_ ?_ <;> split_ifs <;> simp [FilePc.holds, FilePc.Gets]
  · refine hstored.setConn hstaged.receiver hc hpeer (by rfl) _ (by rfl) rfl hstored.fault ?_ hread
      fun map₂ hmap₂ hlen₂ hag₂ => ?_
    · have hset := List.getElem?_set_self
        (a := { conn with read := conn.read + bs.length }) (List.getElem?_eq_some_iff.mp hc).1
      split_ifs with hfull
      · refine ⟨_, header req file j, hset, hpeer, hsent, hsame, ?_⟩
        simp only [header_offset, hfull]
        push_cast
        ring
      · exact ⟨_, header req file j, hset, hpeer, hsent, drained_of_short hline hbs hfull⟩
    · obtain rfl : map = map₂ := by simpa [hmap] using hmap₂
      refine ⟨map', ?_, hlen'.trans hlen, hkeep, (hkeep _ _ hag₂).append hown⟩
      exact List.getElem?_set_self (List.getElem?_eq_some_iff.mp hmap).1

end
end LinuxCat.FileTransfer
