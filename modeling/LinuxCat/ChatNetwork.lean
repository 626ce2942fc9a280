import LinuxCat.ChatRuns
import LinuxCat.ClientRecords
import LinuxCat.TransferIds
import LinuxCat.TypedReplies

/-! # The clients and the server on byte streams

The same system one level down. What a client and a thread for a block write are bytes; a `recv` of
the server takes as many of them as it likes, wherever it happens to be. A run in which every `recv`
of a request returns one whole record, and none of them a piece of a file, is a run on records. -/
namespace LinuxCat.ChatSystem
open LabelledMachines LabelledMachines.Machine ByteLayouts Messages ServerModel StreamReads
open ClientModel (Client AllTyped mainStep)

variable {DB : Type} {sql : Sqlite DB}

/-- What a thread for a block writes first. -/
def Head : Type := { r : Record // r.1.action = 5 ∨ r.1.action = -5 }

/-- The other end of a connection: a client, or a thread for a block with the part of a file that it
sends. The server has read the first `taken` bytes, and `thread_read` the first `received` records.
-/
inductive End
  | client (c : Client) (taken received : ℕ)
  | block (head : Head) (data : Bytes) (taken : ℕ)

namespace End

def stream : End → Bytes
  | .client c _ _ => c.written.flatMap Msg.toBytes
  | .block head data _ => head.1.frame ++ data

def taken : End → ℕ
  | .client _ taken _ => taken
  | .block _ _ taken => taken

def take (n : ℕ) : End → End
  | .client c taken received => .client c (taken + n) received
  | .block head data taken => .block head data (taken + n)

def ended : End → Bool
  | .client c _ _ => !c.running
  | .block .. => true

/-- What the connection gives to its handler. Its stream ends with the process behind it. -/
def feed (e : End) : StreamAction → Option Fed
  | .recvEnds c => if e.ended then ServerModel.feed e.stream e.taken (.recvEnds c) else none
  | a => ServerModel.feed e.stream e.taken a

def peer : End → Peer
  | .client c taken received => .user ⟨c, taken / sizeofMsg, received⟩
  | .block .. => .block

end End

structure Network (DB : Type) where
  server : ServerState DB
  ends : List End

inductive Event
  | connect (stdin : Bytes) (num : ℤ) (pmsg : Msg)
  | connectBlock (head : Head) (data : Bytes)
  | main (c : ℕ) (file : Option Bytes)
  | read (c : ℕ) (r : ClientModel.Round)
  | serverExit (c : ℕ)
  | serve (a : StreamAction)
  | kill (c : ℕ)

def bytesOf : Out → Bytes
  | .record m => m.toBytes
  | .raw bs => bs
  | .close => []

/-- The bytes that are written to a descriptor. -/
def bytesTo (written : List (ℤ × Out)) (fd : ℤ) : Bytes :=
  written.flatMap (fun w => if w.1 = fd then bytesOf w.2 else [])

namespace Network

def start (db : DB) : Network DB := ⟨.start (.start db), []⟩

def accept (sql : Sqlite DB) (s : Network DB) (e : End) : Option (Network DB) :=
  (serverStep sql s.server .accept).map (fun t => ⟨t, s.ends ++ [e]⟩)

def onClient (s : Network DB) (c : ℕ) (f : Client → ℕ → ℕ → Option End) : Option (Network DB) :=
  match s.ends[c]? with
  | some (.client d taken received) =>
    (f d taken received).map (fun e => { s with ends := s.ends.set c e })
  | _ => none

def inbox (s : Network DB) (c : ℕ) : Bytes := bytesTo s.server.srv.written c

/-- The server has gone, or has closed the connection. -/
def hungUp (s : Network DB) (c : ℕ) : Bool :=
  s.server.faulted || s.server.srv.written.contains ((c : ℤ), Out.close)

/-- The system on records. -/
def system (s : Network DB) : System DB := ⟨s.server, s.ends.map End.peer⟩

end Network

def networkStep (sql : Sqlite DB) (s : Network DB) : Event → Option (Network DB)
  | .connect stdin num pmsg => s.accept sql (.client (.start stdin num pmsg) 0 0)
  | .connectBlock head data => s.accept sql (.block head data 0)
  | .main c file =>
    s.onClient c (fun d taken received => (mainStep d file).map (.client · taken received))
  | .read c r =>
    s.onClient c (fun d taken received =>
      let pos := sizeofMsg * received
      if d.running ∧ d.reading ∧ pos + sizeofMsg ≤ (s.inbox c).length then
        let m := Msg.ofBytes (((s.inbox c).drop pos).take sizeofMsg)
        some (.client (ClientModel.threadRead d r m) taken (received + 1))
      else none)
  | .serverExit c =>
    s.onClient c (fun d taken received =>
      if s.hungUp c ∧ d.running ∧ d.reading then
        some (.client (ClientModel.serverExit d) taken received)
      else none)
  | .serve a =>
    (s.ends[a.conn]?).bind (fun e => (e.feed a).bind (fun f =>
      (serverStep sql s.server (.serve a.conn f.inp)).map (fun t =>
        ⟨t, s.ends.set a.conn (e.take f.taken)⟩)))
  | .kill c =>
    s.onClient c (fun d taken received =>
      if d.running then some (.client (d.goto .exited) taken received) else none)

def networkMachine (sql : Sqlite DB) : Machine (Network DB) Event where
  step := networkStep sql

/-- The same step on records. -/
def Network.label (s : Network DB) : Event → Label
  | .connect stdin num pmsg => .connect stdin num pmsg
  | .connectBlock _ _ => .connectBlock
  | .main c file => .main c file
  | .read c r => .read c r
  | .serverExit c => .serverExit c
  | .serve a => .serve a.conn (((s.ends[a.conn]?).bind (·.feed a)).elim .go Fed.inp)
  | .kill c => .kill c

/-! ## Framed runs -/

/-- The strings of a record end within their fields. -/
def Msg.Terminated (m : Msg) : Prop :=
  0 ∈ m.name.bytes ∧ 0 ∈ m.password.bytes ∧ 0 ∈ m.toname.bytes ∧ 0 ∈ m.filename.bytes ∧
    0 ∈ m.message.bytes

instance (m : Msg) : Decidable (Msg.Terminated m) := inferInstanceAs (Decidable (_ ∧ _))

/-- What is read next is no piece of a file. -/
def End.AtRecord : End → Prop
  | .client .. => True
  | .block _ _ taken => taken = 0

instance : (e : End) → Decidable e.AtRecord
  | .client .. => .isTrue trivial
  | .block _ _ taken => inferInstanceAs (Decidable (taken = 0))

def Input.Terminated : Input → Prop
  | .record m _ => Msg.Terminated m
  | _ => True

instance : (inp : Input) → Decidable (Input.Terminated inp)
  | .record m _ => inferInstanceAs (Decidable (Msg.Terminated m))
  | .closed | .failed _ | .go | .data _ | .dataFailed => .isTrue trivial

/-- A `recv` of the dispatch loop returns one whole record and nothing of a file, and it fails only
when the process behind it has gone. -/
def End.Framed (e : End) : StreamAction → Prop
  | .recv c n junk =>
    n = sizeofMsg ∧ e.AtRecord ∧ ∀ f ∈ e.feed (.recv c n junk), Input.Terminated f.inp
  | .recvFails _ _ => e.ended = true
  | _ => True

instance (e : End) : (a : StreamAction) → Decidable (e.Framed a)
  | .recv c n junk => inferInstanceAs (Decidable (n = sizeofMsg ∧ e.AtRecord ∧
      ∀ f ∈ e.feed (.recv c n junk), Input.Terminated f.inp))
  | .recvFails _ _ => inferInstanceAs (Decidable (e.ended = true))
  | .accept | .recvEnds _ | .relay _ _ | .relayFails _ | .go _ => .isTrue trivial

def Framed (s : Network DB) : Event → Prop
  | .serve a => ∀ e ∈ s.ends[a.conn]?, e.Framed a
  | _ => True

instance (s : Network DB) : (a : Event) → Decidable (Framed s a)
  | .serve a => inferInstanceAs (Decidable (∀ e ∈ s.ends[a.conn]?, e.Framed a))
  | .connect .. | .connectBlock .. | .main .. | .read .. | .serverExit _ | .kill _ => .isTrue trivial

/-! ## What a stream gives -/

theorem flatMap_take_drop {ms : List Msg} {k : ℕ} (h : sizeofMsg * k + sizeofMsg ≤
    (ms.flatMap Msg.toBytes).length) (htyped : ∀ m ∈ ms, m.Typed) : ∃ m, ms[k]? = some m ∧
      Msg.ofBytes (((ms.flatMap Msg.toBytes).drop (sizeofMsg * k)).take sizeofMsg) = m := by
  have hlen := length_flatMap_frames (f := Msg.toBytes) Msg.length_toBytes ms
  have hk : k < ms.length := by
    rw [hlen, ← Nat.mul_succ] at h
    exact Nat.lt_of_succ_le (Nat.le_of_mul_le_mul_left h (by decide))
  refine ⟨ms[k], List.getElem?_eq_getElem hk, ?_⟩
  rw [frame_of_flatMap Msg.length_toBytes (List.getElem?_eq_getElem hk)]
  exact Msg.ofBytes_toBytes (htyped _ (List.getElem_mem hk))

/-- A client is of its types, and the server is at one of its records. -/
def End.Fits : End → Prop
  | .client c taken _ => AllTyped c ∧ sizeofMsg ∣ taken
  | .block .. => True

@[simp] theorem End.take_zero (e : End) : e.take 0 = e := by
  cases e <;> rfl

/-- A framed `recv` takes a record from its stream. -/
theorem End.Fits.recv {e : End} {c : ℕ} {junk : CharArray 20} {f : Fed} (h : e.Fits)
    (hat : e.AtRecord) (hf : e.feed (.recv c sizeofMsg junk) = some f) :
    e.peer.give f.inp = some (e.take f.taken).peer ∧ (e.take f.taken).Fits := by
  simp only [End.feed, ServerModel.feed] at hf
  split_ifs at hf with hn
  obtain rfl := Option.some.inj hf
  obtain ⟨-, -, hroom⟩ := hn
  have hpad : pad sizeofMsg ((e.stream.drop e.taken).take sizeofMsg) =
      (e.stream.drop e.taken).take sizeofMsg := by
    refine pad_of_length ?_
    rw [List.length_take, List.length_drop]
    omega
  dsimp only [recvInput]
  rw [hpad]
  cases e with
  | client d taken received =>
    obtain ⟨htyped, k, rfl⟩ := h
    obtain ⟨m, hm, heq⟩ := @flatMap_take_drop d.written k hroom htyped.written
    have hhandled : sizeofMsg * k / sizeofMsg = k := Nat.mul_div_cancel_left k (by decide)
    have hnext : (sizeofMsg * k + sizeofMsg) / sizeofMsg = k + 1 :=
      Nat.mul_div_cancel_left (k + 1) (by decide : 0 < sizeofMsg)
    refine ⟨?_, htyped, Dvd.intro (k + 1) rfl⟩
    simp only [End.peer, End.take, End.stream, End.taken, Peer.give, heq, hhandled, hnext, hm,
      if_true]
  | block head data taken =>
    obtain rfl : taken = 0 := hat
    have hframe : (head.1.frame ++ data).take sizeofMsg = head.1.frame :=
      List.take_left' head.1.1.length_toBytes
    have hrecord : Msg.ofBytes head.1.frame = head.1.1 := Msg.ofBytes_toBytes head.1.2
    refine ⟨?_, trivial⟩
    simp only [End.peer, End.take, End.stream, End.taken, List.drop_zero, hframe, hrecord, Peer.give,
      if_pos head.2]

/-- What a connection gives is given on records, as long as only a block gives to `send_file`. -/
theorem End.Fits.give {e : End} {a : StreamAction} {f : Fed} (h : e.Fits) (hframed : e.Framed a)
    (hf : e.feed a = some f)
    (hdata : (∃ bs, f.inp = .data bs) ∨ f.inp = .dataFailed → e.peer = .block) :
    e.peer.give f.inp = some (e.take f.taken).peer ∧ (e.take f.taken).Fits := by
  cases a with
  | accept => cases hf
  | recv c n junk =>
    obtain ⟨rfl, hat, -⟩ := hframed
    exact h.recv hat hf
  | recvFails c junk =>
    cases hf
    rw [take_zero]
    refine ⟨?_, h⟩
    cases e with
    | client d taken received =>
      have hended : d.running = false := by simpa [End.Framed, End.ended] using hframed
      simp [End.peer, recvInput, Peer.give, hended]
    | block head data taken => rfl
  | recvEnds c =>
    simp only [End.feed, ServerModel.feed] at hf
    split_ifs at hf with hended hend
    cases hf
    rw [take_zero]
    refine ⟨?_, h⟩
    cases e with
    | client d taken received =>
      have hrunning : d.running = false := by simpa [End.ended] using hended
      have hlen : taken = sizeofMsg * d.written.length := by
        rw [← length_flatMap_frames Msg.length_toBytes d.written]
        exact hend
      have hhandled : taken / sizeofMsg = d.written.length :=
        hlen ▸ Nat.mul_div_cancel_left _ (by decide)
      simp [End.peer, Peer.give, hrunning, hhandled]
    | block head data taken => rfl
  | relay c n =>
    simp only [End.feed, ServerModel.feed] at hf
    split_ifs at hf
    cases hf
    cases e with
    | client d taken received => cases hdata (.inl ⟨_, rfl⟩)
    | block head data taken => exact ⟨rfl, trivial⟩
  | relayFails c =>
    cases hf
    cases e with
    | client d taken received => cases hdata (.inr rfl)
    | block head data taken => exact ⟨rfl, trivial⟩
  | go c =>
    cases hf
    rw [take_zero]
    refine ⟨?_, h⟩
    cases e <;> rfl

/-! ## Steps -/

structure Framing (s : Network DB) : Prop where
  order : InOrder s.system
  ids : IdsInOrder s.server
  ends : ∀ e ∈ s.ends, e.Fits
  written : ∀ fd m, (fd, Out.record m) ∈ s.server.srv.written → m.Typed
  pcs : ∀ k ∈ s.server.handlers, k.pc.Typed

theorem framing_start (db : DB) : Framing (Network.start db) where
  order := inOrder_start db
  ids := idsInOrder_start db
  ends := by simp [Network.start]
  written := by simp [Network.start, ServerState.start, Server.start]
  pcs := by simp [Network.start, ServerState.start]

theorem onClient_cases {s t : Network DB} {c : ℕ} {f : Client → ℕ → ℕ → Option End}
    (h : s.onClient c f = some t) : ∃ d taken received e, s.ends[c]? = some (.client d taken received) ∧
      f d taken received = some e ∧ t = { s with ends := s.ends.set c e } := by
  unfold Network.onClient at h
  split at h
  next d taken received hd =>
    obtain ⟨e, hf, rfl⟩ := Option.map_eq_some_iff.mp h
    exact ⟨d, taken, received, e, hd, hf, rfl⟩
  next => cases h

theorem system_set (s : Network DB) (c : ℕ) (e : End) :
    Network.system { s with ends := s.ends.set c e } =
      { s.system with peers := s.system.peers.set c e.peer } := by
  simp [Network.system, List.map_set]

theorem peer_of_end {s : Network DB} {c : ℕ} {e : End} (h : s.ends[c]? = some e) :
    s.system.peers[c]? = some e.peer := by
  simp [Network.system, h]

/-- The bytes on the connection of a client are those of records. -/
theorem bytesTo_eq {written : List (ℤ × Out)} {fd : ℤ}
    (h : ∀ o, (fd, o) ∈ written → ∃ m, o = .record m) :
    bytesTo written fd = (recordsTo written fd).flatMap Msg.toBytes := by
  induction written with
  | nil => rfl
  | cons w written ih =>
    obtain ⟨fd', o⟩ := w
    have ih := ih fun o ho => h o (List.mem_cons_of_mem _ ho)
    have hcons : bytesTo ((fd', o) :: written) fd =
        (if fd' = fd then bytesOf o else []) ++ bytesTo written fd := rfl
    rw [hcons, ih]
    by_cases hfd : fd' = fd
    · subst hfd
      obtain ⟨m, rfl⟩ := h o List.mem_cons_self
      simp [recordsTo, bytesOf]
    · cases o <;> simp [recordsTo, hfd]

section
variable {s t : Network DB} {c : ℕ}

/-- What is read of a client's connection is its next record. -/
theorem Framing.read (h : Framing s) {d : Client} {taken received : ℕ}
    (hd : s.ends[c]? = some (.client d taken received))
    (hroom : sizeofMsg * received + sizeofMsg ≤ (s.inbox c).length) :
    ∃ m, (s.system.inbox c)[received]? = some m ∧ m.Typed ∧
      Msg.ofBytes (((s.inbox c).drop (sizeofMsg * received)).take sizeofMsg) = m := by
  have huser : IsUser s.system.peers c := ⟨c, _, rfl, peer_of_end hd⟩
  have hrecords : s.inbox c = (s.system.inbox c).flatMap Msg.toBytes := by
    refine bytesTo_eq fun o ho => ?_
    have hfit := h.order.fits.written c o ho
    cases o with
    | record m => exact ⟨m, rfl⟩
    | raw bs => exact absurd hfit huser.not_isBlock
    | close => exact absurd hfit huser.not_isBlock
  have htyped : ∀ m ∈ s.system.inbox c, m.Typed := fun m hm => h.written c m (mem_recordsTo.mp hm)
  rw [hrecords] at hroom ⊢
  obtain ⟨m, hm, heq⟩ := flatMap_take_drop hroom htyped
  exact ⟨m, hm, htyped m (List.mem_of_getElem? hm), heq⟩

/-- The connection of a client ends with the server. -/
theorem Framing.hungUp (h : Framing s) {d : Client} {taken received : ℕ}
    (hd : s.ends[c]? = some (.client d taken received)) (hup : s.hungUp c = true) :
    s.server.faulted = true := by
  have huser : IsUser s.system.peers c := ⟨c, _, rfl, peer_of_end hd⟩
  rcases (Bool.or_eq_true _ _).mp hup with hfault | hclose
  · exact hfault
  · have hmem := List.contains_iff_mem.mp hclose
    exact absurd (h.order.fits.written c .close hmem) huser.not_isBlock

/-- Only a block gives to `send_file`. -/
theorem Framing.block_of_data (h : Framing s) {e : End} (he : s.ends[c]? = some e) {inp : Input}
    (hstep : ∃ t, serverStep sql s.server (.serve c inp) = some t)
    (hdata : (∃ bs, inp = .data bs) ∨ inp = .dataFailed) : e.peer = .block := by
  obtain ⟨t, hstep⟩ := hstep
  obtain ⟨ha, -⟩ | ⟨c', inp', k, srv, pc, ha, hk, hr, -⟩ := serverStep_cases hstep
  · cases ha
  cases ha
  have hfits := h.order.pcs c k hk
  have hblock : IsBlock s.system.peers c := by
    cases hpc : k.pc with
    | relay m fd n =>
      rw [hpc] at hfits
      exact hfits.1
    | relayRest m fd n =>
      rw [hpc] at hfits
      exact hfits.1
    | _ =>
      rw [hpc] at hr
      rcases hdata with ⟨bs, rfl⟩ | rfl <;> simp [threadReadPc] at hr
  obtain ⟨c', hc, hpeer⟩ := hblock
  obtain rfl := Int.ofNat_inj.mp hc
  exact Option.some.inj ((peer_of_end he).symm.trans hpeer)

/-- A framed step on bytes is one on records. -/
theorem framed_step {a : Event} (h : Framing s) (hframed : Framed s a)
    (hstep : networkStep sql s a = some t) :
    chatStep sql s.system (s.label a) = some t.system := by
  cases a with
  | connect stdin num pmsg =>
    obtain ⟨u, hu, rfl⟩ := Option.map_eq_some_iff.mp hstep
    refine Option.map_eq_some_iff.mpr ⟨u, hu, ?_⟩
    simp [Network.system, End.peer]
  | connectBlock head data =>
    obtain ⟨u, hu, rfl⟩ := Option.map_eq_some_iff.mp hstep
    refine Option.map_eq_some_iff.mpr ⟨u, hu, ?_⟩
    simp [Network.system, End.peer]
  | main c file =>
    obtain ⟨d, taken, received, e, hd, hf, rfl⟩ := onClient_cases hstep
    obtain ⟨d', hmain, rfl⟩ := Option.map_eq_some_iff.mp hf
    have hpeer := peer_of_end hd
    rw [system_set]
    simp [Network.label, chatStep, System.onUser, hpeer, End.peer, hmain]
  | read c r =>
    obtain ⟨d, taken, received, e, hd, hf, rfl⟩ := onClient_cases hstep
    dsimp only at hf
    split_ifs at hf with hreads
    obtain rfl := Option.some.inj hf
    obtain ⟨hrunning, hreading, hroom⟩ := hreads
    obtain ⟨m, hm, -, heq⟩ := h.read hd hroom
    have hpeer := peer_of_end hd
    rw [system_set, heq]
    simp [Network.label, chatStep, System.onUser, hpeer, End.peer, hrunning, hreading, hm]
  | serverExit c =>
    obtain ⟨d, taken, received, e, hd, hf, rfl⟩ := onClient_cases hstep
    split_ifs at hf with hends
    obtain rfl := Option.some.inj hf
    obtain ⟨hup, hrunning, hreading⟩ := hends
    have hfault : s.system.server.faulted = true := h.hungUp hd hup
    have hpeer := peer_of_end hd
    rw [system_set]
    simp [Network.label, chatStep, System.onUser, hpeer, End.peer, hrunning, hreading, hfault]
  | serve a =>
    obtain ⟨e, he, hstep⟩ := Option.bind_eq_some_iff.mp hstep
    obtain ⟨f, hf, hstep⟩ := Option.bind_eq_some_iff.mp hstep
    obtain ⟨u, hu, rfl⟩ := Option.map_eq_some_iff.mp hstep
    have hfits := h.ends e (List.mem_of_getElem? he)
    obtain ⟨hgive, -⟩ := hfits.give (hframed e he) hf (h.block_of_data he ⟨u, hu⟩)
    have hlabel : s.label (.serve a) = .serve a.conn f.inp := by
      simp [Network.label, he, hf]
    have hserver : serverStep sql s.system.server (.serve a.conn f.inp) = some u := hu
    rw [hlabel, chatStep, peer_of_end he, Option.bind_some, hgive, Option.bind_some, hserver,
      Option.map_some]
    simp [Network.system, List.map_set]
  | kill c =>
    obtain ⟨d, taken, received, e, hd, hf, rfl⟩ := onClient_cases hstep
    split_ifs at hf with hrunning
    obtain rfl := Option.some.inj hf
    have hpeer := peer_of_end hd
    rw [system_set]
    simp [Network.label, chatStep, System.onUser, hpeer, End.peer, hrunning]

theorem End.feed_stream {e : End} {a : StreamAction} {f : Fed} (h : e.feed a = some f) :
    ServerModel.feed e.stream e.taken a = some f := by
  cases a with
  | recvEnds c =>
    simp only [End.feed] at h
    split_ifs at h
    exact h
  | _ => exact h

/-- Whatever a connection gives, the request it is taken for is of its types. -/
theorem typed_of_feed {e : End} {a : StreamAction} {f : Fed} {pc : ServerModel.Pc} {m : Msg}
    {junk : CharArray 20} (hf : e.feed a = some f) (hreq : requested pc f.inp = some (m, junk)) :
    m.Typed := by
  obtain rfl := recv_of_requested hreq
  rcases feed_cases (End.feed_stream hf) with
    ⟨junk', read, hinp, -⟩ | ⟨-, -, hinp | hinp⟩ | ⟨-, ⟨bs, hinp⟩ | hinp⟩ <;> rw [hinp] at hreq
  · cases read with
    | failed =>
      obtain ⟨rfl, -⟩ := Prod.mk.inj (Option.some.inj hreq)
      exact Msg.typed_zero
    | piece bs =>
      obtain ⟨rfl, -⟩ := Prod.mk.inj (Option.some.inj hreq)
      exact Msg.typed_ofBytes (length_pad ..)
  all_goals cases hreq

/-- A client goes on, with the same bytes behind it. -/
theorem Framing.onClient (h : Framing s) {a : Event} {d : Client} {taken received received' : ℕ}
    (hd : s.ends[c]? = some (.client d taken received)) {d' : Client}
    (htyped : AllTyped d → AllTyped d')
    (hstep : chatStep sql s.system (s.label a) =
      some (Network.system { s with ends := s.ends.set c (.client d' taken received') })) :
    Framing { s with ends := s.ends.set c (.client d' taken received') } := by
  obtain ⟨hold, hdvd⟩ := h.ends _ (List.mem_of_getElem? hd)
  exact ⟨inOrder_step h.order hstep, h.ids, WaitQueues.forall_mem_set h.ends ⟨htyped hold, hdvd⟩,
    h.written, h.pcs⟩

theorem Framing.accept (h : Framing s) {e : End} (he : e.Fits) {t : ServerState DB}
    (hstep : serverStep sql s.server .accept = some t)
    (horder : InOrder (Network.system ⟨t, s.ends ++ [e]⟩)) : Framing ⟨t, s.ends ++ [e]⟩ := by
  have hids := idsInOrder_step h.ids hstep
  obtain ⟨-, rfl⟩ | ⟨c, inp, k, srv, pc, ha, -⟩ := serverStep_cases hstep
  · exact ⟨horder, hids, WaitQueues.forall_mem_concat h.ends he, h.written,
      WaitQueues.forall_mem_concat h.pcs trivial⟩
  · cases ha

theorem framing_step {a : Event} (h : Framing s) (hframed : Framed s a)
    (hstep : networkStep sql s a = some t) : Framing t := by
  have hchat := framed_step h hframed hstep
  have horder := inOrder_step h.order hchat
  cases a with
  | connect stdin num pmsg =>
    obtain ⟨u, hu, rfl⟩ := Option.map_eq_some_iff.mp hstep
    exact h.accept (e := .client (.start stdin num pmsg) 0 0)
      ⟨ClientModel.allTyped_start stdin num pmsg, Nat.dvd_zero _⟩ hu horder
  | connectBlock head data =>
    obtain ⟨u, hu, rfl⟩ := Option.map_eq_some_iff.mp hstep
    exact h.accept (e := .block head data 0) trivial hu horder
  | main c file =>
    obtain ⟨d, taken, received, e, hd, hf, rfl⟩ := onClient_cases hstep
    obtain ⟨d', hmain, rfl⟩ := Option.map_eq_some_iff.mp hf
    exact h.onClient hd (fun hold => ClientModel.allTyped_main hold (ClientModel.mainStep_cases hmain))
      hchat
  | read c r =>
    obtain ⟨d, taken, received, e, hd, hf, rfl⟩ := onClient_cases hstep
    dsimp only at hf
    split_ifs at hf with hreads
    obtain rfl := Option.some.inj hf
    obtain ⟨m, -, htyped, heq⟩ := h.read hd hreads.2.2
    exact h.onClient hd (fun hold =>
      hold.read (heq ▸ htyped.sfileId) (ClientModel.threadRead_cases d r _)) hchat
  | serverExit c =>
    obtain ⟨d, taken, received, e, hd, hf, rfl⟩ := onClient_cases hstep
    split_ifs at hf
    obtain rfl := Option.some.inj hf
    exact h.onClient hd (fun hold => ⟨hold.pmsg, hold.sfileId, hold.waitId, hold.written⟩) hchat
  | serve a =>
    obtain ⟨e, he, hstep⟩ := Option.bind_eq_some_iff.mp hstep
    obtain ⟨f, hf, hstep⟩ := Option.bind_eq_some_iff.mp hstep
    obtain ⟨u, hu, rfl⟩ := Option.map_eq_some_iff.mp hstep
    have hids := idsInOrder_step h.ids hu
    have hfits := h.ends e (List.mem_of_getElem? he)
    obtain ⟨-, hends⟩ := hfits.give (hframed e he) hf (h.block_of_data he ⟨u, hu⟩)
    obtain ⟨ha, -⟩ | ⟨c', inp', k, srv, pc, ha, hk, hr, rfl⟩ := serverStep_cases hu
    · cases ha
    cases ha
    have haddr : s.server.srv.addr.length = 100 := by
      rw [h.ids.addr, List.length_append, List.length_replicate, List.length_replicate]
      omega
    have hsends := sends_step hr (h.pcs k (List.mem_of_getElem? hk))
      (fun m junk hreq => typed_of_feed hf hreq) haddr
    refine ⟨horder, hids, WaitQueues.forall_mem_set h.ends hends, fun fd m hm => ?_,
      WaitQueues.forall_mem_set h.pcs hsends.pc⟩
    obtain ⟨ws, hws, htyped⟩ := hsends.writes
    rw [hws] at hm
    exact (List.mem_append.mp hm).elim (h.written fd m) (htyped fd m)
  | kill c =>
    obtain ⟨d, taken, received, e, hd, hf, rfl⟩ := onClient_cases hstep
    split_ifs at hf
    obtain rfl := Option.some.inj hf
    exact h.onClient hd (fun hold => hold.stops (.inl rfl)) hchat

end

/-- A framed run on bytes is a run on records, and what holds of the steps there holds here. -/
theorem framed_run {db : DB} {as : List Event} {s : Network DB} {R : System DB → Label → Prop}
    (hframed : (networkMachine sql).EachStep (fun s a => Framed s a ∧ R s.system (s.label a))
      (.start db) as) (h : (networkMachine sql).run (.start db) as = some s) :
    ∃ bs, (chatMachine sql).EachStep R (.start db) bs ∧
      (chatMachine sql).run (.start db) bs = some s.system :=
  run_project (I := Framing) Network.system Network.label
    (fun _ _ _ hs hq hstep => framing_step hs hq.1 hstep)
    (fun _ _ _ hs hq hstep => ⟨hq.2, framed_step hs hq.1 hstep⟩) (framing_start db) hframed h

theorem records_run {db : DB} {as : List Event} {s : Network DB}
    (hframed : (networkMachine sql).EachStep Framed (.start db) as)
    (h : (networkMachine sql).run (.start db) as = some s) :
    ∃ bs, (chatMachine sql).run (.start db) bs = some s.system := by
  obtain ⟨bs, -, hbs⟩ := framed_run (R := fun _ _ => True)
    (hframed.mono fun _ _ ha => ⟨ha, trivial⟩) h
  exact ⟨bs, hbs⟩

/-! ## A conversation -/

/-- The peer is a client of this kind. -/
def Peer.isUser (p : User → Bool) : Peer → Bool
  | .user u => p u
  | .block => false

theorem exists_user {peers : List Peer} {c : ℕ} {p : User → Bool}
    (h : (peers[c]?).any (Peer.isUser p) = true) :
    ∃ u, peers[c]? = some (.user u) ∧ p u = true := by
  obtain ⟨q, hq, h⟩ := (Option.any_eq_true ..).mp h
  cases q with
  | user u => exact ⟨u, hq, h⟩
  | block => cases h

/-- The server takes a record from connection `c`. -/
def takes (c : ℕ) : Event := .serve (.recv c sizeofMsg (.zero 20))

/-- Client `c` logs in, and asks for the users. -/
def logsIn (c : ℕ) : List Event :=
  List.replicate 4 (.main c none) ++ [takes c, .read c .calm] ++ List.replicate 3 (.main c none) ++
    [takes c]

/-- `42` and `b` log in, `b` opens a conversation with `42` and writes to it, and `42` reads. -/
def conversation : List Event :=
  [.connect (text "1 42 42 3 0") 0 .zero, .connect (text "1 b 42 1 42 hi quite 3 0") 0 .zero] ++
    logsIn 0 ++ logsIn 1 ++ List.replicate 4 (.main 1 none) ++ [takes 1, takes 1] ++
    List.replicate 3 (.read 0 .calm)

theorem conversation_framed :
    (networkMachine sqlite42).EachStep Framed (.start ()) conversation := by
  decide +kernel

theorem conversation_runs :
    ∃ s u v, (networkMachine sqlite42).run (.start ()) conversation = some s ∧
      s.system.peers[0]? = some (.user u) ∧ s.system.peers[1]? = some (.user v) ∧
      (u.client.running = true ∧ u.client.inSession = true ∧ u.client.pc.atHome = true ∧
        u.client.shown.getLast? = some (.said [] [98] [104, 105])) ∧
      (v.client.pc = .chat ∧ v.client.written.length = 4) ∧
      ∀ i ∈ s.server.history, (i.after.map Online.name).Nodup := by
  have hrun : ((networkMachine sqlite42).run (.start ()) conversation).any (fun s =>
      (s.system.peers[0]?).any (Peer.isUser (fun u => u.client.running ∧ u.client.inSession ∧
        u.client.pc.atHome ∧ u.client.shown.getLast? = some (.said [] [98] [104, 105]))) &&
      (s.system.peers[1]?).any (Peer.isUser (fun v =>
        v.client.pc = .chat ∧ v.client.written.length = 4)) &&
      decide (∀ i ∈ s.server.history, (i.after.map Online.name).Nodup)) = true := by
    decide +kernel
  obtain ⟨s, hs, hcheck⟩ := (Option.any_eq_true ..).mp hrun
  obtain ⟨hpeers, hnames⟩ := Bool.and_eq_true_iff.mp hcheck
  obtain ⟨h0, h1⟩ := Bool.and_eq_true_iff.mp hpeers
  obtain ⟨u, hu, hpu⟩ := exists_user h0
  obtain ⟨v, hv, hpv⟩ := exists_user h1
  exact ⟨s, u, v, hs, hu, hv, by simpa using hpu, by simpa using hpv, of_decide_eq_true hnames⟩

end LinuxCat.ChatSystem
