import LinuxCat.ActingNames
import LinuxCat.SessionPhases

/-! # The clients and the server on records

Any number of clients run against the server, and connections for the blocks of their files beside
them. A record that is written waits on its connection until the other side reads it. Steps of all
of them come in any order. What is left out here is short reads and bytes of files that are taken for
requests, which are on the level of streams, and two handlers that are in the middle of a request at
once: from one `recv` of a handler to the next is one step, unless it waits in between. A connection
that finds no free worker is one whose handler takes no steps. -/
namespace LinuxCat.ChatSystem
open LabelledMachines LabelledMachines.Machine ByteLayouts Messages ServerModel
open ClientModel (Client mainStep)

variable {DB : Type}

/-- A client on its connection: how many of its records the server has read, and how many of those
written to it `thread_read` has. -/
structure User where
  client : Client
  handled : ℕ
  received : ℕ
  deriving DecidableEq, Repr

/-- Who has opened a connection: a client, or one of the threads that send and receive a block. -/
inductive Peer
  | user (u : User)
  | block
  deriving DecidableEq, Repr

/-- `peers[c]` opened connection `c`. -/
structure System (DB : Type) where
  server : ServerState DB
  peers : List Peer

def recordsTo (written : List (ℤ × Out)) (fd : ℤ) : List Msg :=
  written.filterMap (fun w =>
    match w with
    | (fd', .record m) => if fd' = fd then some m else none
    | _ => none)

inductive Label
  /-- a client starts; its input, and its variables as they are found -/
  | connect (stdin : Bytes) (num : ℤ) (pmsg : Msg)
  /-- a thread for a block connects -/
  | connectBlock
  /-- `main` of client `c` goes on; `file` is what an `open` finds -/
  | main (c : ℕ) (file : Option Bytes)
  /-- `thread_read` of client `c` reads the next record -/
  | read (c : ℕ) (r : ClientModel.Round)
  /-- the same when the server has ended -/
  | serverExit (c : ℕ)
  /-- the handler of connection `c` goes on -/
  | serve (c : ℕ) (inp : Input)
  /-- the process of client `c` ends -/
  | kill (c : ℕ)

/-- What a `recv` of the handler may be given, and the peer behind it: the next record of a client,
or the record that a block begins with. The bytes behind that one are for `send_file` only. -/
def Peer.give (p : Peer) (inp : Input) : Option Peer :=
  match p, inp with
  | .user u, .record m _ =>
    if u.client.written[u.handled]? = some m then some (.user { u with handled := u.handled + 1 })
    else none
  | .user u, .closed =>
    if u.client.running = false ∧ u.handled = u.client.written.length then some (.user u) else none
  | .user u, .failed _ => if u.client.running = false then some (.user u) else none
  | .user u, .go => some (.user u)
  | .user _, _ => none
  | .block, .record m _ => if m.action = 5 ∨ m.action = -5 then some .block else none
  | .block, _ => some .block

namespace System

def start (db : DB) : System DB := ⟨.start (.start db), []⟩

def accept (sql : Sqlite DB) (s : System DB) (p : Peer) : Option (System DB) :=
  (serverStep sql s.server .accept).map (fun t => ⟨t, s.peers ++ [p]⟩)

def onUser (s : System DB) (c : ℕ) (f : User → Option User) : Option (System DB) :=
  match s.peers[c]? with
  | some (.user u) => (f u).map (fun u => { s with peers := s.peers.set c (.user u) })
  | _ => none

def inbox (s : System DB) (c : ℕ) : List Msg := recordsTo s.server.srv.written c

end System

def chatStep (sql : Sqlite DB) (s : System DB) : Label → Option (System DB)
  | .connect stdin num pmsg => s.accept sql (.user ⟨.start stdin num pmsg, 0, 0⟩)
  | .connectBlock => s.accept sql .block
  | .main c file =>
    s.onUser c (fun u => (mainStep u.client file).map (fun d => { u with client := d }))
  | .read c r =>
    s.onUser c (fun u =>
      if u.client.running ∧ u.client.reading then
        ((s.inbox c)[u.received]?).map (fun m =>
          { u with client := ClientModel.threadRead u.client r m, received := u.received + 1 })
      else none)
  | .serverExit c =>
    s.onUser c (fun u =>
      if s.server.faulted ∧ u.client.running ∧ u.client.reading then
        some { u with client := ClientModel.serverExit u.client }
      else none)
  | .serve c inp =>
    ((s.peers[c]?).bind (fun p => p.give inp)).bind (fun p =>
      (serverStep sql s.server (.serve c inp)).map (fun t => ⟨t, s.peers.set c p⟩))
  | .kill c =>
    s.onUser c (fun u =>
      if u.client.running then some { u with client := u.client.goto .exited } else none)

def chatMachine (sql : Sqlite DB) : Machine (System DB) Label where
  step := chatStep sql

inductive ChatStep (sql : Sqlite DB) (s : System DB) : Label → System DB → Prop
  | connect (stdin : Bytes) (num : ℤ) (pmsg : Msg) (t : ServerState DB)
      (hstep : serverStep sql s.server .accept = some t) :
      ChatStep sql s (.connect stdin num pmsg)
        ⟨t, s.peers ++ [.user ⟨.start stdin num pmsg, 0, 0⟩]⟩
  | connectBlock (t : ServerState DB) (hstep : serverStep sql s.server .accept = some t) :
      ChatStep sql s .connectBlock ⟨t, s.peers ++ [.block]⟩
  | main (c : ℕ) (file : Option Bytes) (u : User) (d : Client)
      (hu : s.peers[c]? = some (.user u)) (hstep : mainStep u.client file = some d) :
      ChatStep sql s (.main c file)
        { s with peers := s.peers.set c (.user { u with client := d }) }
  | read (c : ℕ) (r : ClientModel.Round) (u : User) (m : Msg) (d : Client)
      (hu : s.peers[c]? = some (.user u)) (hrunning : u.client.running = true)
      (hreading : u.client.reading = true) (hm : (s.inbox c)[u.received]? = some m)
      (hd : d = ClientModel.threadRead u.client r m) :
      ChatStep sql s (.read c r)
        { s with peers := s.peers.set c (.user { u with
            client := d
            received := u.received + 1 }) }
  | serverExit (c : ℕ) (u : User) (hu : s.peers[c]? = some (.user u))
      (hreading : u.client.reading = true) (hfault : s.server.faulted = true) :
      ChatStep sql s (.serverExit c)
        { s with peers := s.peers.set c (.user { u with client := ClientModel.serverExit u.client }) }
  | serve (c : ℕ) (inp : Input) (p p' : Peer) (t : ServerState DB) (hp : s.peers[c]? = some p)
      (hgive : p.give inp = some p') (hstep : serverStep sql s.server (.serve c inp) = some t) :
      ChatStep sql s (.serve c inp) ⟨t, s.peers.set c p'⟩
  | kill (c : ℕ) (u : User) (hu : s.peers[c]? = some (.user u)) :
      ChatStep sql s (.kill c)
        { s with peers := s.peers.set c (.user { u with client := u.client.goto .exited }) }

theorem onUser_cases {s t : System DB} {c : ℕ} {f : User → Option User} (h : s.onUser c f = some t) :
    ∃ u u', s.peers[c]? = some (.user u) ∧ f u = some u' ∧
      t = { s with peers := s.peers.set c (.user u') } := by
  unfold System.onUser at h
  split at h
  next u hu =>
    obtain ⟨u', hf, rfl⟩ := Option.map_eq_some_iff.mp h
    exact ⟨u, u', hu, hf, rfl⟩
  next => cases h

theorem chatStep_cases {sql : Sqlite DB} {s t : System DB} {a : Label}
    (h : chatStep sql s a = some t) : ChatStep sql s a t := by
  cases a with
  | connect stdin num pmsg =>
    obtain ⟨t, hstep, rfl⟩ := Option.map_eq_some_iff.mp h
    exact .connect stdin num pmsg t hstep
  | connectBlock =>
    obtain ⟨t, hstep, rfl⟩ := Option.map_eq_some_iff.mp h
    exact .connectBlock t hstep
  | main c file =>
    obtain ⟨u, u', hu, hf, rfl⟩ := onUser_cases h
    obtain ⟨d, hstep, rfl⟩ := Option.map_eq_some_iff.mp hf
    exact .main c file u d hu hstep
  | read c r =>
    obtain ⟨u, u', hu, hf, rfl⟩ := onUser_cases h
    split_ifs at hf with hrunning
    obtain ⟨m, hm, rfl⟩ := Option.map_eq_some_iff.mp hf
    exact .read c r u m _ hu hrunning.1 hrunning.2 hm rfl
  | serverExit c =>
    obtain ⟨u, u', hu, hf, rfl⟩ := onUser_cases h
    split_ifs at hf with hreading
    cases hf
    exact .serverExit c u hu hreading.2.2 hreading.1
  | serve c inp =>
    obtain ⟨p', hp', h⟩ := Option.bind_eq_some_iff.mp h
    obtain ⟨p, hp, hgive⟩ := Option.bind_eq_some_iff.mp hp'
    obtain ⟨t, hstep, rfl⟩ := Option.map_eq_some_iff.mp h
    exact .serve c inp p p' t hp hgive hstep
  | kill c =>
    obtain ⟨u, u', hu, hf, rfl⟩ := onUser_cases h
    split_ifs at hf
    cases hf
    exact .kill c u hu

theorem server_reachable {sql : Sqlite DB} {db : DB} {as : List Label} {s : System DB}
    (h : (chatMachine sql).run (.start db) as = some s) :
    (serverMachine sql).Reachable (ServerState.start (Server.start db)) s.server := by
  refine run_invariant (M := chatMachine sql)
    (I := fun s => (serverMachine sql).Reachable (ServerState.start (Server.start db)) s.server)
    (fun s a t hs h => ?_) (.refl _ _) h
  cases chatStep_cases h with
  | connect stdin num pmsg t hstep => exact hs.step (a := .accept) hstep
  | connectBlock t hstep => exact hs.step (a := .accept) hstep
  | main c file u d hu hstep => exact hs
  | read c r u m d hu hrunning hreading hm hd => exact hs
  | serverExit c u hu hreading => exact hs
  | serve c inp p p' t hp hgive hstep => exact hs.step (a := .serve c inp) hstep
  | kill c u hu => exact hs

end LinuxCat.ChatSystem
