import LinuxCat.ReceiverModel
import LinuxCat.ServerRuns

/-! # A file transfer from end to end

The threads of the sender, the handlers of the server and the threads of the receiver, over
connections that are streams of bytes in both directions. A `recv` returns what it asked for,
or what is still to come when that is less. -/
namespace LinuxCat.FileTransfer
open LabelledMachines ByteLayouts Messages FileBlocks ServerModel ReceiverModel

variable {DB : Type}

/-- A connection: the writes its client has still to make, those it made, whether it has closed
it, and how much of either stream was read at the other end. -/
structure Conn where
  peer : Peer
  rest : List Bytes
  sent : Bytes
  ended : Bool
  taken : ℕ
  read : ℕ
  deriving DecidableEq, Repr

def Conn.new (peer : Peer) (rest : List Bytes) : Conn := ⟨peer, rest, [], false, 0, 0⟩

structure Transfer (DB : Type) where
  server : ServerState DB
  conns : List Conn
  client : Receiver
  deriving DecidableEq, Repr

inductive TransferAction
  /-- the thread of block `j` connects -/
  | openBlock (j : ℕ)
  /-- the next write on connection `c` of the thread of a block, or its `close` -/
  | send (c : ℕ)
  /-- a step of the handler of connection `c` -/
  | serve (c : ℕ) (junk : CharArray 20) (fails : Bool)
  /-- a step of `thread_read` of the receiver -/
  | threadRead (old : Bytes)
  /-- a step of the receiver's thread `q` -/
  | recvFile (q : ℕ)
  deriving DecidableEq, Repr

/-- What the server has sent to `fd`: its writes, up to a `close`. -/
def lineTo (fd : ℤ) : List (ℤ × Out) → Bytes
  | [] => []
  | (fd', o) :: ws =>
    if fd' = fd then
      match o with
      | .record m => m.toBytes ++ lineTo fd ws
      | .raw bs => bs ++ lineTo fd ws
      | .close => []
    else lineTo fd ws

/-- A `recv` of `k` bytes of a stream of which `coming` is there and unread. -/
def recvOf (coming : Bytes) (ended : Bool) (k : ℕ) : Option Bytes :=
  if k ≤ coming.length ∨ ended then some (coming.take k) else none

/-- How many bytes the `recv` asks for that the handler is at. -/
def requestedBytes : Pc → Option ℕ
  | .recv => some sizeofMsg
  | .relay _ _ _ => some ServerModel.RECVBUF_SIZE
  | .relayRest _ _ remainSize => some (remainSize % 2 ^ 64).toNat
  | _ => none

def inputOf (pc : Pc) (junk : CharArray 20) (bs : Bytes) : Input :=
  match pc with
  | .recv => if bs = [] then .closed else .record (Msg.ofBytes (pad sizeofMsg bs)) junk
  | _ => .data bs

def failedInput (junk : CharArray 20) : Pc → Input
  | .recv => .failed junk
  | _ => .dataFailed

/-- What the handler of a connection meets next, and how many bytes of its stream that takes.
A `recv` fails when the descriptor was closed. -/
def serverInput (conn : Conn) (closed : Bool) (pc : Pc) (junk : CharArray 20) (fails : Bool) :
    Option (Input × ℕ) :=
  match requestedBytes pc with
  | none => if fails then none else some (.go, 0)
  | some k =>
    if fails then (if closed then some (failedInput junk pc, 0) else none)
    else
      (recvOf (conn.sent.drop conn.taken) conn.ended k).map (fun bs =>
        (inputOf pc junk bs, bs.length))

def Transfer.setConn (s : Transfer DB) (c : ℕ) (conn : Conn) : Transfer DB :=
  { s with conns := s.conns.set c conn }

def Transfer.setThread (s : Transfer DB) (q : ℕ) (pc : FilePc) : Transfer DB :=
  { s with client := s.client.setThread q pc }

/-- `Create_sock`, and `accept` at the other end. -/
def Transfer.connect (sql : Sqlite DB) (s : Transfer DB) (peer : Peer) (rest : List Bytes) :
    Option (Transfer DB) :=
  (serverStep sql s.server .accept).map (fun srv =>
    { s with server := srv, conns := s.conns ++ [.new peer rest] })

/-- A `recv` of `k` bytes of connection `c` at its client. -/
def Transfer.clientRecv (s : Transfer DB) (c k : ℕ) : Option (Conn × Bytes) :=
  (s.conns[c]?).bind (fun conn =>
    let written := s.server.srv.written
    (recvOf ((lineTo c written).drop conn.read) (((c : ℤ), Out.close) ∈ written) k).map (fun bs =>
      ({ conn with read := conn.read + bs.length }, bs)))

/-- The threads of `send_file` of the sender. -/
def openBlock (sql : Sqlite DB) (file : Bytes) (heads : List Msg) (s : Transfer DB) (j : ℕ) :
    Option (Transfer DB) :=
  (heads[j]?).bind (fun m =>
    if ∀ conn ∈ s.conns, conn.peer ≠ .sender j then
      s.connect sql (.sender j) (sendFiledata file m)
    else none)

def send (s : Transfer DB) (c : ℕ) : Option (Transfer DB) :=
  (s.conns[c]?).bind (fun conn =>
    match conn.peer, conn.rest with
    | .sender _, bs :: rest => some (s.setConn c { conn with sent := conn.sent ++ bs, rest := rest })
    | .sender _, [] => if conn.ended then none else some (s.setConn c { conn with ended := true })
    | _, _ => none)

def serve (sql : Sqlite DB) (s : Transfer DB) (c : ℕ) (junk : CharArray 20) (fails : Bool) :
    Option (Transfer DB) :=
  (s.server.handlers[c]?).bind (fun k => (s.conns[c]?).bind (fun conn =>
    (serverInput conn ((k.cfd, Out.close) ∈ s.server.srv.written) k.pc junk fails).bind (fun r =>
      (serverStep sql s.server (.serve c r.1)).map (fun srv =>
        { s.setConn c { conn with taken := conn.taken + r.2 } with server := srv }))))

/-- `thread_read` of the receiver, whose session is connection `r`. -/
def threadRead (r : ℕ) (s : Transfer DB) (old : Bytes) : Option (Transfer DB) :=
  if s.client.reader = .recv then
    (s.clientRecv r sizeofMsg).bind (fun x => (s.client.threadRead x.2 old).map (fun client =>
      { s.setConn r x.1 with client := client }))
  else (s.client.threadRead [] old).map (fun client => { s with client := client })

/-- One step of `recv_file` in thread `q`. -/
def recvFile (sql : Sqlite DB) (s : Transfer DB) (q : ℕ) : Option (Transfer DB) :=
  (s.client.threads[q]?).bind (fun pc =>
    match pc with
    | .created =>
      if 0 < s.client.sem1 then
        some { s with client := { s.client.setThread q .copying with sem1 := s.client.sem1 - 1 } }
      else none
    | .copying => some (s.setThread q (.posting s.client.omsg))
    | .posting omsg =>
      some { s with
        client := { s.client.setThread q (.opening omsg) with sem0 := s.client.sem0 + 1 } }
    | .opening omsg =>
      (s.setThread q (.writing omsg s.conns.length)).connect sql (.receiver q omsg) []
    | .writing omsg c =>
      (s.conns[c]?).map (fun conn =>
        let omsg := { omsg with action := -5 }
        (s.setConn c { conn with sent := conn.sent ++ omsg.toBytes }).setThread q
          (.receiving omsg c omsg.offset))
    | .receiving omsg c fp =>
      (s.clientRecv c ReceiverModel.RECVBUF_SIZE).map (fun x =>
        let client := s.client.storeAt omsg.sfileId fp x.2
        let pc :=
          if x.2.length = ReceiverModel.RECVBUF_SIZE then
            FilePc.receiving omsg c (fp + ReceiverModel.RECVBUF_SIZE)
          else .closing c
        { s.setConn c x.1 with client := client.setThread q pc })
    | .closing c =>
      (s.conns[c]?).map (fun conn => (s.setConn c { conn with ended := true }).setThread q .ended)
    | .ended => none)

def transferStep (sql : Sqlite DB) (file : Bytes) (heads : List Msg) (r : ℕ) (s : Transfer DB) :
    TransferAction → Option (Transfer DB)
  | .openBlock j => openBlock sql file heads s j
  | .send c => send s c
  | .serve c junk fails => serve sql s c junk fails
  | .threadRead old => threadRead r s old
  | .recvFile q => recvFile sql s q

def transferMachine (sql : Sqlite DB) (file : Bytes) (heads : List Msg) (r : ℕ) :
    Machine (Transfer DB) TransferAction where
  step := transferStep sql file heads r

/-- `n` idle sessions, whose streams count from here; the receiver has handled the -3 for this
request. -/
def Transfer.start (srv : Server DB) (n : ℕ) (rc : Receiver) (request : Msg) (old : Bytes) :
    Transfer DB where
  server :=
    { srv := { srv with written := [] }
      handlers := (List.range n).map (fun i : ℕ => ⟨i, .recv⟩)
      history := [] }
  conns := List.replicate n (.new .session [])
  client := rc.caseMinus3 { request with action := -3 } old

end LinuxCat.FileTransfer
