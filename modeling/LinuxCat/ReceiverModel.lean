import LinuxCat.FileBlocks
import LinuxCat.MemoryStores

/-! # The receiving client

`thread_read` of the client hands the record of a block to a new thread through one variable
that two semaphores guard. The thread runs `recv_file`: it opens a connection for its block and
stores what comes into the mapping of the file. -/
namespace LinuxCat.ReceiverModel
open ByteLayouts Messages FileBlocks MemoryStores

def RECVBUF_SIZE : ℕ := 100

/-- Where `thread_read` is. -/
inductive ReaderPc
  | recv
  /-- action 5, at `sem_wait(&sem[0])`, at the `memcpy`, at `sem_post(&sem[1])`, at the
  `pthread_create` -/
  | waiting (pmsg : Msg)
  | copying (pmsg : Msg)
  | posting
  | creating
  | exited
  deriving DecidableEq, Repr

/-- Where a thread is in `recv_file`; `fp` counts from the start of the mapping. -/
inductive FilePc
  /-- at `sem_wait(&sem[1])`, at the `memcpy`, at `sem_post(&sem[0])` -/
  | created
  | copying
  | posting (omsg : Msg)
  /-- at `Create_sock`, at the `write` -/
  | opening (omsg : Msg)
  | writing (omsg : Msg) (sockfd1 : ℕ)
  | receiving (omsg : Msg) (sockfd1 : ℕ) (fp : ℤ)
  | closing (sockfd1 : ℕ)
  | ended
  deriving DecidableEq, Repr

/-- `omsg` is the variable of `thread_read`; `gconn` holds what each `mbegin` points to; `fault`
is set by an access outside an object. -/
structure Receiver where
  reader : ReaderPc
  sem0 : ℕ
  sem1 : ℕ
  omsg : Msg
  threads : List FilePc
  gconn : List (Option Bytes)
  fault : Bool
  deriving DecidableEq, Repr

def Receiver.start : Receiver where
  reader := .recv
  sem0 := 1
  sem1 := 0
  omsg := .zero
  threads := []
  gconn := List.replicate 20 none
  fault := false

/-- `thread_read` waits for a record, and no thread of `recv_file` is left. -/
structure Receiver.AtRest (rc : Receiver) : Prop where
  reader : rc.reader = .recv
  sem0 : rc.sem0 = 1
  sem1 : rc.sem1 = 0
  threads : rc.threads = []
  gconn : rc.gconn.length = 20
  fault : rc.fault = false

theorem Receiver.atRest_start : Receiver.start.AtRest := ⟨rfl, rfl, rfl, rfl, rfl, rfl⟩

/-- Action -3: the file `copy`, which had the content `old`, gets the size of the transfer and
is mapped. -/
def Receiver.caseMinus3 (rc : Receiver) (pmsg : Msg) (old : Bytes) : Receiver :=
  if 0 ≤ pmsg.sfileId ∧ pmsg.sfileId < 20 then
    let map := if 0 < pmsg.filesize then some (pad pmsg.filesize.toNat old) else none
    { rc with gconn := rc.gconn.set pmsg.sfileId.toNat map }
  else { rc with fault := true }

/-- The `switch`; what the other cases print is left out. -/
def Receiver.switch (rc : Receiver) (pmsg : Msg) (old : Bytes) : Receiver :=
  if pmsg.action = -3 then rc.caseMinus3 pmsg old
  else if pmsg.action = 5 then { rc with reader := .waiting pmsg }
  else rc

/-- One step of `thread_read`. `bs` is what its `recv` returns, if that is next. -/
def Receiver.threadRead (rc : Receiver) (bs old : Bytes) : Option Receiver :=
  match rc.reader with
  | .recv =>
    if bs = [] then some { rc with reader := .exited }
    else some (rc.switch (Msg.ofBytes (pad sizeofMsg bs)) old)
  | .waiting pmsg =>
    if 0 < rc.sem0 then some { rc with sem0 := rc.sem0 - 1, reader := .copying pmsg } else none
  | .copying pmsg => some { rc with omsg := pmsg, reader := .posting }
  | .posting => some { rc with sem1 := rc.sem1 + 1, reader := .creating }
  | .creating => some { rc with threads := rc.threads ++ [.created], reader := .recv }
  | .exited => none

/-- The bytes `recv` stores at `gconn[sfile_id].mbegin + fp`. -/
def Receiver.storeAt (rc : Receiver) (sfileId fp : ℤ) (bs : Bytes) : Receiver :=
  if bs = [] then rc
  else
    match rc.gconn[sfileId.toNat]? with
    | some (some map) =>
      if 0 ≤ sfileId ∧ 0 ≤ fp ∧ fp + bs.length ≤ map.length then
        { rc with gconn := rc.gconn.set sfileId.toNat (some (store map fp.toNat bs)) }
      else { rc with fault := true }
    | _ => { rc with fault := true }

def Receiver.setThread (rc : Receiver) (q : ℕ) (pc : FilePc) : Receiver :=
  { rc with threads := rc.threads.set q pc }

end LinuxCat.ReceiverModel
