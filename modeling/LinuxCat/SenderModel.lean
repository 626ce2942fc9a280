import LinuxCat.FileBlocks
import LinuxCat.LabelledMachines
import LinuxCat.ServerModel

/-! # The sending client

`send_file` asks the server for a transfer, waits for `thread_read` to signal the answer, maps
the file and starts one thread of `send_filedata` for each block. Calls are numbered in their
order; a thread is its position among all that were created. -/
namespace LinuxCat.SenderModel
open LabelledMachines ByteLayouts Messages FileBlocks ServerModel

/-- What a call of `send_file` holds: its number, its request and the file it has opened. -/
structure Call where
  number : ℕ
  pmsg : Msg
  file : Bytes
  deriving DecidableEq, Repr

/-- Where `send_file` is. Nobody else takes `mutex`. -/
inductive CallerPc
  /-- no call is running -/
  | idle
  /-- the request is written; at `pthread_mutex_lock`, and at `pthread_cond_wait` -/
  | locking (c : Call)
  | locked (c : Call)
  | waiting (c : Call)
  /-- `pthread_cond_wait` returns, signalled or not -/
  | woken (c : Call)
  /-- `sfile_id` is read; at the `mmap` -/
  | mapping (c : Call)
  /-- the headers for which no thread was created yet, and the threads that were -/
  | creating (c : Call) (heads : List Msg) (pids : List ℕ)
  | joining (pids : List ℕ)
  /-- blocked in `pthread_join` of `pid` -/
  | joinBlocked (pid : ℕ) (pids : List ℕ)
  deriving DecidableEq, Repr

/-- Where `thread_read` is: at its `recv`, or between the assignment to `sfile_id` and the
`pthread_cond_signal` of action 3. -/
inductive ReaderPc
  | recv
  | signalling
  | exited
  deriving DecidableEq, Repr

inductive BlockPc
  /-- at `pthread_detach` -/
  | created
  | detached
  /-- the header is written; at the evaluation of `mbegin + omsg->offset` -/
  | headed
  | sending
  | ended
  deriving DecidableEq, Repr

/-- A thread of `send_filedata`: the call that created it, its header, the call whose mapping it
found in `mbegin`, its writes so far and those to come. -/
structure Block where
  call : ℕ
  header : Msg
  pc : BlockPc
  base : Option ℕ
  written : List Bytes
  rest : List Bytes
  deriving DecidableEq, Repr

def Block.new (call : ℕ) (header : Msg) : Block := ⟨call, header, .created, none, [], []⟩

structure Mapping where
  filename : Bytes
  content : Bytes
  deriving DecidableEq, Repr

/-- The client and its connection. `sfileId` and `mbegin` are the globals, `mbegin` as the number
of the call that made the mapping; `maps` holds the mapping of each call. `sent`, `answered` and
`started` are histories: the number of requests, the answers `thread_read` switched on, and the id
each call went on with. -/
structure Sender where
  caller : CallerPc
  reader : ReaderPc
  sfileId : ℤ
  mbegin : Option ℕ
  maps : List Mapping
  threads : List Block
  /-- requests on their way to the server, and its answers to them on their way back -/
  requests : List Msg
  answers : List Msg
  sent : ℕ
  answered : List Msg
  started : List ℤ
  deriving DecidableEq, Repr

def Sender.start : Sender where
  caller := .idle
  reader := .recv
  sfileId := 0
  mbegin := none
  maps := []
  threads := []
  requests := []
  answers := []
  sent := 0
  answered := []
  started := []

inductive SendAction (DB : Type)
  /-- a call of `send_file`, up to its `write` -/
  | call (pmsg : Msg) (file : Bytes)
  /-- the next step of the call -/
  | sendFile
  /-- `pthread_cond_wait` returns without a signal -/
  | spurious
  /-- the server in the state `srv` handles the oldest request -/
  | serve (srv : Server DB)
  /-- `thread_read` handles the next answer, or signals -/
  | threadRead
  /-- `thread_read` handles a record that answers no call -/
  | otherRecord (m : Msg)
  /-- `recv` of `thread_read` returns 0 -/
  | serverExit
  /-- the next step of thread `i` -/
  | block (i : ℕ)

variable {DB : Type}

/-- `st_size` as the `int` field `filesize` takes it. -/
def stSize (file : Bytes) : ℤ := (file.length : ℤ).bmod (2 ^ 32)

def callSendFile (s : Sender) (pmsg : Msg) (file : Bytes) : Option Sender :=
  match s.caller with
  | .idle =>
    let pmsg := fileRequest pmsg (stSize file)
    some { s with
      caller := .locking ⟨s.sent, pmsg, file⟩
      requests := s.requests ++ [pmsg]
      sent := s.sent + 1 }
  | _ => none

def sendFile (s : Sender) : Option Sender :=
  match s.caller with
  | .idle => none
  | .locking c => some { s with caller := .locked c }
  | .locked c => some { s with caller := .waiting c }
  | .waiting _ => none
  | .woken c =>
    some { s with
      caller := .mapping { c with pmsg := { c.pmsg with sfileId := s.sfileId } }
      started := s.started ++ [s.sfileId] }
  | .mapping c =>
    some { s with
      caller := .creating c (FileBlocks.sendFile c.pmsg) []
      mbegin := some c.number
      maps := s.maps ++ [⟨c.pmsg.filename.str, c.file⟩] }
  | .creating _ [] pids => some { s with caller := .joining pids }
  | .creating c (head :: heads) pids =>
    some { s with
      caller := .creating c heads (pids ++ [s.threads.length])
      threads := s.threads ++ [.new c.number head] }
  | .joining [] => some { s with caller := .idle }
  | .joining (pid :: pids) =>
    (s.threads[pid]?).map (fun b =>
      -- a detached thread is not waited for
      if b.pc = .created then { s with caller := .joinBlocked pid pids }
      else { s with caller := .joining pids })
  | .joinBlocked pid pids =>
    (s.threads[pid]?).bind (fun b =>
      if b.pc = .ended then some { s with caller := .joining pids } else none)

def spurious (s : Sender) : Option Sender :=
  match s.caller with
  | .waiting c => some { s with caller := .woken c }
  | _ => none

/-- The record action 3 of the server writes to the connection it has the request from. -/
def answerTo (srv : Server DB) (sockfd : ℤ) (pmsg : Msg) : Option Msg :=
  match (case3 srv sockfd pmsg).1.written.drop srv.written.length with
  | (_, .record m) :: _ => some m
  | _ => none

def serve (sockfd : ℤ) (s : Sender) (srv : Server DB) : Option Sender :=
  match s.requests with
  | [] => none
  | pmsg :: requests =>
    (answerTo srv sockfd pmsg).map (fun m =>
      { s with requests := requests, answers := s.answers ++ [m] })

/-- The `switch`; the other cases leave `send_file` alone. -/
def switch (s : Sender) (pmsg : Msg) : Sender :=
  if pmsg.action = 3 then { s with sfileId := pmsg.sfileId, reader := .signalling } else s

/-- `pthread_cond_signal(&cond_sfile)`. -/
def signal (s : Sender) : Sender :=
  match s.caller with
  | .waiting c => { s with caller := .woken c }
  | _ => s

def threadRead (s : Sender) : Option Sender :=
  match s.reader, s.answers with
  | .recv, m :: answers =>
    some (switch { s with answers := answers, answered := s.answered ++ [m] } m)
  | .signalling, _ => some { signal s with reader := .recv }
  | _, _ => none

/-- The server writes a record with action 3 as an answer only. -/
def otherRecord (s : Sender) (m : Msg) : Option Sender :=
  if s.reader = .recv ∧ m.action ≠ 3 then some (switch s m) else none

def serverExit (s : Sender) : Option Sender :=
  if s.reader = .recv then some { s with reader := .exited } else none

def sendFiledata (s : Sender) (b : Block) : Option Block :=
  match b.pc with
  | .created => some { b with pc := .detached }
  | .detached =>
    some { b with pc := .headed, written := [{ b.header with action := 5 }.toBytes] }
  | .headed =>
    (s.mbegin.bind (fun n => s.maps[n]?)).map (fun map =>
      { b with
        pc := .sending
        base := s.mbegin
        rest := (FileBlocks.sendFiledata map.content b.header).tail })
  | .sending =>
    match b.rest with
    | [] => some { b with pc := .ended }
    | bs :: rest => some { b with written := b.written ++ [bs], rest := rest }
  | .ended => none

def blockStep (s : Sender) (i : ℕ) : Option Sender :=
  (s.threads[i]?).bind (fun b => (sendFiledata s b).map (fun b =>
    { s with threads := s.threads.set i b }))

/-- `sockfd` is the server's descriptor of the connection. -/
def senderStep (sockfd : ℤ) (s : Sender) : SendAction DB → Option Sender
  | .call pmsg file => callSendFile s pmsg file
  | .sendFile => sendFile s
  | .spurious => spurious s
  | .serve srv => serve sockfd s srv
  | .threadRead => threadRead s
  | .otherRecord m => otherRecord s m
  | .serverExit => serverExit s
  | .block i => blockStep s i

def senderMachine (DB : Type) (sockfd : ℤ) : Machine Sender (SendAction DB) where
  step := senderStep sockfd

inductive SenderStep (sockfd : ℤ) (s : Sender) : SendAction DB → Sender → Prop
  | call (pmsg : Msg) (file : Bytes) (hpc : s.caller = .idle) :
      SenderStep sockfd s (.call pmsg file) { s with
        caller := .locking ⟨s.sent, fileRequest pmsg (stSize file), file⟩
        requests := s.requests ++ [fileRequest pmsg (stSize file)]
        sent := s.sent + 1 }
  | lock (c : Call) (hpc : s.caller = .locking c) :
      SenderStep sockfd s .sendFile { s with caller := .locked c }
  | wait (c : Call) (hpc : s.caller = .locked c) :
      SenderStep sockfd s .sendFile { s with caller := .waiting c }
  | goOn (c : Call) (hpc : s.caller = .woken c) :
      SenderStep sockfd s .sendFile { s with
        caller := .mapping { c with pmsg := { c.pmsg with sfileId := s.sfileId } }
        started := s.started ++ [s.sfileId] }
  | map (c : Call) (hpc : s.caller = .mapping c) :
      SenderStep sockfd s .sendFile { s with
        caller := .creating c (FileBlocks.sendFile c.pmsg) []
        mbegin := some c.number
        maps := s.maps ++ [⟨c.pmsg.filename.str, c.file⟩] }
  | create (c : Call) (head : Msg) (heads : List Msg) (pids : List ℕ)
      (hpc : s.caller = .creating c (head :: heads) pids) :
      SenderStep sockfd s .sendFile { s with
        caller := .creating c heads (pids ++ [s.threads.length])
        threads := s.threads ++ [.new c.number head] }
  /-- the end of the creation, the joins and the return -/
  | join (caller : CallerPc)
      (hpc : (∃ c pids, s.caller = .creating c [] pids) ∨ (∃ pids, s.caller = .joining pids) ∨
        ∃ pid pids, s.caller = .joinBlocked pid pids)
      (hcaller : caller = .idle ∨ (∃ pids, caller = .joining pids) ∨
        ∃ pid pids, caller = .joinBlocked pid pids) :
      SenderStep sockfd s .sendFile { s with caller := caller }
  | spurious (c : Call) (hpc : s.caller = .waiting c) :
      SenderStep sockfd s .spurious { s with caller := .woken c }
  | serve (srv : Server DB) (pmsg : Msg) (requests : List Msg) (m : Msg)
      (hrequests : s.requests = pmsg :: requests) (hm : answerTo srv sockfd pmsg = some m) :
      SenderStep sockfd s (.serve srv) { s with requests := requests, answers := s.answers ++ [m] }
  | read (m : Msg) (answers : List Msg) (hpc : s.reader = .recv) (hanswers : s.answers = m :: answers) :
      SenderStep sockfd s .threadRead
        (switch { s with answers := answers, answered := s.answered ++ [m] } m)
  | signal (hpc : s.reader = .signalling) :
      SenderStep sockfd s .threadRead { signal s with reader := .recv }
  | otherRecord (m : Msg) (hpc : s.reader = .recv) (hact : m.action ≠ 3) :
      SenderStep sockfd s (.otherRecord m) s
  | serverExit (hpc : s.reader = .recv) :
      SenderStep sockfd s .serverExit { s with reader := .exited }
  | block (i : ℕ) (b b' : Block) (hb : s.threads[i]? = some b) (hstep : sendFiledata s b = some b') :
      SenderStep sockfd s (.block i) { s with threads := s.threads.set i b' }

theorem sendFile_step {sockfd : ℤ} {s t : Sender} (h : sendFile s = some t) :
    SenderStep sockfd s (.sendFile : SendAction DB) t := by
  unfold sendFile at h
  split at h
  next => cases h
  next c hpc => cases h; exact .lock c hpc
  next c hpc => cases h; exact .wait c hpc
  next => cases h
  next c hpc => cases h; exact .goOn c hpc
  next c hpc => cases h; exact .map c hpc
  next c pids hpc =>
    cases h
    exact .join _ (.inl ⟨c, pids, hpc⟩) (.inr (.inl ⟨pids, rfl⟩))
  next c head heads pids hpc => cases h; exact .create c head heads pids hpc
  next hpc =>
    cases h
    exact .join _ (.inr (.inl ⟨[], hpc⟩)) (.inl rfl)
  next pid pids hpc =>
    obtain ⟨b, -, rfl⟩ := Option.map_eq_some_iff.mp h
    split_ifs
    · exact .join _ (.inr (.inl ⟨_, hpc⟩)) (.inr (.inr ⟨pid, pids, rfl⟩))
    · exact .join _ (.inr (.inl ⟨_, hpc⟩)) (.inr (.inl ⟨pids, rfl⟩))
  next pid pids hpc =>
    obtain ⟨b, -, h⟩ := Option.bind_eq_some_iff.mp h
    split_ifs at h
    cases h
    exact .join _ (.inr (.inr ⟨pid, pids, hpc⟩)) (.inr (.inl ⟨pids, rfl⟩))

theorem senderStep_cases {sockfd : ℤ} {s t : Sender} {a : SendAction DB}
    (h : senderStep sockfd s a = some t) : SenderStep sockfd s a t := by
  cases a with
  | call pmsg file =>
    simp only [senderStep, callSendFile] at h
    split at h
    next hpc => cases h; exact .call pmsg file hpc
    next => cases h
  | sendFile => exact sendFile_step h
  | spurious =>
    simp only [senderStep, SenderModel.spurious] at h
    split at h
    next c hpc => cases h; exact .spurious c hpc
    next => cases h
  | serve srv =>
    simp only [senderStep, SenderModel.serve] at h
    split at h
    next => cases h
    next pmsg requests hrequests =>
      obtain ⟨m, hm, rfl⟩ := Option.map_eq_some_iff.mp h
      exact .serve srv pmsg requests m hrequests hm
  | threadRead =>
    simp only [senderStep, threadRead] at h
    split at h
    next m answers hpc hanswers => cases h; exact .read m answers hpc hanswers
    next hpc => cases h; exact .signal hpc
    next => cases h
  | otherRecord m =>
    simp only [senderStep, SenderModel.otherRecord] at h
    split_ifs at h with hm
    rw [switch, if_neg hm.2] at h
    cases h
    exact .otherRecord m hm.1 hm.2
  | serverExit =>
    simp only [senderStep, SenderModel.serverExit] at h
    split_ifs at h with hpc
    cases h
    exact .serverExit hpc
  | block i =>
    simp only [senderStep, blockStep] at h
    obtain ⟨b, hb, h⟩ := Option.bind_eq_some_iff.mp h
    obtain ⟨b', hstep, rfl⟩ := Option.map_eq_some_iff.mp h
    exact .block i b b' hb hstep

theorem eq_blockHead_of_mem_sendFile {pmsg head : Msg} (h : head ∈ FileBlocks.sendFile pmsg) :
    ∃ offset bs, head = blockHead { pmsg with offset := offset } bs := by
  have hfull (n : ℕ) (h : head ∈ (newFbHeads n { pmsg with offset := 0 }).1) :
      ∃ offset bs, head = blockHead { pmsg with offset := offset } bs := by
    rw [newFbHeads_fst] at h
    obtain ⟨j, -, rfl⟩ := List.mem_map.mp h
    exact ⟨_, _, rfl⟩
  simp only [FileBlocks.sendFile] at h
  split_ifs at h
  · exact hfull _ h
  · rcases List.mem_append.mp h with h | h
    · exact hfull _ h
    · rw [List.mem_singleton.mp h, newFbHeads_snd]
      exact ⟨_, _, rfl⟩

/-! ## What is counted -/

/-- The call whose locals are still needed. -/
def CallerPc.call : CallerPc → Option Call
  | .locking c | .locked c | .waiting c | .woken c | .mapping c | .creating c _ _ => some c
  | _ => none

def CallerPc.unstarted : CallerPc → ℕ
  | .locking _ | .locked _ | .waiting _ | .woken _ => 1
  | _ => 0

def CallerPc.unmapped : CallerPc → ℕ
  | .locking _ | .locked _ | .waiting _ | .woken _ | .mapping _ => 1
  | _ => 0

/-- Calls, mappings and requests are counted alike, and the last call is the one that runs. -/
structure Numbered (s : Sender) : Prop where
  calls : s.started.length + s.caller.unstarted = s.sent
  maps : s.maps.length + s.caller.unmapped = s.sent
  number : ∀ c, s.caller.call = some c → c.number + 1 = s.sent

/-- Requests and answers are counted alike, and `sfile_id` is the one of the last answer. -/
structure Counted (s : Sender) : Prop extends Numbered s where
  requests : s.answered.length + s.answers.length + s.requests.length = s.sent
  sfileId : ∀ m, s.answered.getLast? = some m → m.action = 3 → s.sfileId = m.sfileId

theorem counted_start : Counted Sender.start :=
  ⟨⟨rfl, rfl, by simp [Sender.start, CallerPc.call]⟩, rfl, by simp [Sender.start]⟩

section Frames
variable {s t : Sender}

theorem Numbered.move (h : Numbered s) (hsent : t.sent = s.sent)
    (hcalls : t.started.length + t.caller.unstarted = s.started.length + s.caller.unstarted)
    (hmaps : t.maps.length + t.caller.unmapped = s.maps.length + s.caller.unmapped)
    (hnumber : ∀ c, t.caller.call = some c → ∃ c', s.caller.call = some c' ∧ c'.number = c.number) :
    Numbered t := by
  refine ⟨hcalls.trans (h.calls.trans hsent.symm), hmaps.trans (h.maps.trans hsent.symm),
    fun c hc => ?_⟩
  obtain ⟨c', hc', heq⟩ := hnumber c hc
  rw [hsent, ← heq]
  exact h.number c' hc'

/-- A step of the running call that is not about requests and answers. -/
theorem Counted.move (h : Counted s) (ht : Numbered t) (hsent : t.sent = s.sent)
    (hrequests : t.requests = s.requests) (hanswers : t.answers = s.answers)
    (hanswered : t.answered = s.answered) (hid : t.sfileId = s.sfileId) : Counted t where
  toNumbered := ht
  requests := by rw [hrequests, hanswers, hanswered, hsent]; exact h.requests
  sfileId := by rw [hanswered, hid]; exact h.sfileId

end Frames

theorem counted_step {sockfd : ℤ} {s t : Sender} {a : SendAction DB} (h : Counted s)
    (hstep : senderStep sockfd s a = some t) : Counted t := by
  have hrequests := h.requests
  have hcalls := h.calls
  have hmaps := h.maps
  cases senderStep_cases hstep with
  | call pmsg file hpc =>
    rw [hpc] at hcalls hmaps
    simp only [CallerPc.unstarted, CallerPc.unmapped] at hcalls hmaps
    refine ⟨⟨?_, ?_, fun c hc => ?_⟩, ?_, h.sfileId⟩
    · simpa [CallerPc.unstarted] using hcalls
    · simpa [CallerPc.unmapped] using hmaps
    · cases hc
      rfl
    · simp only [List.length_append, List.length_singleton]
      omega
  | lock c hpc =>
    refine h.move (h.toNumbered.move rfl ?_ ?_ ?_) rfl rfl rfl rfl rfl <;>
      simp [hpc, CallerPc.unstarted, CallerPc.unmapped, CallerPc.call]
  | wait c hpc =>
    refine h.move (h.toNumbered.move rfl ?_ ?_ ?_) rfl rfl rfl rfl rfl <;>
      simp [hpc, CallerPc.unstarted, CallerPc.unmapped, CallerPc.call]
  | goOn c hpc =>
    refine h.move (h.toNumbered.move rfl ?_ ?_ ?_) rfl rfl rfl rfl rfl <;>
      simp [hpc, CallerPc.unstarted, CallerPc.unmapped, CallerPc.call]
  | map c hpc =>
    refine h.move (h.toNumbered.move rfl ?_ ?_ ?_) rfl rfl rfl rfl rfl <;>
      simp [hpc, CallerPc.unstarted, CallerPc.unmapped, CallerPc.call]
  | create c head heads pids hpc =>
    refine h.move (h.toNumbered.move rfl ?_ ?_ ?_) rfl rfl rfl rfl rfl <;>
      simp [hpc, CallerPc.unstarted, CallerPc.unmapped, CallerPc.call]
  | join caller hpc hcaller =>
    have hbefore : s.caller.unstarted = 0 ∧ s.caller.unmapped = 0 := by
      obtain ⟨c, pids, hpc⟩ | ⟨pids, hpc⟩ | ⟨pid, pids, hpc⟩ := hpc <;> rw [hpc] <;> exact ⟨rfl, rfl⟩
    have hafter : caller.unstarted = 0 ∧ caller.unmapped = 0 ∧ caller.call = none := by
      obtain rfl | ⟨pids, rfl⟩ | ⟨pid, pids, rfl⟩ := hcaller <;> exact ⟨rfl, rfl, rfl⟩
    refine h.move (h.toNumbered.move rfl ?_ ?_ ?_) rfl rfl rfl rfl rfl <;> simp [hbefore, hafter]
  | spurious c hpc =>
    refine h.move (h.toNumbered.move rfl ?_ ?_ ?_) rfl rfl rfl rfl rfl <;>
      simp [hpc, CallerPc.unstarted, CallerPc.unmapped, CallerPc.call]
  | serve srv pmsg requests m hreq hm =>
    refine ⟨⟨hcalls, hmaps, h.number⟩, ?_, h.sfileId⟩
    rw [hreq, List.length_cons] at hrequests
    simp only [List.length_append, List.length_singleton]
    omega
  | read m answers hpc hanswers =>
    rw [hanswers, List.length_cons] at hrequests
    have hread : (s.answered ++ [m]).length + answers.length + s.requests.length = s.sent := by
      simp only [List.length_append, List.length_singleton]
      omega
    unfold switch
    split
    · refine ⟨⟨hcalls, hmaps, h.number⟩, hread, fun m' hm' _ => ?_⟩
      rw [List.getLast?_concat] at hm'
      rw [Option.some.inj hm']
    · next hact =>
      refine ⟨⟨hcalls, hmaps, h.number⟩, hread, fun m' hm' hact' => ?_⟩
      rw [List.getLast?_concat] at hm'
      exact absurd (Option.some.inj hm' ▸ hact') hact
  | signal hpc =>
    unfold signal
    split
    · next c hcaller =>
      refine h.move (h.toNumbered.move rfl ?_ ?_ ?_) rfl rfl rfl rfl rfl <;>
        simp [hcaller, CallerPc.unstarted, CallerPc.unmapped, CallerPc.call]
    · exact ⟨⟨hcalls, hmaps, h.number⟩, hrequests, h.sfileId⟩
  | otherRecord m hpc hact => exact h
  | serverExit hpc => exact ⟨⟨hcalls, hmaps, h.number⟩, hrequests, h.sfileId⟩
  | block i b b' hb hb' => exact ⟨⟨hcalls, hmaps, h.number⟩, hrequests, h.sfileId⟩

end LinuxCat.SenderModel
