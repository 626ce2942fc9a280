import LinuxCat.FileBlocks
import LinuxCat.HandlerPool

/-! # A file transfer on the pool of the server

A block needs two workers at once: one that has read its header and looks for the receiver's
connection, and one that serves this connection. Two more hold the sessions of the two users,
and the manager adds none while the queue is no longer than `liveNum`. -/
namespace LinuxCat.TransferDeadlock
open LabelledMachines RingBuffers ThreadPoolModel ServerModel Messages ByteLayouts FileBlocks
  HandlerPool

variable {DB : Type}

/-- The record `log_user` sends. -/
def logUser (name password : Bytes) : Msg :=
  { Msg.zero with action := 1, name := .ofBytes 20 name, password := .ofBytes 20 password }

/-- `peers[c]` opened connection `c`; `heard` are the connections whose record was read. -/
structure TransferState (DB : Type) where
  pool : PoolState ℤ (Server DB) Handler
  peers : List Peer
  heard : List ℤ
  deriving DecidableEq, Repr

inductive TransferAction
  | openSender (j : ℕ)
  | openReceiver (i : ℕ)
  | pool (a : Action ℤ Input)
  deriving DecidableEq, Repr

/-- The connection of the receiver's session. -/
def receiverFd : ℤ := 1

/-- The blocks the receiver has been told of, in order. -/
def notices (s : TransferState DB) : List Msg :=
  s.pool.shared.written.filterMap (fun w =>
    match w with
    | (fd, .record m) => if fd = receiverFd ∧ m.action = 5 then some m else none
    | _ => none)

def handlerOf (s : TransferState DB) (w : ℕ) : Option Handler :=
  (s.pool.workers[w]?).bind (fun k =>
    match k.pc with
    | .running h => some h
    | _ => none)

/-- What the peers let a `recv` of the dispatch loop return, with the connection it then has
heard. No connection ends before its record was read, and no session ends. -/
def received (heads : List Msg) (s : TransferState DB) (h : Handler) : Input → Option (List ℤ)
  | .record m _ =>
    if (s.peers[h.cfd.toNat]?).bind (Peer.record heads) = some m ∧ h.cfd ∉ s.heard then
      some [h.cfd]
    else none
  | .closed => if h.cfd ∈ s.heard then some [] else none
  | _ => none

/-- The connections a step of the pool hears, when the peers allow the step. -/
def permitted (heads : List Msg) (s : TransferState DB) : Action ℤ Input → Option (List ℤ)
  | .call _ => none
  | .task w inp =>
    match handlerOf s w with
    | some ⟨cfd, .recv⟩ => received heads s ⟨cfd, .recv⟩ inp
    | _ => some []
  | _ => some []

/-- `accept` and the task for the new connection. -/
def connect (sql : Sqlite DB) (s : TransferState DB) (peer : Peer) : Option (TransferState DB) :=
  (poolStep (handlerTasks sql) s.pool (.call s.peers.length)).map (fun p =>
    { s with pool := p, peers := s.peers ++ [peer] })

def transferStep (sql : Sqlite DB) (heads : List Msg) (s : TransferState DB) :
    TransferAction → Option (TransferState DB)
  | .openSender j =>
    if j < heads.length ∧ Peer.sender j ∉ s.peers then connect sql s (.sender j) else none
  | .openReceiver i =>
    ((notices s)[i]?).bind (fun m =>
      if Peer.receiver i m ∉ s.peers then connect sql s (.receiver i m) else none)
  | .pool a =>
    (permitted heads s a).bind (fun cs => (poolStep (handlerTasks sql) s.pool a).map (fun p =>
      { s with pool := p, heard := s.heard ++ cs }))

def transferMachine (sql : Sqlite DB) (heads : List Msg) :
    Machine (TransferState DB) TransferAction where
  step := transferStep sql heads

/-- The pool of `main` behind the logins of the two users. -/
def loggedIn (db : DB) (tid : ℕ → ℕ) (sender receiver : Msg) : PoolState ℤ (Server DB) Handler where
  pool := { (serverPool db tid).pool with
    taskQ := [some 0, some 1] ++ List.replicate 98 none
    queueFront := 2
    queueRear := 2
    busyNum := 2 }
  workers := [⟨tid 0, .running ⟨0, .recv⟩⟩, ⟨tid 1, .running ⟨1, .recv⟩⟩, ⟨tid 2, .lock⟩]
  producers := [.done, .done]
  manager := .top
  shared := { Server.start db with
    online := [⟨1, 0, receiver.name.str⟩, ⟨0, 0, sender.name.str⟩]
    written := [(0, .record sender), (1, .record receiver)] }
  enqueued := [0, 1]
  dequeued := [(0, some 0), (1, some 1)]

/-- Connection `c` reaches worker `c`, which reads the login on it. -/
def login (c : ℕ) (m : Msg) (junk : CharArray 20) : List (Action ℤ Input) :=
  [.call c, .add c none, .work c none, .start c, .task c (.record m junk)]

def TransferState.start (db : DB) (tid : ℕ → ℕ) (sender receiver : Msg) : TransferState DB where
  pool := loggedIn db tid sender receiver
  peers := [.session, .session]
  heard := [0, 1]

/-- A block waits for two workers at once and will not get the second. -/
structure Deadlock (heads : List Msg) (s : TransferState DB) : Prop where
  /-- some block has not been relayed: behind a relay its connection is closed -/
  unrelayed : ∃ j < heads.length, ∀ c : ℕ, s.peers[c]? = some (.sender j) →
    ((c : ℤ), Out.close) ∉ s.pool.shared.written
  /-- a live worker holds an idle session, or searches a table without its offset -/
  held : ∀ k ∈ s.pool.workers, k.pc.isLive = true →
    (∃ c : ℕ, s.peers[c]? = some .session ∧ k.pc = .running ⟨c, .recv⟩) ∨
      ∃ c m i, k.pc = .running ⟨c, .search m i⟩ ∧
        ∀ slot ∈ s.pool.shared.findCfd, ¬ (slot.use = 1 ∧ slot.offset = m.offset)
  /-- the connection a search waits for is in the queue -/
  unserved : ∀ k ∈ s.pool.workers, ∀ c m i, k.pc = .running ⟨c, .search m i⟩ →
    ∃ r n : ℕ, s.peers[r]? = some (.receiver n m) ∧
      some (r : ℤ) ∈ readFrom s.pool.pool.taskQ s.pool.pool.queueFront s.pool.pool.queueSize.toNat
  /-- the manager creates no thread -/
  full : ¬ (s.pool.pool.liveNum < s.pool.pool.queueSize ∧
    s.pool.pool.liveNum < s.pool.pool.maxNum)

/-- A step of a task under a pool step. -/
theorem poolStep_task {α σ τ ε : Type} {M : TaskModel α σ τ ε} {s : PoolState α σ τ} {w : ℕ}
    {k : Worker α τ} {x : τ} {e : ε} {r : σ × TaskResult τ} (hk : s.workers[w]? = some k)
    (hpc : k.pc = .running x) (hr : M.step s.shared x e = some r) :
    (poolMachine M).step s (.task w e) = some { s.setWorker w k r.2.pc with shared := r.1 } := by
  simp [poolMachine, poolStep, workerStep, hk, hpc, hr]

/-- A worker reads the record of the connection it serves. -/
theorem transferStep_record {sql : Sqlite DB} {heads : List Msg} {s : TransferState DB} {w : ℕ}
    {k : Worker ℤ Handler} {c : ℕ} {peer : Peer} {m : Msg} {junk : CharArray 20}
    {r : Server DB × TaskResult Handler} (hk : s.pool.workers[w]? = some k)
    (hpc : k.pc = .running ⟨c, .recv⟩) (hpeer : s.peers[c]? = some peer)
    (hm : peer.record heads = some m) (hheard : (c : ℤ) ∉ s.heard)
    (hr : (handlerTasks sql).step s.pool.shared ⟨c, .recv⟩ (.record m junk) = some r) :
    (transferMachine sql heads).step s (.pool (.task w (.record m junk))) =
      some { s with
        pool := { s.pool.setWorker w k r.2.pc with shared := r.1 }
        heard := s.heard ++ [(c : ℤ)] } := by
  have hstep := poolStep_task hk hpc hr
  simp only [poolMachine] at hstep
  simp [transferMachine, transferStep, permitted, handlerOf, received, hk, hpc, hpeer, hm, hheard,
    hstep]

/-- The pool of `main` gets there by the two logins. -/
theorem loggedIn_reachable (sql : Sqlite DB) (db : DB) (tid : ℕ → ℕ) (sender receiver : Msg)
    (junk : CharArray 20) (hs : sender.action = 1) (hr : receiver.action = 1)
    (hps : querypassword sql db junk sender = (db, 1))
    (hpr : querypassword sql db junk receiver = (db, 1)) :
    (poolMachine (handlerTasks sql)).Reachable (serverPool db tid)
      (loggedIn db tid sender receiver) := by
  have hcase {m : Msg} (ha : m.action = 1) (hp : querypassword sql db junk m = (db, 1))
      (srv : Server DB) (hdb : srv.db = db) (cfd : ℤ) :
      (handlerTasks sql).step srv ⟨cfd, .recv⟩ (.record m junk) =
        some ({ srv with online := insertLink srv.online ⟨cfd, 0, m.name.str⟩ }.write cfd
          (.record m), .running ⟨cfd, .recv⟩) := by
    subst hdb
    simp [handlerTasks, threadRead, threadReadPc, dispatch, ha, case1, hp, handlerResult]
  have h₀ := Machine.Reachable.refl (poolMachine (handlerTasks sql)) (serverPool db tid)
  have h₁ := h₀.step (a := .call 0) rfl
  have h₂ := h₁.step (a := .add 0 none) rfl
  have h₃ := h₂.step (a := .work 0 none) rfl
  have h₄ := h₃.step (a := .start 0) rfl
  have h₅ := h₄.step (a := .task 0 (.record sender junk)) (poolStep_task rfl rfl (hcase hs hps _ rfl 0))
  have h₆ := h₅.step (a := .call 1) rfl
  have h₇ := h₆.step (a := .add 1 none) rfl
  have h₈ := h₇.step (a := .work 1 none) rfl
  have h₉ := h₈.step (a := .start 1) rfl
  have h₁₀ := h₉.step (a := .task 1 (.record receiver junk))
    (poolStep_task rfl rfl (hcase hr hpr _ rfl 1))
  exact h₁₀

section FirstBlock
variable (db : DB) (tid : ℕ → ℕ) (sender receiver m : Msg)

/-- The third worker has read the header `m` of the first block. -/
def searching : TransferState DB where
  pool := { loggedIn db tid sender receiver with
    pool := { (loggedIn db tid sender receiver).pool with
      taskQ := [some 0, some 1, some 2] ++ List.replicate 97 none
      queueFront := 3
      queueRear := 3
      busyNum := 3 }
    workers := [⟨tid 0, .running ⟨0, .recv⟩⟩, ⟨tid 1, .running ⟨1, .recv⟩⟩,
      ⟨tid 2, .running ⟨2, .search m 0⟩⟩]
    producers := [.done, .done, .done]
    shared := (loggedIn db tid sender receiver).shared.write 1 (.record m)
    enqueued := [0, 1, 2]
    dequeued := [(0, some 0), (1, some 1), (2, some 2)] }
  peers := [.session, .session, .sender 0]
  heard := [0, 1, 2]

/-- The connection the receiver opened for it is in the queue. -/
def queuing : TransferState DB where
  pool := { (searching db tid sender receiver m).pool with
    pool := { (searching db tid sender receiver m).pool.pool with
      taskQ := [some 0, some 1, some 2, some 3] ++ List.replicate 96 none
      queueSize := 1
      queueRear := 4 }
    producers := [.done, .done, .done, .done]
    enqueued := [0, 1, 2, 3] }
  peers := [.session, .session, .sender 0, .receiver 0 m]
  heard := [0, 1, 2]

variable {db tid sender receiver m}

theorem searching_reachable {sql : Sqlite DB} {ms : List Msg} (junk : CharArray 20)
    (hto : m.toname.str = receiver.name.str) :
    (transferMachine sql (m :: ms)).Reachable (.start db tid sender receiver)
      (searching db tid sender receiver { m with action := 5 }) := by
  have hcase (srv : Server DB) (hon : srv.online =
      [⟨1, 0, receiver.name.str⟩, ⟨0, 0, sender.name.str⟩]) :
      (handlerTasks sql).step srv ⟨2, .recv⟩ (.record { m with action := 5 } junk) =
        some (srv.write 1 (.record { m with action := 5 }),
          .running ⟨2, .search { m with action := 5 } 0⟩) := by
    simp [handlerTasks, threadRead, threadReadPc, dispatch, case5, handlerResult, hon, findFd, hto]
  have h₀ := Machine.Reachable.refl (transferMachine sql (m :: ms)) (.start db tid sender receiver)
  have h₁ := h₀.step (a := .openSender 0) rfl
  have h₂ := h₁.step (a := .pool (.add 2 none)) rfl
  have h₃ := h₂.step (a := .pool (.work 2 none)) rfl
  have h₄ := h₃.step (a := .pool (.start 2)) rfl
  have h₅ := h₄.step (a := .pool (.task 2 (.record { m with action := 5 } junk)))
    (transferStep_record (c := 2) rfl rfl rfl rfl (by simp [TransferState.start]) (hcase _ rfl))
  exact h₅

theorem queuing_reachable {sql : Sqlite DB} {heads : List Msg} (hr : receiver.action = 1)
    (hm : m.action = 5) :
    (transferMachine sql heads).Reachable (searching db tid sender receiver m)
      (queuing db tid sender receiver m) := by
  have hopen : (transferMachine sql heads).step (searching db tid sender receiver m)
      (.openReceiver 0) = connect sql (searching db tid sender receiver m) (.receiver 0 m) := by
    simp [transferMachine, transferStep, notices, searching, loggedIn, Server.write, receiverFd, hr,
      hm]
  have h₀ := Machine.Reachable.refl (transferMachine sql heads) (searching db tid sender receiver m)
  have h₁ := h₀.step (a := .openReceiver 0) (hopen.trans rfl)
  have h₂ := h₁.step (a := .pool (.add 3 none)) rfl
  exact h₂

theorem queuing_deadlock {heads : List Msg} (h : 0 < heads.length) :
    Deadlock heads (queuing db tid sender receiver m) := by
  constructor
  · refine ⟨0, h, fun c hc => ?_⟩
    simp [queuing, searching, loggedIn, Server.write]
  · intro k hk _
    simp only [queuing, searching, List.mem_cons, List.not_mem_nil, or_false] at hk
    rcases hk with rfl | rfl | rfl
    · exact .inl ⟨0, rfl, rfl⟩
    · exact .inl ⟨1, rfl, rfl⟩
    · refine .inr ⟨2, m, 0, rfl, fun slot hslot => ?_⟩
      have hslot : slot ∈ List.replicate 20 (⟨0, 0, 0, .zero 20⟩ : StroSockfd) := hslot
      simp [List.eq_of_mem_replicate hslot]
  · intro k hk c m' i hpc
    simp only [queuing, searching, List.mem_cons, List.not_mem_nil, or_false] at hk
    rcases hk with rfl | rfl | rfl
    · simp at hpc
    · simp at hpc
    · simp only [WorkerPc.running.injEq, Handler.mk.injEq, Pc.search.injEq] at hpc
      obtain ⟨-, rfl, -⟩ := hpc
      exact ⟨3, 0, rfl, List.mem_singleton_self _⟩
  · simp [queuing, searching, loggedIn, serverPool, threadPoolCreate]

end FirstBlock

/-- The server cannot relay a file without a schedule into the deadlock. -/
theorem deadlock_reachable (sql : Sqlite DB) (db : DB) (tid : ℕ → ℕ) (sender receiver pmsg : Msg)
    (n : ℕ) (hn : 0 < n) (hr : receiver.action = 1) (hto : pmsg.toname.str = receiver.name.str) :
    ∃ s, (transferMachine sql (sendFile (fileRequest pmsg n))).Reachable
      (.start db tid sender receiver) s ∧ Deadlock (sendFile (fileRequest pmsg n)) s := by
  obtain ⟨c, hc⟩ : ∃ c, blockCount n = c + 1 :=
    ⟨blockCount n - 1, by simp only [blockCount]; omega⟩
  rw [sendFile_eq, hc, List.range_succ_eq_map, List.map_cons]
  have hname : (head (fileRequest pmsg n) n 0).toname.str = receiver.name.str :=
    (CharArray.str_strcpy _ _).trans hto
  exact ⟨_, (searching_reachable (.zero 20) hname).trans (queuing_reachable hr rfl),
    queuing_deadlock (by simp)⟩

/-- A request for a file to the user whose login is `logUser [98] []`. -/
def toB : Msg := { Msg.zero with toname := .ofBytes 20 [98] }

/-- A file of one byte. -/
theorem oneByte_deadlocks :
    ∃ s, (transferMachine .silent (sendFile (fileRequest toB 1))).Reachable
      (.start () (· + 1) (logUser [97] []) (logUser [98] [])) s ∧
        Deadlock (sendFile (fileRequest toB 1)) s := by
  have hheads : sendFile (fileRequest toB 1) = [head (fileRequest toB 1) 1 0] := sendFile_eq toB 1
  rw [hheads]
  exact ⟨_, (searching_reachable (.zero 20) (by decide)).trans (queuing_reachable rfl rfl),
    queuing_deadlock (by simp)⟩

/-- A file of three blocks. -/
theorem threeBlocks_deadlock :
    ∃ s, (transferMachine .silent (sendFile (fileRequest toB (1200 : ℕ)))).Reachable
      (.start () (· + 1) (logUser [97] []) (logUser [98] [])) s ∧
        Deadlock (sendFile (fileRequest toB (1200 : ℕ))) s :=
  deadlock_reachable .silent () (· + 1) (logUser [97] []) (logUser [98] []) toB 1200
    (by decide) rfl (by decide)

end LinuxCat.TransferDeadlock
