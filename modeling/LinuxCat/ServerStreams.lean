import LinuxCat.ServerRuns
import LinuxCat.StreamReads

/-! # The server on byte streams

What a client writes on a connection is one stream of bytes. `recv` hands the server the next
of them, as many as it likes up to what was asked for, or fails. -/
namespace LinuxCat.ServerModel
open LabelledMachines ByteLayouts Messages StreamReads

variable {DB : Type}

/-- A `recv` of the dispatch loop: where in the stream of its connection, and its result. -/
structure Recv where
  conn : ℕ
  pos : ℕ
  read : Read
  deriving DecidableEq, Repr

/-- `consumed[c]` bytes of connection `c` were read; `recvs` is a history no step reads. -/
structure StreamState (DB : Type) where
  server : ServerState DB
  consumed : List ℕ
  recvs : List Recv
  deriving DecidableEq, Repr

inductive StreamAction
  | accept
  /-- the `recv` of the dispatch loop returns `n` bytes, fails, or finds the stream ended -/
  | recv (c n : ℕ) (junk : CharArray 20)
  | recvFails (c : ℕ) (junk : CharArray 20)
  | recvEnds (c : ℕ)
  /-- a `recv` of `send_file` returns `n` bytes, or fails -/
  | relay (c n : ℕ)
  | relayFails (c : ℕ)
  | go (c : ℕ)
  deriving DecidableEq, Repr

/-- What the handler of connection `c` is given, how many bytes of the stream that takes, and
what the history keeps of it. -/
structure Fed where
  inp : Input
  taken : ℕ
  log : List Recv

/-- What `thread_read` makes of the result. -/
def recvInput (junk : CharArray 20) : Read → Input
  | .failed => .failed junk
  | .piece bs => .record (Msg.ofBytes (pad sizeofMsg bs)) junk

/-- What the stream of connection `c`, read up to `pos`, lets an action give. -/
def feed (stream : Bytes) (pos : ℕ) : StreamAction → Option Fed
  | .accept => none
  | .recv c n junk =>
    if 0 < n ∧ n ≤ sizeofMsg ∧ pos + n ≤ stream.length then
      let read := Read.piece ((stream.drop pos).take n)
      some ⟨recvInput junk read, n, [⟨c, pos, read⟩]⟩
    else none
  | .recvFails c junk => some ⟨recvInput junk .failed, 0, [⟨c, pos, .failed⟩]⟩
  | .recvEnds _ => if pos = stream.length then some ⟨.closed, 0, []⟩ else none
  | .relay _ n =>
    if pos + n ≤ stream.length then some ⟨.data ((stream.drop pos).take n), n, []⟩ else none
  | .relayFails _ => some ⟨.dataFailed, 0, []⟩
  | .go _ => some ⟨.go, 0, []⟩

def StreamAction.conn : StreamAction → ℕ
  | .accept => 0
  | .recv c _ _ | .recvFails c _ | .recvEnds c | .relay c _ | .relayFails c | .go c => c

def streamStep (sql : Sqlite DB) (stream : ℕ → Bytes) (s : StreamState DB) (a : StreamAction) :
    Option (StreamState DB) :=
  match a with
  | .accept => (serverStep sql s.server .accept).map (fun srv =>
      { s with server := srv, consumed := s.consumed ++ [0] })
  | _ =>
    let c := a.conn
    (s.consumed[c]?).bind (fun pos => (feed (stream c) pos a).bind (fun f =>
      (serverStep sql s.server (.serve c f.inp)).map (fun srv =>
        { server := srv
          consumed := s.consumed.set c (pos + f.taken)
          recvs := s.recvs ++ f.log })))

/-- `stream c` is what the client of connection `c` writes. -/
def streamMachine (sql : Sqlite DB) (stream : ℕ → Bytes) : Machine (StreamState DB) StreamAction where
  step := streamStep sql stream

def StreamState.start (srv : Server DB) : StreamState DB := ⟨.start srv, [], []⟩

/-- The two kinds of step. -/
theorem streamStep_cases {sql : Sqlite DB} {stream : ℕ → Bytes} {s t : StreamState DB}
    {a : StreamAction} (h : streamStep sql stream s a = some t) :
    (a = .accept ∧ t = { s with
        server := { s.server with
          handlers := s.server.handlers ++ [⟨s.server.handlers.length, .recv⟩] }
        consumed := s.consumed ++ [0] }) ∨
      ∃ c pos f k srv pc, s.consumed[c]? = some pos ∧ a.conn = c ∧ feed (stream c) pos a = some f ∧
        s.server.handlers[c]? = some k ∧
        threadReadPc sql s.server.srv k.cfd k.pc f.inp = some (srv, pc) ∧
        t = { server := {
                srv := srv
                handlers := s.server.handlers.set c { k with pc := pc }
                history := s.server.history ++ [served sql s.server.srv srv k f.inp] }
              consumed := s.consumed.set c (pos + f.taken)
              recvs := s.recvs ++ f.log } := by
  by_cases ha : a = .accept
  · subst ha
    simp only [streamStep, Option.map_eq_some_iff] at h
    obtain ⟨srv, hstep, rfl⟩ := h
    obtain ⟨-, rfl⟩ | ⟨c, inp, k, srv', pc, hs, -⟩ := serverStep_cases hstep
    · exact .inl ⟨rfl, rfl⟩
    · cases hs
  · have h' : (s.consumed[a.conn]?).bind (fun pos => (feed (stream a.conn) pos a).bind (fun f =>
        (serverStep sql s.server (.serve a.conn f.inp)).map (fun srv =>
          { server := srv
            consumed := s.consumed.set a.conn (pos + f.taken)
            recvs := s.recvs ++ f.log }))) = some t := by
      cases a <;> first | exact absurd rfl ha | exact h
    obtain ⟨pos, hpos, h'⟩ := Option.bind_eq_some_iff.mp h'
    obtain ⟨f, hf, h'⟩ := Option.bind_eq_some_iff.mp h'
    obtain ⟨srv, hstep, rfl⟩ := Option.map_eq_some_iff.mp h'
    obtain ⟨hacc, -⟩ | ⟨c, inp, k, srv', pc, hs, hk, hr, rfl⟩ := serverStep_cases hstep
    · cases hacc
    · cases hs
      exact .inr ⟨_, pos, f, k, srv', pc, hpos, rfl, hf, hk, hr, rfl⟩

/-! ## Handlers that have left the dispatch loop for good -/

/-- The thread is in `send_file`, or behind it. -/
def Pc.relaying : Pc → Bool
  | .relay _ _ _ | .relayRest _ _ _ | .cancelled | .exited | .fault => true
  | _ => false

section Relaying
variable {sql : Sqlite DB} {srv : Server DB} {cfd : ℤ} {m : Msg}

theorem relayLoop_relaying (tofd n : ℤ) : (relayLoop srv cfd m tofd n).2.relaying = true := by
  unfold relayLoop
  split_ifs <;> rfl

theorem relayTest_relaying (tofd n : ℤ) : (relayTest srv cfd m tofd n).2.relaying = true := by
  unfold relayTest
  split_ifs
  · rfl
  · exact relayLoop_relaying tofd n

theorem relayFirst_relaying {tofd n : ℤ} {inp : Input} {r : Server DB × Pc}
    (h : relayFirst srv cfd m tofd n inp = some r) : r.2.relaying = true := by
  unfold relayFirst at h
  split at h
  · split_ifs at h <;> cases h <;> exact relayTest_relaying tofd _
  · cases h
    exact relayTest_relaying tofd n
  · cases h

theorem relaySecond_relaying {tofd n : ℤ} {inp : Input} {r : Server DB × Pc}
    (h : relaySecond srv cfd m tofd n inp = some r) : r.2.relaying = true := by
  unfold relaySecond at h
  split at h
  · split_ifs at h <;> cases h
    · exact relayLoop_relaying tofd _
    · rfl
  · cases h
    exact relayLoop_relaying tofd _
  · cases h

/-- There is no way back from `send_file`. -/
theorem threadReadPc_relaying {pc : Pc} {inp : Input} {r : Server DB × Pc}
    (hpc : pc.relaying = true) (h : threadReadPc sql srv cfd pc inp = some r) :
    r.2.relaying = true := by
  cases pc with
  | relay pmsg tofd n => exact relayFirst_relaying h
  | relayRest pmsg tofd n => exact relaySecond_relaying h
  | cancelled =>
    simp only [threadReadPc] at h
    split_ifs at h
    cases h
    rfl
  | exited => cases h
  | fault => cases h
  | recv => cases hpc
  | insertPerson pmsg => cases hpc
  | notify pmsg toFd => cases hpc
  | search pmsg i => cases hpc
  | register pmsg i => cases hpc
  | spinning => cases hpc

theorem searchSlot_search {i : ℕ} {r : Server DB × Pc} (h : searchSlot srv cfd m i = some r) :
    (∃ j, r.2 = .search m j) ∨ r.2.relaying = true := by
  simp only [searchSlot, Option.map_eq_some_iff] at h
  obtain ⟨slot, -, rfl⟩ := h
  split_ifs
  · refine .inr ?_
    unfold sendFile
    split_ifs <;> rfl
  · exact .inl ⟨_, rfl⟩

end Relaying

/-- An input that `thread_read` can only meet in one place. -/
theorem threadReadPc_read {sql : Sqlite DB} {srv : Server DB} {cfd : ℤ} {pc : Pc} {read : Read}
    {junk : CharArray 20} {r : Server DB × Pc}
    (h : threadReadPc sql srv cfd pc (recvInput junk read) = some r) :
    pc = .recv ∧ requested pc (recvInput junk read) =
      some (Msg.ofBytes (read.buffer sizeofMsg), junk) := by
  have hpc : pc = .recv := by
    cases pc <;> cases read <;>
      simp_all [threadReadPc, recvInput, relayFirst, relaySecond]
  subst hpc
  refine ⟨rfl, ?_⟩
  cases read with
  | failed =>
    simp only [requested, recvInput, Read.buffer, Read.bytes, pad, List.take_nil, List.nil_append,
      List.length_nil, Nat.sub_zero, Msg.ofBytes_zero]
  | piece bs => rfl

/-- Bytes for `send_file` only come to a thread that is in it. -/
theorem threadReadPc_data {sql : Sqlite DB} {srv : Server DB} {cfd : ℤ} {pc : Pc} {inp : Input}
    {r : Server DB × Pc} (hinp : (∃ bs, inp = .data bs) ∨ inp = .dataFailed)
    (h : threadReadPc sql srv cfd pc inp = some r) : r.2.relaying = true := by
  refine threadReadPc_relaying ?_ h
  rcases hinp with ⟨bs, rfl⟩ | rfl <;> cases pc <;> simp_all [threadReadPc, Pc.relaying]

/-- What an action gives to a handler. -/
theorem feed_cases {stream : Bytes} {pos : ℕ} {a : StreamAction} {f : Fed}
    (h : feed stream pos a = some f) :
    (∃ junk read, f.inp = recvInput junk read ∧ f.log = [⟨a.conn, pos, read⟩] ∧
      f.taken = read.bytes.length ∧ read.bytes = (stream.drop pos).take read.bytes.length ∧
      read.bytes.length ≤ sizeofMsg ∧ (read.bytes = [] → read = .failed)) ∨
    (f.log = [] ∧ f.taken = 0 ∧ (f.inp = .closed ∨ f.inp = .go)) ∨
    (f.log = [] ∧ ((∃ bs, f.inp = .data bs) ∨ f.inp = .dataFailed)) := by
  cases a with
  | accept => cases h
  | recv c n junk =>
    simp only [feed] at h
    split_ifs at h with hn
    cases h
    have hlen : ((stream.drop pos).take n).length = n := by
      rw [List.length_take, List.length_drop]
      omega
    refine .inl ⟨junk, _, rfl, rfl, hlen.symm, by simp only [Read.bytes, hlen],
      by simp only [Read.bytes, hlen]; exact hn.2.1, fun he => ?_⟩
    rw [Read.bytes] at he
    rw [he] at hlen
    simp at hlen
    omega
  | recvFails c junk =>
    cases h
    exact .inl ⟨junk, .failed, rfl, rfl, rfl, rfl, by simp [Read.bytes], fun _ => rfl⟩
  | recvEnds c =>
    simp only [feed] at h
    split_ifs at h
    cases h
    exact .inr (.inl ⟨rfl, rfl, .inl rfl⟩)
  | relay c n =>
    simp only [feed] at h
    split_ifs at h
    cases h
    exact .inr (.inr ⟨rfl, .inl ⟨_, rfl⟩⟩)
  | relayFails c =>
    cases h
    exact .inr (.inr ⟨rfl, .inr rfl⟩)
  | go c =>
    cases h
    exact .inr (.inl ⟨rfl, rfl, .inr rfl⟩)

theorem log_conn {pos : ℕ} {a : StreamAction} {f : Fed} {bs : Bytes} (hf : feed bs pos a = some f) :
    ∀ r ∈ f.log, r.conn = a.conn := by
  rcases feed_cases hf with ⟨junk, read, -, hlog, -⟩ | ⟨hlog, -⟩ | ⟨hlog, -⟩ <;> simp [hlog]

end LinuxCat.ServerModel
