import LinuxCat.FileBlocks
import LinuxCat.ServerStreams

/-! # File data behind a header

A block's connection carries one record and then the bytes of a file. The handler leaves the
dispatch loop for good when it finds the receiver of the block, and stays in it, in front of
the data, when it does not. -/
namespace LinuxCat.ServerModel
open LabelledMachines ByteLayouts Messages StreamReads FileBlocks WaitQueues

variable {DB : Type} {sql : Sqlite DB}

/-- Who writes on a connection: a user, or the thread of a block of the file at `mbegin`. -/
inductive Writer
  | user (bs : Bytes)
  | block (mbegin : Bytes) (omsg : Msg)
  deriving DecidableEq, Repr

def Writer.stream : Writer → Bytes
  | .user bs => bs
  | .block mbegin omsg => (sendFiledata mbegin omsg).flatten

def Writer.isBlock : Writer → Bool
  | .user _ => false
  | .block _ _ => true

/-- No byte behind the header of a block was taken for part of a request. -/
def DataUnread (writer : ℕ → Writer) (s : StreamState DB) : Prop :=
  ∀ r ∈ s.recvs, (writer r.conn).isBlock = true → r.pos + r.read.bytes.length ≤ sizeofMsg

/-- The header on which the thread of a block's connection switches in this step. -/
def headerRead (writer : ℕ → Writer) (s : StreamState DB) (a : StreamAction) : Option Msg :=
  if (writer a.conn).isBlock then
    (s.consumed[a.conn]?).bind (fun pos => (feed (writer a.conn).stream pos a).bind (fun f =>
      (s.server.handlers[a.conn]?).bind (fun k =>
        ((requested k.pc f.inp).map Prod.fst).filter (fun m => m.action = 5))))
  else none

/-- If the step switches on a block's header, its receiver is online. -/
def ReceiverOnline (writer : ℕ → Writer) (s : StreamState DB) (a : StreamAction) : Prop :=
  ∀ m ∈ headerRead writer s a, findFd s.server.srv.online m.toname.str ≠ -1

instance (writer : ℕ → Writer) (s : StreamState DB) (a : StreamAction) :
    Decidable (ReceiverOnline writer s a) :=
  inferInstanceAs (Decidable (∀ m ∈ headerRead writer s a, _))

theorem ReceiverOnline.findFd_ne {writer : ℕ → Writer} {s : StreamState DB} {a : StreamAction}
    {pos : ℕ} {f : Fed} {k : Handler} {m : Msg} {junk : CharArray 20}
    (h : ReceiverOnline writer s a) (hb : (writer a.conn).isBlock = true)
    (hpos : s.consumed[a.conn]? = some pos) (hf : feed (writer a.conn).stream pos a = some f)
    (hk : s.server.handlers[a.conn]? = some k) (hreq : requested k.pc f.inp = some (m, junk))
    (hm : m.action = 5) : findFd s.server.srv.online m.toname.str ≠ -1 := by
  refine h m ?_
  simp [headerRead, hb, hpos, hf, hk, hreq, hm, Option.filter]

theorem Msg.action_ofBytes (bs : Bytes) : (Msg.ofBytes bs).action = leInt (bs.take 4) := rfl

/-- The first bytes of a block's stream are an action 5, however few of them there are. -/
theorem action_of_piece {mbegin : Bytes} {omsg : Msg} {p : Bytes}
    (hp : p = (Writer.block mbegin omsg).stream.take p.length) (hne : p ≠ []) :
    (Msg.ofBytes (pad sizeofMsg p)).action = 5 := by
  obtain ⟨rest, hrest⟩ : ∃ rest, (Writer.block mbegin omsg).stream = 5 :: 0 :: 0 :: 0 :: rest :=
    ⟨_, rfl⟩
  rw [hrest] at hp
  have hpad : pad 4 p = [5, 0, 0, 0] := by
    match p with
    | [] => exact absurd rfl hne
    | [a] | [a, b] | [a, b, c] =>
      simp only [List.length_cons, List.length_nil, List.take_succ_cons, List.take_zero,
        List.cons.injEq] at hp
      simp [pad, hp]
    | a :: b :: c :: d :: q =>
      simp only [List.length_cons, List.take_succ_cons, List.cons.injEq] at hp
      obtain ⟨ha, hb, hc, hd, -⟩ := hp
      simp [pad, ha, hb, hc, hd]
  rw [Msg.action_ofBytes, take_pad (by decide), hpad]
  rfl

/-- The thread has found the receiver of its block. -/
def Pc.pastHeader (pc : Pc) : Prop := (∃ m i, pc = .search m i) ∨ pc.relaying = true

/-- Nothing of its connection was read, and the thread is at its `recv` or on the way back. -/
def Pc.beforeHeader (pc : Pc) : Prop := pc = .recv ∨ ∃ m, pc = .insertPerson m

/-- Every block's handler is in front of the header, or past it for good. -/
structure HeadersFirst (writer : ℕ → Writer) (s : StreamState DB) : Prop where
  data : DataUnread writer s
  length : s.consumed.length = s.server.handlers.length
  blocks : ∀ c k pos, (writer c).isBlock = true → s.server.handlers[c]? = some k →
    s.consumed[c]? = some pos → k.pc.pastHeader ∨ (k.pc.beforeHeader ∧ pos = 0)

theorem headersFirst_start (writer : ℕ → Writer) (srv : Server DB) :
    HeadersFirst writer (.start srv) where
  data := by simp [DataUnread, StreamState.start]
  length := rfl
  blocks := by simp [StreamState.start, ServerState.start]

theorem dispatch_zero {srv : Server DB} {cfd : ℤ} {junk : CharArray 20} :
    (dispatch sql junk srv cfd .zero).2.beforeHeader := by
  have hcase : dispatch sql junk srv cfd .zero = case0 sql junk srv cfd .zero := if_pos rfl
  rw [hcase]
  simp only [case0]
  split_ifs
  · exact .inl rfl
  · exact .inr ⟨_, rfl⟩

theorem dispatch_header {srv : Server DB} {cfd : ℤ} {junk : CharArray 20} {m : Msg}
    (hm : m.action = 5) (hon : findFd srv.online m.toname.str ≠ -1) :
    (dispatch sql junk srv cfd m).2.pastHeader := by
  rw [dispatch_eq_case5 hm]
  simp only [case5, if_neg hon]
  exact .inl ⟨_, _, rfl⟩

/-- A handler past the header stays there. -/
theorem threadReadPc_pastHeader {srv : Server DB} {cfd : ℤ} {pc : Pc} {inp : Input}
    {r : Server DB × Pc} (hpc : pc.pastHeader) (h : threadReadPc sql srv cfd pc inp = some r) :
    r.2.pastHeader := by
  rcases hpc with ⟨m, i, rfl⟩ | hpc
  · simp only [threadReadPc] at h
    split_ifs at h
    rcases searchSlot_search h with ⟨j, hj⟩ | hrel
    · exact .inl ⟨m, j, hj⟩
    · exact .inr hrel
  · exact .inr (threadReadPc_relaying hpc h)

/-- What a block's handler does next, in front of the header. -/
theorem threadReadPc_beforeHeader {mbegin : Bytes} {omsg : Msg} {a : StreamAction} {f : Fed}
    {srv : Server DB} {k : Handler} {r : Server DB × Pc} (hpc : k.pc.beforeHeader)
    (hf : feed (Writer.block mbegin omsg).stream 0 a = some f)
    (hon : ∀ m junk, requested k.pc f.inp = some (m, junk) → m.action = 5 →
      findFd srv.online m.toname.str ≠ -1)
    (h : threadReadPc sql srv k.cfd k.pc f.inp = some r) :
    r.2.pastHeader ∨ (r.2.beforeHeader ∧ f.taken = 0) := by
  rcases feed_cases hf with ⟨junk, read, hinp, -, htaken, hbytes, -, hne⟩ | ⟨-, htaken, hinp⟩ |
    ⟨-, hinp⟩
  · rw [hinp] at h hon
    obtain ⟨hrecv, hreq⟩ := threadReadPc_read h
    by_cases hb : read.bytes = []
    · obtain rfl := hne hb
      simp only [hrecv, recvInput, threadReadPc, Option.some.injEq] at h
      subst h
      exact .inr ⟨dispatch_zero, htaken⟩
    · obtain ⟨bs, rfl⟩ : ∃ bs, read = .piece bs := by
        cases read with
        | failed => exact absurd rfl hb
        | piece bs => exact ⟨bs, rfl⟩
      have hact := action_of_piece hbytes hb
      simp only [hrecv, recvInput, threadReadPc, Option.some.injEq] at h
      subst h
      exact .inl (dispatch_header hact (hon _ _ hreq hact))
  · rcases hpc with hpc | ⟨m, hpc⟩ <;> rcases hinp with hinp | hinp <;>
      simp only [hpc, hinp, threadReadPc, reduceCtorEq, if_false, if_true] at h
    · cases h
      exact .inl (.inr rfl)
    · cases h
      exact .inr ⟨.inl rfl, htaken⟩
  · exact .inl (.inr (threadReadPc_data hinp h))

theorem headersFirst_accept {writer : ℕ → Writer} {s : StreamState DB} (h : HeadersFirst writer s)
    (cfd : ℤ) : HeadersFirst writer { s with
      server := { s.server with handlers := s.server.handlers ++ [⟨cfd, .recv⟩] }
      consumed := s.consumed ++ [0] } := by
  refine ⟨h.data, by simp [h.length], fun c k pos hb hk hpos => ?_⟩
  obtain ⟨rfl, rfl⟩ | hk := getElem?_concat_cases hk
  · rw [← h.length, List.getElem?_concat_length] at hpos
    cases hpos
    exact .inr ⟨.inl rfl, rfl⟩
  · rw [List.getElem?_append_left (h.length ▸ (List.getElem?_eq_some_iff.mp hk).1)] at hpos
    exact h.blocks c k pos hb hk hpos

/-- A `recv` of the dispatch loop stays within the header. -/
theorem HeadersFirst.recv_le {writer : ℕ → Writer} {s : StreamState DB} {a : StreamAction}
    {pos : ℕ} {f : Fed} {k : Handler} {r : Server DB × Pc} (h : HeadersFirst writer s)
    (hb : (writer a.conn).isBlock = true) (hpos : s.consumed[a.conn]? = some pos)
    (hf : feed (writer a.conn).stream pos a = some f) (hk : s.server.handlers[a.conn]? = some k)
    (hr : threadReadPc sql s.server.srv k.cfd k.pc f.inp = some r) :
    ∀ x ∈ f.log, x.pos + x.read.bytes.length ≤ sizeofMsg := by
  intro x hx
  rcases feed_cases hf with ⟨junk, read, hinp, hlog, -, -, hlen, -⟩ | ⟨hlog, -⟩ | ⟨hlog, -⟩
  · obtain rfl : x = ⟨a.conn, pos, read⟩ := by simpa [hlog] using hx
    have hrecv := (threadReadPc_read (hinp ▸ hr)).1
    rcases h.blocks _ k pos hb hk hpos with (⟨m, i, hpc⟩ | hpc) | ⟨-, rfl⟩
    · rw [hrecv] at hpc
      cases hpc
    · rw [hrecv] at hpc
      cases hpc
    · simpa using hlen
  · simp [hlog] at hx
  · simp [hlog] at hx

/-- Where the handler of a block is behind its step. -/
theorem HeadersFirst.next {writer : ℕ → Writer} {s : StreamState DB} {a : StreamAction}
    {pos : ℕ} {f : Fed} {k : Handler} {r : Server DB × Pc} (h : HeadersFirst writer s)
    (hon : ReceiverOnline writer s a) (hb : (writer a.conn).isBlock = true)
    (hpos : s.consumed[a.conn]? = some pos) (hf : feed (writer a.conn).stream pos a = some f)
    (hk : s.server.handlers[a.conn]? = some k)
    (hr : threadReadPc sql s.server.srv k.cfd k.pc f.inp = some r) :
    r.2.pastHeader ∨ (r.2.beforeHeader ∧ pos + f.taken = 0) := by
  cases hw : writer a.conn with
  | user bs => simp [hw, Writer.isBlock] at hb
  | block mbegin omsg =>
    rcases h.blocks _ k pos hb hk hpos with hpast | ⟨hbefore, rfl⟩
    · exact .inl (threadReadPc_pastHeader hpast hr)
    · have hf' : feed (Writer.block mbegin omsg).stream 0 a = some f := hw ▸ hf
      have hnext := threadReadPc_beforeHeader hbefore hf'
        (fun m junk hreq hm => hon.findFd_ne hb hpos hf hk hreq hm) hr
      simpa using hnext

theorem headersFirst_step {writer : ℕ → Writer} {s t : StreamState DB} {a : StreamAction}
    (h : HeadersFirst writer s) (hon : ReceiverOnline writer s a)
    (hstep : streamStep sql (fun c => (writer c).stream) s a = some t) : HeadersFirst writer t := by
  obtain ⟨rfl, rfl⟩ | ⟨c, pos, f, k, srv, pc, hpos, rfl, hf, hk, hr, rfl⟩ := streamStep_cases hstep
  · exact headersFirst_accept h _
  refine ⟨fun x hx hb => ?_, by simp [h.length], fun c k' pos' hb hk' hpos' => ?_⟩
  · rcases List.mem_append.mp hx with hx | hx
    · exact h.data x hx hb
    · exact h.recv_le (log_conn hf x hx ▸ hb) hpos hf hk hr x hx
  · obtain ⟨rfl, rfl⟩ | ⟨hc, hk'⟩ := getElem?_set_cases hk'
    · rw [List.getElem?_set_self (List.getElem?_eq_some_iff.mp hpos).1] at hpos'
      cases hpos'
      exact h.next hon hb hpos hf hk hr
    · rw [List.getElem?_set_ne hc] at hpos'
      exact h.blocks c k' pos' hb hk' hpos'

/-- The header of a block of three bytes for user `b`. -/
def lostBlock : Writer := .block [7, 7, 7] { Msg.zero with bs := 3, toname := .ofBytes 20 [98] }

end LinuxCat.ServerModel
