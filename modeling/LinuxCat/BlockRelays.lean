import LinuxCat.FileBlocks
import LinuxCat.LabelledMachines
import LinuxCat.ServerModel
import Mathlib.Data.PNat.Basic

/-! # One block through the server

`send_file` of the server on the stream its peer sends. The label of a step is how many bytes are
ready when a plain `recv` looks for them; a `recv` with `MSG_WAITALL` waits for all it asked for. -/
namespace LinuxCat.ServerModel
open LabelledMachines LabelledMachines.Machine ByteLayouts Messages

variable {DB : Type}

/-- What a `recv` returns behind the last byte of a stream: 0, or -1. -/
inductive Ending
  | eof
  | failing
  deriving DecidableEq, Repr

def Ending.input : Ending → Input
  | .eof => .data []
  | .failing => .dataFailed

/-- `recv(cofd, fp, RECVBUF_SIZE, MSG_WAITALL)`, and what is left of the stream. -/
def recvWaitall (ending : Ending) (rest : Bytes) : Input × Bytes :=
  if rest = [] then (ending.input, []) else (.data (rest.take RECVBUF_SIZE), rest.drop RECVBUF_SIZE)

/-- `recv(cofd, fp, remain_size, 0)`; a negative length is a huge one. -/
def recvPlain (ending : Ending) (rest : Bytes) (remainSize : ℤ) (ready : ℕ+) : Input × Bytes :=
  let k := if 0 ≤ remainSize then min remainSize.toNat ready else ready
  if rest = [] then (ending.input, []) else (.data (rest.take k), rest.drop k)

/-- The value of `size` behind a `recv`. -/
def Input.size : Input → ℤ
  | .data bs => bs.length
  | .dataFailed => -1
  | _ => 0

/-- The thread in `send_file`, the stream it has still to read, the bytes of the block it takes to
be missing, and the lengths it has called `recv` and `write` with. -/
structure Relay (DB : Type) where
  srv : Server DB
  pc : Pc
  rest : Bytes
  remain : ℤ
  lengths : List ℤ
  deriving DecidableEq, Repr

/-- One `recv` of `send_file` and what follows it, up to the next. -/
def relayStep (sql : Sqlite DB) (cofd : ℤ) (ending : Ending) (s : Relay DB) (ready : ℕ+) :
    Option (Relay DB) :=
  match s.pc with
  | .relay _ _ _ =>
    let r := recvWaitall ending s.rest
    (threadReadPc sql s.srv cofd s.pc r.1).map (fun x =>
      { srv := x.1
        pc := x.2
        rest := r.2
        remain := if 0 < r.1.size then s.remain - r.1.size else s.remain
        lengths := s.lengths ++ (RECVBUF_SIZE : ℤ) :: if 0 < r.1.size then [r.1.size] else [] })
  | .relayRest _ _ remainSize =>
    let r := recvPlain ending s.rest remainSize ready
    (threadReadPc sql s.srv cofd s.pc r.1).map (fun x =>
      { srv := x.1
        pc := x.2
        rest := r.2
        remain := s.remain - r.1.size
        lengths := s.lengths ++ [remainSize, r.1.size] })
  | _ => none

def relayMachine (sql : Sqlite DB) (cofd : ℤ) (ending : Ending) : Machine (Relay DB) ℕ+ where
  step := relayStep sql cofd ending

/-- The call of `send_file`. -/
def Relay.start (srv : Server DB) (pmsg : Msg) (cofd tofd : ℤ) (stream : Bytes) : Relay DB :=
  let r := sendFile srv pmsg cofd tofd
  ⟨r.1, r.2, stream, pmsg.bs, []⟩

/-- The raw bytes written to `fd`. -/
def relayed (fd : ℤ) (written : List (ℤ × Out)) : Bytes :=
  written.flatMap (fun w =>
    match w.2 with
    | .raw bs => if w.1 = fd then bs else []
    | _ => [])

/-- Where the test of the loop leads, and the test behind the first `recv`. -/
def loopPc (pmsg : Msg) (tofd remainSize : ℤ) : Pc :=
  if 0 < remainSize then .relay pmsg tofd remainSize else .cancelled

def testPc (pmsg : Msg) (tofd remainSize : ℤ) : Pc :=
  if remainSize ≤ pmsg.bs.tmod RECVBUF_SIZE then .relayRest pmsg tofd remainSize
  else loopPc pmsg tofd remainSize

theorem relayed_raw (srv : Server DB) (fd : ℤ) (bs : Bytes) :
    relayed fd (srv.write fd (.raw bs)).written = relayed fd srv.written ++ bs := by
  simp [Server.write, relayed]

theorem relayed_close (srv : Server DB) (fd fd' : ℤ) :
    relayed fd (srv.write fd' .close).written = relayed fd srv.written := by
  simp [Server.write, relayed]

theorem relayLoop_spec (srv : Server DB) (cofd : ℤ) (pmsg : Msg) (tofd n : ℤ) :
    (relayLoop srv cofd pmsg tofd n).2 = loopPc pmsg tofd n ∧
      relayed tofd (relayLoop srv cofd pmsg tofd n).1.written = relayed tofd srv.written := by
  unfold relayLoop loopPc
  split_ifs
  · exact ⟨rfl, rfl⟩
  · exact ⟨rfl, by rw [relayed_close, relayed_close]⟩

theorem relayTest_spec (srv : Server DB) (cofd : ℤ) (pmsg : Msg) (tofd n : ℤ) :
    (relayTest srv cofd pmsg tofd n).2 = testPc pmsg tofd n ∧
      relayed tofd (relayTest srv cofd pmsg tofd n).1.written = relayed tofd srv.written := by
  unfold relayTest testPc
  split_ifs
  · exact ⟨rfl, rfl⟩
  · exact relayLoop_spec srv cofd pmsg tofd n

/-- From one state to a later one `chunk` was passed on, and no length was negative. -/
structure Passes (tofd : ℤ) (s t : Relay DB) (chunk : Bytes) : Prop where
  rest : s.rest = chunk ++ t.rest
  remain : t.remain = s.remain - chunk.length
  relayed : relayed tofd t.srv.written = relayed tofd s.srv.written ++ chunk
  lengths : ∃ ls, t.lengths = s.lengths ++ ls ∧ ∀ l ∈ ls, 0 ≤ l

theorem Passes.refl (tofd : ℤ) (s : Relay DB) : Passes tofd s s [] :=
  ⟨rfl, by simp, by simp, [], by simp, by simp⟩

theorem Passes.trans {tofd : ℤ} {s t u : Relay DB} {bs bs' : Bytes} (h : Passes tofd s t bs)
    (h' : Passes tofd t u bs') : Passes tofd s u (bs ++ bs') := by
  obtain ⟨ls, hls, hpos⟩ := h.lengths
  obtain ⟨ls', hls', hpos'⟩ := h'.lengths
  refine ⟨?_, ?_, ?_, ls ++ ls', by rw [hls', hls, List.append_assoc], ?_⟩
  · rw [h.rest, h'.rest, List.append_assoc]
  · rw [h'.remain, h.remain, List.length_append]
    push_cast
    ring
  · rw [h'.relayed, h.relayed, List.append_assoc]
  · intro l hl
    rcases List.mem_append.mp hl with hl | hl
    · exact hpos l hl
    · exact hpos' l hl

variable {sql : Sqlite DB} {cofd tofd : ℤ} {ending : Ending} {pmsg : Msg} {s : Relay DB}

/-- The first `recv` takes a buffer, or all there is. -/
theorem relayStep_first (sql : Sqlite DB) (cofd : ℤ) (ending : Ending) {n : ℤ}
    (hpc : s.pc = .relay pmsg tofd n) (ready : ℕ+) :
    ∃ t, relayStep sql cofd ending s ready = some t ∧
      Passes tofd s t (s.rest.take RECVBUF_SIZE) ∧
      t.pc = testPc pmsg tofd (n - (s.rest.take RECVBUF_SIZE).length) := by
  simp only [relayStep, hpc]
  by_cases hrest : s.rest = []
  · have htest := relayTest_spec s.srv cofd pmsg tofd n
    have hstep : threadReadPc sql s.srv cofd (.relay pmsg tofd n) ending.input =
        some (relayTest s.srv cofd pmsg tofd n) := by
      cases ending <;> rfl
    have hsize : ¬ 0 < ending.input.size := by
      cases ending <;> simp [Ending.input, Input.size]
    rw [recvWaitall, if_pos hrest, hstep, Option.map_some, if_neg hsize, if_neg hsize, hrest]
    exact ⟨_, rfl, ⟨by simp [hrest], by simp, by simpa using htest.2, _, rfl, by simp⟩,
      by simpa using htest.1⟩
  · have hlen : (s.rest.take RECVBUF_SIZE).length ≤ RECVBUF_SIZE := List.length_take_le _ _
    have hpos : 0 < (s.rest.take RECVBUF_SIZE).length := by
      have := List.length_pos_iff.mpr hrest
      rw [List.length_take]
      simp only [RECVBUF_SIZE]
      omega
    have htest := relayTest_spec (s.srv.write tofd (.raw (s.rest.take RECVBUF_SIZE))) cofd pmsg tofd
      (n - (s.rest.take RECVBUF_SIZE).length)
    rw [relayed_raw] at htest
    have hstep : threadReadPc sql s.srv cofd (.relay pmsg tofd n)
        (.data (s.rest.take RECVBUF_SIZE)) = some (relayTest (s.srv.write tofd
          (.raw (s.rest.take RECVBUF_SIZE))) cofd pmsg tofd
            (n - (s.rest.take RECVBUF_SIZE).length)) := by
      simp only [threadReadPc, relayFirst]
      rw [if_pos hlen, if_pos hpos]
    have hsize : 0 < (Input.data (s.rest.take RECVBUF_SIZE)).size := by
      simp only [Input.size]
      omega
    rw [recvWaitall, if_neg hrest, hstep, Option.map_some, if_pos hsize, if_pos hsize]
    refine ⟨_, rfl, ⟨(List.take_append_drop _ _).symm, rfl, htest.2, _, rfl, ?_⟩, htest.1⟩
    intro l hl
    obtain rfl | rfl := List.mem_pair.mp hl
    · exact Int.natCast_nonneg _
    · exact hsize.le

/-- A plain `recv` that returns bytes, or 0. -/
theorem relayStep_rest (sql : Sqlite DB) (cofd : ℤ) {n : ℤ} (hpc : s.pc = .relayRest pmsg tofd n) (h0 : 0 ≤ n)
    (hn : n ≤ RECVBUF_SIZE) (hend : s.rest ≠ [] ∨ ending = .eof) (ready : ℕ+) :
    ∃ t, relayStep sql cofd ending s ready = some t ∧
      Passes tofd s t (s.rest.take (min n.toNat ready)) ∧
      t.pc = loopPc pmsg tofd (n - (s.rest.take (min n.toNat ready)).length) := by
  have hlen : (s.rest.take (min n.toNat ready)).length ≤ n.toNat := by
    rw [List.length_take]
    omega
  have hloop := relayLoop_spec (s.srv.write tofd (.raw (s.rest.take (min n.toNat ready)))) cofd pmsg
    tofd (n - (s.rest.take (min n.toNat ready)).length)
  rw [relayed_raw] at hloop
  have hstep : threadReadPc sql s.srv cofd (.relayRest pmsg tofd n)
      (.data (s.rest.take (min n.toNat ready))) = some (relayLoop (s.srv.write tofd
        (.raw (s.rest.take (min n.toNat ready)))) cofd pmsg tofd
          (n - (s.rest.take (min n.toNat ready)).length)) := by
    simp only [threadReadPc, relaySecond]
    rw [if_pos (by omega), if_pos (by omega)]
  have hrecv : recvPlain ending s.rest n ready =
      (.data (s.rest.take (min n.toNat ready)), s.rest.drop (min n.toNat ready)) := by
    simp only [recvPlain]
    rw [if_pos h0]
    split_ifs with hrest
    · obtain rfl := hend.resolve_left (not_not_intro hrest)
      simp [hrest, Ending.input]
    · rfl
  simp only [relayStep, hpc, hrecv, hstep, Option.map_some]
  refine ⟨_, rfl, ⟨(List.take_append_drop _ _).symm, rfl, hloop.2, _, rfl, ?_⟩, hloop.1⟩
  intro l hl
  obtain rfl | rfl := List.mem_pair.mp hl
  · exact h0
  · exact Int.natCast_nonneg _

/-- The plain `recv` at a state where it is called with a negative length, or fails. -/
def Relay.Bad (ending : Ending) (s : Relay DB) : Prop :=
  ∃ pmsg tofd n, s.pc = .relayRest pmsg tofd n ∧ (n < 0 ∨ s.rest = [] ∧ ending = .failing)

theorem relayStep_bad {t : Relay DB} {ready : ℕ+} (h : s.Bad ending)
    (hstep : relayStep sql cofd ending s ready = some t) : ∃ l ∈ t.lengths, l < 0 := by
  obtain ⟨pmsg, tofd, n, hpc, hbad⟩ := h
  simp only [relayStep, hpc] at hstep
  obtain ⟨x, -, rfl⟩ := Option.map_eq_some_iff.mp hstep
  rcases hbad with hn | ⟨hrest, rfl⟩
  · exact ⟨n, by simp, hn⟩
  · refine ⟨-1, ?_, by decide⟩
    simp [recvPlain, hrest, Ending.input, Input.size]

/-- The lengths of the calls made stay in the record. -/
theorem relayStep_lengths {t : Relay DB} {ready : ℕ+}
    (hstep : relayStep sql cofd ending s ready = some t) : ∃ ls, t.lengths = s.lengths ++ ls := by
  unfold relayStep at hstep
  split at hstep
  · obtain ⟨x, -, rfl⟩ := Option.map_eq_some_iff.mp hstep
    exact ⟨_, rfl⟩
  · obtain ⟨x, -, rfl⟩ := Option.map_eq_some_iff.mp hstep
    exact ⟨_, rfl⟩
  · cases hstep

/-! ## A stream that is the block -/

/-- `remain_size` while `send_file` runs. -/
def Pc.remainSize : Pc → Option ℤ
  | .relay _ _ n => some n
  | .relayRest _ _ n => some n
  | _ => none

/-- `remain_size` is what the block still lacks, and not negative. -/
def Relay.Counts (s : Relay DB) : Prop :=
  0 ≤ s.remain ∧ ∀ n, s.pc.remainSize = some n → n = s.remain

/-- The stream has all that the block lacks, and no more. -/
structure Relay.Whole (pmsg : Msg) (tofd : ℤ) (s : Relay DB) : Prop where
  rest : s.remain = s.rest.length
  pc : s.pc = .relay pmsg tofd s.remain ∧ s.rest ≠ [] ∨
    s.pc = .relayRest pmsg tofd s.remain ∧ s.remain ≤ RECVBUF_SIZE

theorem Relay.Whole.counts (h : s.Whole pmsg tofd) : s.Counts := by
  refine ⟨by rw [h.rest]; exact Int.natCast_nonneg _, fun n hn => ?_⟩
  rcases h.pc with ⟨hpc, -⟩ | ⟨hpc, -⟩
  · rw [hpc] at hn
    exact (Option.some.inj hn).symm
  · rw [hpc] at hn
    exact (Option.some.inj hn).symm

theorem Passes.remain_eq {t : Relay DB} {chunk : Bytes} (h : Passes tofd s t chunk)
    (hs : s.remain = s.rest.length) : t.remain = t.rest.length := by
  rw [h.remain, hs, h.rest, List.length_append]
  push_cast
  ring

/-- A loop that goes on has its block before it as before. -/
theorem Passes.whole {t : Relay DB} {chunk : Bytes} (h : Passes tofd s t chunk)
    (hs : s.remain = s.rest.length) (hpc : t.pc = loopPc pmsg tofd (s.remain - chunk.length)) :
    t.Whole pmsg tofd ∨ t.pc = .cancelled ∧ t.rest = [] := by
  have hrest := h.remain_eq hs
  rw [← h.remain, loopPc] at hpc
  split_ifs at hpc with hpos
  · refine .inl ⟨hrest, .inl ⟨hpc, ?_⟩⟩
    rw [hrest] at hpos
    exact List.length_pos_iff.mp (by exact_mod_cast hpos)
  · refine .inr ⟨hpc, ?_⟩
    rw [hrest] at hpos
    exact List.length_eq_zero_iff.mp (by omega)

/-- Each step takes something of the stream, or ends the loop. -/
theorem whole_step (sql : Sqlite DB) (cofd : ℤ) (hbs : 0 ≤ pmsg.bs) (h : s.Whole pmsg tofd) (ready : ℕ+) :
    ∃ t chunk, relayStep sql cofd .eof s ready = some t ∧ Passes tofd s t chunk ∧
      (t.Whole pmsg tofd ∧ chunk ≠ [] ∨ t.pc = .cancelled ∧ t.rest = []) := by
  have herr : (0 : ℤ) ≤ pmsg.bs.tmod RECVBUF_SIZE ∧ pmsg.bs.tmod RECVBUF_SIZE ≤ RECVBUF_SIZE :=
    ⟨Int.tmod_nonneg _ hbs, (Int.tmod_lt_of_pos _ (by decide)).le⟩
  have hrest := h.rest
  rcases h.pc with ⟨hpc, hne⟩ | ⟨hpc, hle⟩
  · obtain ⟨t, hstep, hpass, htpc⟩ := relayStep_first sql cofd .eof hpc ready
    have hchunk : s.rest.take RECVBUF_SIZE ≠ [] := by
      simpa [RECVBUF_SIZE] using hne
    refine ⟨t, _, hstep, hpass, ?_⟩
    unfold testPc at htpc
    split_ifs at htpc with htest
    · rw [← hpass.remain] at htpc htest
      exact .inl ⟨⟨hpass.remain_eq hrest, .inr ⟨htpc, by omega⟩⟩, hchunk⟩
    · exact (hpass.whole hrest htpc).imp_left fun ht => ⟨ht, hchunk⟩
  · obtain ⟨t, hstep, hpass, htpc⟩ := relayStep_rest sql cofd hpc (by omega) hle (.inr rfl) ready
    refine ⟨t, _, hstep, hpass, ?_⟩
    by_cases hne : s.rest = []
    · have hnil := hpass.rest
      rw [hne, List.take_nil, List.nil_append] at hnil
      have hzero : s.remain = 0 := by rw [hrest, hne, List.length_nil, Nat.cast_zero]
      rw [hne, List.take_nil, List.length_nil, hzero, loopPc, if_neg (by decide)] at htpc
      exact .inr ⟨htpc, hnil.symm⟩
    · refine (hpass.whole hrest htpc).imp_left fun ht => ⟨ht, ?_⟩
      have hpos := List.length_pos_iff.mpr hne
      have hready := ready.pos
      rw [← List.length_pos_iff, List.length_take]
      omega

/-- The labels of `n` calls of `recv`, the first of which is the `i`-th. -/
def readyFrom (ready : ℕ → ℕ+) (i n : ℕ) : List ℕ+ := (List.range' i n).map ready

theorem run_readyFrom {s u : Relay DB} {ready : ℕ → ℕ+} {i n : ℕ} :
    (relayMachine sql cofd ending).run s (readyFrom ready i (n + 1)) = some u ↔
      ∃ t, relayStep sql cofd ending s (ready i) = some t ∧
        (relayMachine sql cofd ending).run t (readyFrom ready (i + 1) n) = some u := by
  rw [readyFrom, List.range'_succ, List.map_cons]
  exact run_cons_eq_some

theorem eachState_readyFrom {P : Relay DB → Prop} {s t : Relay DB} {ready : ℕ → ℕ+} {i n : ℕ}
    (hs : P s) (hstep : relayStep sql cofd ending s (ready i) = some t)
    (ht : (relayMachine sql cofd ending).EachState P t (readyFrom ready (i + 1) n)) :
    (relayMachine sql cofd ending).EachState P s (readyFrom ready i (n + 1)) := by
  rw [readyFrom, List.range'_succ, List.map_cons]
  refine ⟨hs, fun t' hstep' => ?_⟩
  obtain rfl := Option.some.inj (hstep.symm.trans hstep')
  exact ht

/-- A whole block is relayed, and the loop ends. -/
theorem whole_run (sql : Sqlite DB) (cofd : ℤ) (hbs : 0 ≤ pmsg.bs) (ready : ℕ → ℕ+)
    (hs : s.Whole pmsg tofd) (i : ℕ) :
    ∃ n ≤ s.rest.length + 1, ∃ t,
      (relayMachine sql cofd .eof).run s (readyFrom ready i n) = some t ∧
      t.pc = .cancelled ∧ Passes tofd s t s.rest ∧
      (relayMachine sql cofd .eof).EachState Relay.Counts s (readyFrom ready i n) := by
  induction hk : s.rest.length using Nat.strong_induction_on generalizing s i with
  | _ k ih =>
    subst hk
    obtain ⟨t, chunk, hstep, hpass, hnext⟩ := whole_step sql cofd hbs hs (ready i)
    have hlength : chunk.length + t.rest.length = s.rest.length := by
      rw [hpass.rest, List.length_append]
    rcases hnext with ⟨ht, hchunk⟩ | ⟨hpc, hnil⟩
    · have hpos := List.length_pos_iff.mpr hchunk
      obtain ⟨n, hn, u, hrun, hu, hpass', heach⟩ := ih _ (by omega) ht (i + 1) rfl
      refine ⟨n + 1, by omega, u, run_readyFrom.mpr ⟨t, hstep, hrun⟩, hu, ?_,
        eachState_readyFrom hs.counts hstep heach⟩
      rw [hpass.rest]
      exact hpass.trans hpass'
    · have hzero : t.remain = 0 := by
        rw [hpass.remain_eq hs.rest, hnil, List.length_nil, Nat.cast_zero]
      have ht : t.Counts := ⟨hzero.ge, fun n hn => by rw [hpc] at hn; cases hn⟩
      refine ⟨1, by omega, t, run_readyFrom.mpr ⟨t, hstep, rfl⟩, hpc, ?_,
        eachState_readyFrom hs.counts hstep ht⟩
      rw [hpass.rest, hnil, List.append_nil]
      exact hpass

/-- What `send_filedata` does on its connection. -/
def sendFiledataCalls (mbegin : Bytes) (omsg : Msg) : List Out :=
  (FileBlocks.sendFiledata mbegin omsg).map Out.raw ++ [.close]

/-- `send_file` begins with the whole stream before it. -/
theorem start_relay (srv : Server DB) (pmsg : Msg) (cofd tofd : ℤ) (stream : Bytes)
    (hbs : 0 < pmsg.bs) :
    Relay.start srv pmsg cofd tofd stream =
      ⟨srv, .relay pmsg tofd pmsg.bs, stream, pmsg.bs, []⟩ := by
  simp only [Relay.start, sendFile, if_pos hbs]

theorem sendFiledataCalls_eq (before block after : Bytes) (omsg : Msg) :
    ∃ pieces : List Bytes,
      sendFiledataCalls (before ++ block ++ after)
          { omsg with offset := before.length, bs := block.length } =
        .raw { omsg with action := 5, offset := before.length, bs := block.length }.toBytes ::
          (pieces.map .raw ++ [.close]) ∧
      pieces.flatten = block := by
  have hflat := FileBlocks.sendFiledata_flatten (before ++ block ++ after)
    { omsg with offset := before.length, bs := block.length } (Int.natCast_nonneg _)
  refine ⟨_, rfl, List.append_cancel_left (hflat.trans ?_)⟩
  simp

/-- Sending a block and relaying it is the identity. The sender's calls are its header, the block
in pieces and the `close`; on the stream of the block the server's loop ends, whatever its plain
`recv` calls return, with nothing missing, and has written the block. -/
theorem block_sent_and_relayed (sql : Sqlite DB) (srv : Server DB) (cofd tofd : ℤ)
    (omsg pmsg : Msg) (before block after : Bytes) (ready : ℕ → ℕ+) :
    (∃ (header : Bytes) (pieces : List Bytes),
      sendFiledataCalls (before ++ block ++ after)
          { omsg with offset := before.length, bs := block.length } =
        .raw header :: (pieces.map .raw ++ [.close]) ∧
      header = { omsg with action := 5, offset := before.length, bs := block.length }.toBytes ∧
      pieces.flatten = block) ∧
    ∃ n ≤ block.length + 1, ∃ t,
      (relayMachine sql cofd .eof).run
          (.start srv { pmsg with bs := block.length } cofd tofd block)
          ((List.range n).map ready) = some t ∧
        t.pc = .cancelled ∧ t.remain = 0 ∧
        relayed tofd t.srv.written = relayed tofd srv.written ++ block ∧
        (relayMachine sql cofd .eof).EachState Relay.Counts
          (.start srv { pmsg with bs := block.length } cofd tofd block)
          ((List.range n).map ready) := by
  refine ⟨?_, ?_⟩
  · obtain ⟨pieces, hcalls, hflat⟩ := sendFiledataCalls_eq before block after omsg
    exact ⟨_, pieces, hcalls, rfl, hflat⟩
  · simp only [List.range_eq_range']
    by_cases hblock : block = []
    · subst hblock
      exact ⟨0, by simp, _, rfl, rfl, rfl, by simp [Relay.start, sendFile, relayed_close],
        le_rfl, fun n hn => by cases hn⟩
    · have hlen := List.length_pos_iff.mpr hblock
      have hbs : (0 : ℤ) < ({ pmsg with bs := block.length } : Msg).bs :=
        Int.natCast_pos.mpr hlen
      have hwhole : Relay.Whole { pmsg with bs := block.length } tofd
          (Relay.start srv { pmsg with bs := block.length } cofd tofd block) := by
        rw [start_relay srv _ cofd tofd block hbs]
        exact ⟨rfl, .inl ⟨rfl, hblock⟩⟩
      obtain ⟨n, hn, t, hrun, hpc, hpass, heach⟩ := whole_run sql cofd hbs.le ready hwhole 0
      rw [start_relay srv _ cofd tofd block hbs] at hn hpass
      refine ⟨n, hn, t, hrun, hpc, ?_, hpass.relayed, heach⟩
      rw [hpass.remain]
      simp

end LinuxCat.ServerModel
