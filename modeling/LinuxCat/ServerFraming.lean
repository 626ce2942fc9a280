import LinuxCat.ServerStreams

/-! # The records the server takes from a stream

`thread_read` asks `recv` for a whole `Msg` and does not look at how much came; the client
waits with `MSG_WAITALL` in the same place. What it switches on are the records written
exactly if the reads keep their frames. -/
namespace LinuxCat.ServerModel
open LabelledMachines ByteLayouts Messages StreamReads WaitQueues

variable {DB : Type}

/-- A record as C has it: its numbers fit their fields. -/
abbrev Record := { m : Msg // m.Typed }

/-- The bytes of a record, one frame of the stream. -/
def Record.frame (r : Record) : Bytes := r.1.toBytes

/-- The results of `recv` in the dispatch loop of connection `c`. -/
def StreamState.reads (s : StreamState DB) (c : ℕ) : List Read :=
  (s.recvs.filter (fun r => r.conn = c)).map Recv.read

/-- The records on which the handler of connection `c` switched. -/
def ServerState.requests (s : ServerState DB) (c : ℕ) : List Msg :=
  (s.history.filter (fun i => i.cfd = (c : ℤ))).filterMap Served.request

/-- The reads of every connection are its stream, and the requests are the reads. -/
structure InStep (stream : ℕ → Bytes) (s : StreamState DB) : Prop where
  cfd : ∀ (c : ℕ) k, s.server.handlers[c]? = some k → k.cfd = c
  length : s.consumed.length = s.server.handlers.length
  conns : ∀ r ∈ s.recvs, r.conn < s.server.handlers.length
  requests : ∀ c, s.server.requests c =
    (s.reads c).map (fun r => Msg.ofBytes (r.buffer sizeofMsg))
  delivers : ∀ c, Delivers sizeofMsg (stream c) (s.reads c)
  consumed : ∀ c k pos, s.server.handlers[c]? = some k → s.consumed[c]? = some pos →
    k.pc.relaying = false → (s.reads c).flatMap Read.bytes = (stream c).take pos

variable {sql : Sqlite DB} {stream : ℕ → Bytes}

theorem inStep_start (srv : Server DB) : InStep stream (.start srv) where
  cfd := by simp [StreamState.start, ServerState.start]
  length := rfl
  conns := by simp [StreamState.start]
  requests := fun _ => rfl
  delivers := fun c => ⟨by simp [StreamState.start, StreamState.reads], List.nil_prefix⟩
  consumed := by simp [StreamState.start, ServerState.start]

theorem reads_append (s : StreamState DB) (srv : ServerState DB) (consumed : List ℕ)
    (log : List Recv) (c : ℕ) :
    StreamState.reads { server := srv, consumed := consumed, recvs := s.recvs ++ log } c =
      s.reads c ++ (log.filter (fun r => r.conn = c)).map Recv.read := by
  simp [StreamState.reads]

theorem requests_append (s : ServerState DB) (srv : Server DB) (handlers : List Handler)
    (i : Served) (c : ℕ) :
    ServerState.requests { srv := srv, handlers := handlers, history := s.history ++ [i] } c =
      s.requests c ++ if i.cfd = c then i.request.toList else [] := by
  simp only [ServerState.requests, List.filter_append, List.filterMap_append]
  congr 1
  by_cases h : i.cfd = c
  · rw [List.filter_cons_of_pos (by simpa using h), List.filter_nil, if_pos h]
    cases hr : i.request <;> simp [hr]
  · rw [List.filter_cons_of_neg (by simpa using h), if_neg h]
    rfl

theorem reads_of_conns_lt {s : StreamState DB} {n : ℕ} (h : ∀ r ∈ s.recvs, r.conn < n) :
    s.reads n = [] := by
  rw [StreamState.reads, List.map_eq_nil_iff, List.filter_eq_nil_iff]
  intro r hr
  have := h r hr
  simp only [decide_eq_true_eq]
  omega

theorem inStep_accept {s : StreamState DB} (h : InStep stream s) :
    InStep stream { s with
      server := { s.server with
        handlers := s.server.handlers ++ [⟨s.server.handlers.length, .recv⟩] }
      consumed := s.consumed ++ [0] } where
  cfd := forall_place_concat h.cfd rfl
  length := by simp [h.length]
  conns := fun r hr => Nat.lt_of_lt_of_le (h.conns r hr) (by simp)
  requests := h.requests
  delivers := h.delivers
  consumed := by
    intro c k pos hk hpos hpc
    obtain ⟨rfl, rfl⟩ | hpos := getElem?_concat_cases hpos
    · have hreads : s.reads s.consumed.length = [] := reads_of_conns_lt (h.length ▸ h.conns)
      change (s.reads s.consumed.length).flatMap Read.bytes = _
      rw [hreads]
      rfl
    · have hlt := (List.getElem?_eq_some_iff.mp hpos).1
      rw [List.getElem?_append_left (h.length ▸ hlt)] at hk
      exact h.consumed c k pos hk hpos hpc

/-- Only the recv of the dispatch loop adds a request, the record of its buffer. -/
theorem request_eq_log {s : StreamState DB} {a : StreamAction} {pos : ℕ} {f : Fed} {k : Handler}
    {r : Server DB × Pc} (hf : feed (stream a.conn) pos a = some f)
    (hr : threadReadPc sql s.server.srv k.cfd k.pc f.inp = some r) :
    ((requested k.pc f.inp).map Prod.fst).toList =
      f.log.map (fun r => Msg.ofBytes (r.read.buffer sizeofMsg)) := by
  rcases feed_cases hf with ⟨junk, read, hinp, hlog, -⟩ | ⟨hlog, -, hinp⟩ | ⟨hlog, hinp⟩
  · rw [hinp] at hr ⊢
    rw [(threadReadPc_read hr).2, hlog]
    rfl
  · have hnone : requested k.pc f.inp = none := by
      rcases hinp with hinp | hinp <;> cases hpc : k.pc <;> simp [hinp, requested]
    rw [hnone, hlog]
    rfl
  · have hnone : requested k.pc f.inp = none := by
      rcases hinp with ⟨bs, hinp⟩ | hinp <;> cases hpc : k.pc <;> simp [hinp, requested]
    rw [hnone, hlog]
    rfl

/-- What a step adds to the reads of its own connection. -/
theorem InStep.delivers_log {s : StreamState DB} {a : StreamAction} {pos : ℕ} {f : Fed}
    {k : Handler} {srv : Server DB} {pc : Pc} (h : InStep stream s)
    (hpos : s.consumed[a.conn]? = some pos) (hf : feed (stream a.conn) pos a = some f)
    (hk : s.server.handlers[a.conn]? = some k)
    (hr : threadReadPc sql s.server.srv k.cfd k.pc f.inp = some (srv, pc)) :
    Delivers sizeofMsg (stream a.conn) (s.reads a.conn ++ f.log.map Recv.read) ∧
      (pc.relaying = false → (s.reads a.conn ++ f.log.map Recv.read).flatMap Read.bytes =
        (stream a.conn).take (pos + f.taken)) := by
  have hold (hpc : k.pc.relaying = false) := h.consumed a.conn k pos hk hpos hpc
  rcases feed_cases hf with
    ⟨junk, read, hinp, hlog, htaken, hbytes, hlen, hne⟩ | ⟨hlog, htaken, -⟩ | ⟨hlog, hinp⟩
  · rw [hinp] at hr
    have hrecv := hold (by rw [(threadReadPc_read hr).1]; rfl)
    have hsnoc := (h.delivers a.conn).snoc hrecv hbytes hlen hne
    rw [hlog, htaken]
    exact ⟨hsnoc.2, fun _ => hsnoc.1⟩
  · rw [hlog, htaken, List.map_nil, List.append_nil]
    refine ⟨h.delivers a.conn, fun hpc => hold ?_⟩
    by_contra hrel
    simp [threadReadPc_relaying (by simpa using hrel) hr] at hpc
  · rw [hlog, List.map_nil, List.append_nil]
    exact ⟨h.delivers a.conn, fun hpc => by simp [threadReadPc_data hinp hr] at hpc⟩

theorem inStep_serve {s : StreamState DB} {a : StreamAction} {pos : ℕ} {f : Fed} {k : Handler}
    {srv : Server DB} {pc : Pc} (h : InStep stream s) (hpos : s.consumed[a.conn]? = some pos)
    (hf : feed (stream a.conn) pos a = some f) (hk : s.server.handlers[a.conn]? = some k)
    (hr : threadReadPc sql s.server.srv k.cfd k.pc f.inp = some (srv, pc)) :
    InStep stream
      { server := {
          srv := srv
          handlers := s.server.handlers.set a.conn { k with pc := pc }
          history := s.server.history ++ [served sql s.server.srv srv k f.inp] }
        consumed := s.consumed.set a.conn (pos + f.taken)
        recvs := s.recvs ++ f.log } := by
  have hlog (c : ℕ) : (f.log.filter (fun r => r.conn = c)).map Recv.read =
      if a.conn = c then f.log.map Recv.read else [] := by
    by_cases hc : a.conn = c
    · rw [if_pos hc, List.filter_eq_self.mpr fun r hr => by simp [log_conn hf r hr, hc]]
    · rw [if_neg hc, List.filter_eq_nil_iff.mpr fun r hr => by simp [log_conn hf r hr, hc]]
      rfl
  have hdelivers := h.delivers_log hpos hf hk hr
  constructor
  · exact forall_place_set h.cfd (h.cfd _ k hk)
  · simp [h.length]
  · intro r hr'
    rw [List.length_set]
    rcases List.mem_append.mp hr' with hr' | hr'
    · exact h.conns r hr'
    · rw [log_conn hf r hr']
      exact (List.getElem?_eq_some_iff.mp hk).1
  · intro c
    have hcfd := h.cfd _ k hk
    rw [requests_append, reads_append, List.map_append, h.requests, hlog]
    congr 1
    by_cases hc : a.conn = c
    · rw [if_pos hc, if_pos (by simp [served, hcfd, hc]), List.map_map]
      exact request_eq_log hf hr
    · rw [if_neg hc, if_neg (by simp [served, hcfd, hc])]
      rfl
  · intro c
    rw [reads_append, hlog]
    by_cases hc : a.conn = c
    · subst hc
      rw [if_pos rfl]
      exact hdelivers.1
    · rw [if_neg hc, List.append_nil]
      exact h.delivers c
  · intro c k' pos' hk' hpos' hpc
    rw [reads_append, hlog]
    obtain ⟨rfl, rfl⟩ | ⟨hc, hk'⟩ := getElem?_set_cases hk'
    · rw [List.getElem?_set_self (List.getElem?_eq_some_iff.mp hpos).1] at hpos'
      cases hpos'
      rw [if_pos rfl]
      exact hdelivers.2 hpc
    · rw [List.getElem?_set_ne hc] at hpos'
      rw [if_neg hc, List.append_nil]
      exact h.consumed c k' pos' hk' hpos' hpc

theorem inStep_step {s t : StreamState DB} {a : StreamAction} (h : InStep stream s)
    (hstep : streamStep sql stream s a = some t) : InStep stream t := by
  obtain ⟨rfl, rfl⟩ | ⟨c, pos, f, k, srv, pc, hpos, rfl, hf, hk, hr, rfl⟩ := streamStep_cases hstep
  · exact inStep_accept h
  · exact inStep_serve h hpos hf hk hr

/-- A buffer and the record it holds determine each other. -/
theorem requests_prefix_iff_buffers (records : List Record) (rs : List Read) :
    rs.map (fun r => Msg.ofBytes (r.buffer sizeofMsg)) <+: records.map Subtype.val ↔
      rs.map (Read.buffer sizeofMsg) <+: records.map Record.frame := by
  constructor
  · intro h
    have hbytes := h.map Msg.toBytes
    rw [List.map_map, List.map_map] at hbytes
    have hbuf : rs.map (Msg.toBytes ∘ fun r => Msg.ofBytes (r.buffer sizeofMsg)) =
        rs.map (Read.buffer sizeofMsg) :=
      List.map_congr_left fun r _ => Msg.toBytes_ofBytes (length_pad _ _)
    rwa [hbuf] at hbytes
  · intro h
    have hmsgs := h.map Msg.ofBytes
    rw [List.map_map, List.map_map] at hmsgs
    have hrec : records.map (Msg.ofBytes ∘ Record.frame) = records.map Subtype.val :=
      List.map_congr_left fun r _ => Msg.ofBytes_toBytes r.2
    rwa [hrec] at hmsgs

/-- What the reads of a connection deliver, seen as frames. -/
theorem InStep.delivers_frames {records : ℕ → List Record} {t : StreamState DB}
    (h : InStep (fun c => (records c).flatMap Record.frame) t) (c : ℕ) :
    (∀ f ∈ (records c).map Record.frame, f.length = sizeofMsg) ∧
      Delivers sizeofMsg ((records c).map Record.frame).flatten (t.reads c) := by
  refine ⟨fun f hf => ?_, ?_⟩
  · obtain ⟨r, -, rfl⟩ := List.mem_map.mp hf
    exact r.1.length_toBytes
  · rw [← List.flatMap_def]
    exact h.delivers c

/-- The records thread_read switches on are the first ones written exactly if the reads of its
connection keep their frames. -/
theorem InStep.requests_iff_kept {records : ℕ → List Record} {t : StreamState DB}
    (h : InStep (fun c => (records c).flatMap Record.frame) t) (c : ℕ) :
    t.server.requests c <+: (records c).map Subtype.val ↔
      Kept sizeofMsg ((records c).map Record.frame) (t.reads c) := by
  obtain ⟨hframes, hdelivers⟩ := h.delivers_frames c
  rw [← buffers_prefix_iff_kept hframes hdelivers, h.requests c]
  exact requests_prefix_iff_buffers (records c) (t.reads c)

/-! ## Whole reads -/

/-- The action is no short and no failed `recv` of the dispatch loop of connection `c`. -/
def StreamAction.Whole (c : ℕ) : StreamAction → Prop
  | .recv c' n _ => c' = c → n = sizeofMsg
  | .recvFails c' _ => c' ≠ c
  | _ => True

instance (c : ℕ) (a : StreamAction) : Decidable (a.Whole c) := by
  cases a <;> unfold StreamAction.Whole <;> infer_instance

theorem feed_whole_iff {stream : Bytes} {pos : ℕ} {a : StreamAction} {f : Fed} (c : ℕ)
    (h : feed stream pos a = some f) :
    (∀ r ∈ f.log, r.conn = c → r.read.bytes.length = sizeofMsg) ↔ a.Whole c := by
  cases a with
  | accept => cases h
  | recv c' n junk =>
    simp only [feed] at h
    split_ifs at h with hn
    cases h
    have hlen : min n (stream.length - pos) = n := by omega
    simp [StreamAction.Whole, Read.bytes, hlen]
  | recvFails c' junk =>
    cases h
    simp [StreamAction.Whole, Read.bytes, sizeofMsg]
  | recvEnds c' =>
    simp only [feed] at h
    split_ifs at h
    cases h
    simp [StreamAction.Whole]
  | relay c' n =>
    simp only [feed] at h
    split_ifs at h
    cases h
    simp [StreamAction.Whole]
  | relayFails c' =>
    cases h
    simp [StreamAction.Whole]
  | go c' =>
    cases h
    simp [StreamAction.Whole]

/-- Every `recv` of the dispatch loop of connection `c` has returned a whole record. -/
def StreamState.WholeReads (s : StreamState DB) (c : ℕ) : Prop :=
  ∀ r ∈ s.reads c, r.bytes.length = sizeofMsg

theorem wholeReads_iff {s : StreamState DB} {c : ℕ} :
    s.WholeReads c ↔ ∀ r ∈ s.recvs, r.conn = c → r.read.bytes.length = sizeofMsg := by
  simp only [StreamState.WholeReads, StreamState.reads, List.forall_mem_map, List.mem_filter,
    decide_eq_true_eq, and_imp]

theorem wholeReads_step {s t : StreamState DB} {a : StreamAction} (c : ℕ)
    (hstep : streamStep sql stream s a = some t) :
    t.WholeReads c ↔ s.WholeReads c ∧ a.Whole c := by
  rw [wholeReads_iff, wholeReads_iff]
  obtain ⟨rfl, rfl⟩ | ⟨c', pos, f, k, srv, pc, hpos, rfl, hf, hk, hr, rfl⟩ := streamStep_cases hstep
  · simp [StreamAction.Whole]
  · rw [← feed_whole_iff c hf]
    simp only [List.mem_append, or_imp, forall_and]

theorem wholeReads_run {s t : StreamState DB} {as : List StreamAction} (c : ℕ)
    (h : (streamMachine sql stream).run s as = some t) :
    t.WholeReads c ↔ s.WholeReads c ∧ ∀ a ∈ as, a.Whole c := by
  induction as generalizing s with
  | nil => simp [Option.some.inj h]
  | cons a as ih =>
    obtain ⟨u, hu, hrun⟩ := Machine.run_cons_eq_some.mp h
    rw [ih hrun, wholeReads_step c hu, List.forall_mem_cons, and_assoc]

/-- The records taken from connection `c` are the first ones written, and none was taken from a
short or failed `recv`. -/
structure Framed (records : List Record) (s : StreamState DB) (c : ℕ) : Prop where
  begins : s.server.requests c <+: records.map Subtype.val
  whole : s.WholeReads c

/-- The framing is kept exactly if no `recv` of the run is short or fails; the records are those
written exactly if the first such `recv` misses nothing but zeros and only zeros follow. -/
theorem framed_iff_whole (sql : Sqlite DB) (srv : Server DB) (records : ℕ → List Record)
    (as : List StreamAction) (t : StreamState DB)
    (h : (streamMachine sql (fun c => (records c).flatMap Record.frame)).run (.start srv) as =
      some t) (c : ℕ) :
    (Framed (records c) t c ↔ ∀ a ∈ as, a.Whole c) ∧
      (t.server.requests c <+: (records c).map Subtype.val ↔
        Kept sizeofMsg ((records c).map Record.frame) (t.reads c)) := by
  have hinv : InStep (fun c => (records c).flatMap Record.frame) t :=
    Machine.run_invariant (M := streamMachine sql (fun c => (records c).flatMap Record.frame))
      (fun _ _ _ hs hstep => inStep_step hs hstep) (inStep_start srv) h
  have hwhole : t.WholeReads c ↔ ∀ a ∈ as, a.Whole c := by
    rw [wholeReads_run c h]
    simp [StreamState.WholeReads, StreamState.start, StreamState.reads]
  refine ⟨?_, hinv.requests_iff_kept c⟩
  rw [← hwhole]
  refine ⟨Framed.whole, fun hw => ⟨?_, hw⟩⟩
  obtain ⟨hframes, hdelivers⟩ := hinv.delivers_frames c
  exact (hinv.requests_iff_kept c).mpr (kept_of_whole (by decide) hframes hdelivers hw)

/-- The login of user `r` with the password `4`. -/
def oneLogin : Record :=
  ⟨{ Msg.zero with action := 1, name := .ofBytes 20 [114], password := .ofBytes 20 [52] },
    ⟨by decide, by decide, by decide, by decide, by decide, by decide, by decide⟩⟩

set_option maxRecDepth 8000 in
/-- Of the login only the four bytes of `action` have come; a login without a name is handled. -/
theorem shortRead_dispatched :
    ∃ t, (streamMachine .silent (fun _ => [oneLogin].flatMap Record.frame)).run
        (.start (Server.start ())) [.accept, .recv 0 4 (.zero 20)] = some t ∧
      ¬ t.server.requests 0 <+: [oneLogin].map Subtype.val := by
  refine ⟨_, rfl, fun h => ?_⟩
  have hnames := h.map (fun m : Msg => m.name.bytes.head?)
  exact absurd hnames (by decide)

set_option maxRecDepth 8000 in
theorem wholeRead_dispatched :
    ∃ t, (streamMachine .silent (fun _ => [oneLogin].flatMap Record.frame)).run
        (.start (Server.start ())) [.accept, .recv 0 1168 (.zero 20)] = some t ∧
      Framed [oneLogin] t 0 := by
  have hrun : (streamMachine .silent (fun _ => [oneLogin].flatMap Record.frame)).run
      (.start (Server.start ())) [.accept, .recv 0 1168 (.zero 20)] = some _ := rfl
  refine ⟨_, hrun, ?_⟩
  exact (framed_iff_whole .silent (Server.start ()) (fun _ => [oneLogin]) _ _ hrun 0).1.mpr
    (by decide)

end LinuxCat.ServerModel
