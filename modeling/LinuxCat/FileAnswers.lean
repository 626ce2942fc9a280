import LinuxCat.SenderModel
import LinuxCat.WaitQueues

/-! # The answer a call of `send_file` waits for

The wait has no predicate, and the signal is given whether somebody waits or not. Requests are
answered in their order, so the answer of a call is the one with its number. -/
namespace LinuxCat.SenderModel
open LabelledMachines LabelledMachines.Machine ByteLayouts Messages FileBlocks ServerModel

variable {DB : Type} {sockfd : ℤ}

/-- The call has still to begin its wait. -/
def CallerPc.beforeWait : CallerPc → Bool
  | .locking _ | .locked _ => true
  | _ => false

/-- The call is blocked, or about to block. -/
def CallerPc.blocks : CallerPc → Bool
  | .locking _ | .locked _ | .waiting _ => true
  | _ => false

/-- No call blocks behind its answer, and every call that has gone on has the id of its answer. -/
structure AnswersReach (s : Sender) : Prop where
  awake : s.answered.length = s.sent → s.reader ≠ .signalling → s.caller.blocks = false
  ids : ∀ (n : ℕ) id, s.started[n]? = some id →
    ∃ m, s.answered[n]? = some m ∧ m.action = 3 ∧ m.sfileId = id

/-- The answer to the call that is running is positive and signalled behind the beginning of the
wait, and the wait returns behind its answer. -/
def InTime (s : Sender) : SendAction DB → Prop
  | .threadRead =>
    (∀ m answers, s.reader = .recv → s.answers = m :: answers → s.answered.length + 1 = s.sent →
      s.caller.blocks = true → m.action = 3) ∧
    (s.reader = .signalling → s.answered.length = s.sent → s.caller.beforeWait = false)
  | .sendFile => ∀ c, s.caller = .woken c → ∃ m, s.answered[s.started.length]? = some m ∧ m.action = 3
  | _ => True

/-- The call goes on with the id of its answer exactly if its answer is a positive one and has
been read. -/
theorem ids_goOn {s : Sender} (h : Counted s) (hasking : s.caller.unstarted = 1)
    (hs : AnswersReach s) :
    (∀ (n : ℕ) id, (s.started ++ [s.sfileId])[n]? = some id →
      ∃ m, s.answered[n]? = some m ∧ m.action = 3 ∧ m.sfileId = id) ↔
      ∃ m, s.answered[s.started.length]? = some m ∧ m.action = 3 := by
  constructor
  · intro hids
    obtain ⟨m, hm, hact, -⟩ := hids s.started.length s.sfileId (by simp)
    exact ⟨m, hm, hact⟩
  · rintro ⟨m, hm, hact⟩ n id hn
    rcases WaitQueues.getElem?_concat_cases hn with ⟨rfl, rfl⟩ | hn
    · refine ⟨m, hm, hact, ?_⟩
      -- no answer is behind the one to the last request
      have hlt := (List.getElem?_eq_some_iff.mp hm).1
      have hcalls := h.calls
      have hrequests := h.requests
      rw [hasking] at hcalls
      have hlast : s.answered.getLast? = some m := by
        rw [List.getLast?_eq_getElem?, ← hm]
        congr 1
        omega
      exact (h.sfileId m hlast hact).symm
    · exact hs.ids n id hn

theorem answersReach_step {s t : Sender} {a : SendAction DB} (h : Counted s) (hs : AnswersReach s)
    (hstep : senderStep sockfd s a = some t) : AnswersReach t ↔ InTime s a := by
  have hrequests := h.requests
  cases senderStep_cases hstep with
  | call pmsg file hpc =>
    refine iff_of_true ⟨fun hlen => ?_, hs.ids⟩ trivial
    dsimp only at hlen
    omega
  | lock c hpc =>
    refine iff_of_true ⟨fun hlen hr => ?_, hs.ids⟩ (by simp [InTime, hpc])
    have := hs.awake hlen hr
    simp [hpc, CallerPc.blocks] at this
  | wait c hpc =>
    refine iff_of_true ⟨fun hlen hr => ?_, hs.ids⟩ (by simp [InTime, hpc])
    have := hs.awake hlen hr
    simp [hpc, CallerPc.blocks] at this
  | goOn c hpc =>
    have hids := ids_goOn h (by rw [hpc]; rfl) hs
    constructor
    · intro ht c' _
      exact hids.mp ht.ids
    · intro hq
      exact ⟨fun _ _ => rfl, hids.mpr (hq c hpc)⟩
  | map c hpc => exact iff_of_true ⟨fun _ _ => rfl, hs.ids⟩ (by simp [InTime, hpc])
  | create c head heads pids hpc => exact iff_of_true ⟨fun _ _ => rfl, hs.ids⟩ (by simp [InTime, hpc])
  | join caller hpc hcaller =>
    refine iff_of_true ⟨fun _ _ => ?_, hs.ids⟩ (fun c hc => ?_)
    · obtain rfl | ⟨pids, rfl⟩ | ⟨pid, pids, rfl⟩ := hcaller <;> rfl
    · obtain ⟨c', pids, hpc⟩ | ⟨pids, hpc⟩ | ⟨pid, pids, hpc⟩ := hpc <;> simp [hpc] at hc
  | spurious c hpc => exact iff_of_true ⟨fun _ _ => rfl, hs.ids⟩ trivial
  | serve srv pmsg requests m hreq hm => exact iff_of_true ⟨hs.awake, hs.ids⟩ trivial
  | read m answers hpc hanswers =>
    have hids (n : ℕ) id (hn : s.started[n]? = some id) :
        ∃ m', (s.answered ++ [m])[n]? = some m' ∧ m'.action = 3 ∧ m'.sfileId = id := by
      obtain ⟨m', hm', hm''⟩ := hs.ids n id hn
      exact ⟨m', (List.getElem?_append_left (List.getElem?_eq_some_iff.mp hm').1).trans hm', hm''⟩
    have hsignal : s.reader ≠ .signalling := by simp [hpc]
    unfold switch
    split
    · next hact =>
      refine iff_of_true ⟨fun _ hr => absurd rfl hr, hids⟩ ⟨fun m' as _ hm' _ _ => ?_, ?_⟩
      · rw [hanswers] at hm'
        rwa [← (List.cons.inj hm').1]
      · exact fun hr => absurd hr hsignal
    · next hact =>
      constructor
      · intro ht
        refine ⟨fun m' as _ hm' hlen hblocks => ?_, fun hr => absurd hr hsignal⟩
        have := ht.awake (by simpa using hlen) hsignal
        exact absurd (hblocks.symm.trans this) (by decide)
      · intro hq
        refine ⟨fun hlen _ => ?_, hids⟩
        by_contra hblocks
        exact hact (hq.1 m answers hpc hanswers (by simpa using hlen) (by simpa using hblocks))
  | signal hpc =>
    have hrecv : s.reader ≠ .recv := by simp [hpc]
    unfold signal
    split
    · next c hcaller =>
      refine iff_of_true ⟨fun _ _ => rfl, hs.ids⟩ ⟨fun _ _ hr => absurd hr hrecv, fun _ _ => ?_⟩
      rw [hcaller]
      rfl
    · next hcaller =>
      have hblocks : s.caller.blocks = s.caller.beforeWait := by
        cases hc : s.caller with
        | waiting c => exact absurd hc (hcaller c)
        | _ => rfl
      constructor
      · intro ht
        refine ⟨fun _ _ hr => absurd hr hrecv, fun _ hlen => ?_⟩
        exact hblocks ▸ ht.awake hlen (by simp)
      · intro hq
        exact ⟨fun hlen _ => hblocks ▸ hq.2 hpc hlen, hs.ids⟩
  | otherRecord m hpc hact => exact iff_of_true hs trivial
  | serverExit hpc =>
    refine iff_of_true ⟨fun hlen _ => ?_, hs.ids⟩ trivial
    exact hs.awake hlen (by simp [hpc])
  | block i b b' hb hb' => exact iff_of_true ⟨hs.awake, hs.ids⟩ trivial

/-! ## The ids of the headers -/

/-- What a call has put in headers, and what it has still to put in them, is its id. -/
structure HeadersMarked (s : Sender) : Prop where
  threads : ∀ b ∈ s.threads, s.started[b.call]? = some b.header.sfileId
  mapping : ∀ c, s.caller = .mapping c → s.started[c.number]? = some c.pmsg.sfileId
  heads : ∀ c heads pids, s.caller = .creating c heads pids →
    ∀ head ∈ heads, s.started[c.number]? = some head.sfileId

theorem headersMarked_start : HeadersMarked Sender.start :=
  ⟨by simp [Sender.start], by simp [Sender.start], by simp [Sender.start]⟩

/-- A thread never changes its call and its header. -/
theorem sendFiledata_kept {s : Sender} {b b' : Block} (h : sendFiledata s b = some b') :
    b'.call = b.call ∧ b'.header = b.header := by
  unfold sendFiledata at h
  split at h
  · cases h; exact ⟨rfl, rfl⟩
  · cases h; exact ⟨rfl, rfl⟩
  · obtain ⟨map, -, rfl⟩ := Option.map_eq_some_iff.mp h
    exact ⟨rfl, rfl⟩
  · split at h <;> cases h <;> exact ⟨rfl, rfl⟩
  · cases h

/-- The steps that touch neither the ids nor the headers. -/
theorem HeadersMarked.frame {s t : Sender} (h : HeadersMarked s) (hstarted : t.started = s.started)
    (hthreads : t.threads = s.threads)
    (hcaller : t.caller = s.caller ∨
      (∀ c, t.caller ≠ .mapping c) ∧ ∀ c heads pids, t.caller ≠ .creating c heads pids) :
    HeadersMarked t := by
  obtain ⟨hblocks, hmapping, hheads⟩ := h
  rcases hcaller with hcaller | ⟨hnot, hnot'⟩
  · exact ⟨by rwa [hstarted, hthreads], by rwa [hstarted, hcaller], by rwa [hstarted, hcaller]⟩
  · exact ⟨by rwa [hstarted, hthreads], fun c hc => absurd hc (hnot c),
      fun c heads pids hc => absurd hc (hnot' c heads pids)⟩

theorem headersMarked_step {s t : Sender} {a : SendAction DB} (h : Counted s) (hs : HeadersMarked s)
    (hstep : senderStep sockfd s a = some t) : HeadersMarked t := by
  cases senderStep_cases hstep with
  | call pmsg file hpc => exact hs.frame rfl rfl (.inr ⟨by simp, by simp⟩)
  | lock c hpc => exact hs.frame rfl rfl (.inr ⟨by simp, by simp⟩)
  | wait c hpc => exact hs.frame rfl rfl (.inr ⟨by simp, by simp⟩)
  | goOn c hpc =>
    have hgrow {n : ℕ} {id : ℤ} (hn : s.started[n]? = some id) :
        (s.started ++ [s.sfileId])[n]? = some id :=
      (List.getElem?_append_left (List.getElem?_eq_some_iff.mp hn).1).trans hn
    have hnumber : c.number = s.started.length := by
      have h₁ := h.number c (by rw [hpc]; rfl)
      have h₂ := h.calls
      rw [hpc] at h₂
      simp only [CallerPc.unstarted] at h₂
      omega
    refine ⟨fun b hb => hgrow (hs.threads b hb), fun c' hc' => ?_, fun c' heads pids hc' => ?_⟩
    · cases hc'
      simp [hnumber]
    · cases hc'
  | map c hpc =>
    refine ⟨hs.threads, by simp, fun c' heads pids hc' head hhead => ?_⟩
    cases hc'
    obtain ⟨offset, bs, rfl⟩ := eq_blockHead_of_mem_sendFile hhead
    exact hs.mapping c hpc
  | create c head heads pids hpc =>
    have hheads := hs.heads c _ pids hpc
    refine ⟨WaitQueues.forall_mem_concat hs.threads (hheads head List.mem_cons_self), by simp,
      fun c' heads' pids' hc' head' hhead => ?_⟩
    cases hc'
    exact hheads head' (List.mem_cons_of_mem _ hhead)
  | join caller hpc hcaller =>
    refine hs.frame rfl rfl (.inr ?_)
    obtain rfl | ⟨pids, rfl⟩ | ⟨pid, pids, rfl⟩ := hcaller <;> exact ⟨by simp, by simp⟩
  | spurious c hpc => exact hs.frame rfl rfl (.inr ⟨by simp, by simp⟩)
  | serve srv pmsg requests m hreq hm => exact hs.frame rfl rfl (.inl rfl)
  | read m answers hpc hanswers =>
    unfold switch
    split <;> exact hs.frame rfl rfl (.inl rfl)
  | signal hpc =>
    unfold signal
    split
    · exact hs.frame rfl rfl (.inr ⟨by simp, by simp⟩)
    · exact hs.frame rfl rfl (.inl rfl)
  | otherRecord m hpc hact => exact hs
  | serverExit hpc => exact hs.frame rfl rfl (.inl rfl)
  | block i b b' hb hb' =>
    obtain ⟨hcall, hheader⟩ := sendFiledata_kept hb'
    refine ⟨WaitQueues.forall_mem_set hs.threads ?_, hs.mapping, hs.heads⟩
    rw [hcall, hheader]
    exact hs.threads b (List.mem_of_getElem? hb)

/-- In every run of calls, every header has the id its call went on with. The calls get their
answers and go on with the ids in them exactly if each answer is positive and comes in time. -/
theorem answersReach_iff_in_time (sockfd : ℤ) (as : List (SendAction DB)) (t : Sender)
    (h : (senderMachine DB sockfd).run Sender.start as = some t) :
    (∀ b ∈ t.threads, t.started[b.call]? = some b.header.sfileId) ∧
      ((senderMachine DB sockfd).EachState AnswersReach Sender.start as ↔
        (senderMachine DB sockfd).EachStep InTime Sender.start as) := by
  constructor
  · have hinv := run_invariant (M := senderMachine DB sockfd)
      (I := fun s => Counted s ∧ HeadersMarked s)
      (fun s a u hs hstep => ⟨counted_step hs.1 hstep, headersMarked_step hs.1 hs.2 hstep⟩)
      ⟨counted_start, headersMarked_start⟩ h
    exact hinv.2.threads
  · exact eachState_iff_eachStep (M := senderMachine DB sockfd) (I := Counted)
      (fun _ _ _ hs hstep => counted_step hs hstep)
      (fun _ _ _ hc hs hstep => answersReach_step hc hs hstep)
      counted_start ⟨fun _ _ => rfl, by simp [Sender.start]⟩ h

/-- The server with `b` online on connection 1. -/
def serverOfB : Server Unit := { Server.start () with online := [⟨1, 0, [98]⟩] }

def requestFor (toname : Bytes) : Msg :=
  { Msg.zero with toname := .ofBytes 20 toname, filename := .ofBytes 20 [102] }

/-- The answer is read and signalled before the call has taken `mutex`. -/
def earlySignal : List (SendAction Unit) :=
  [.call (requestFor [98]) [7], .serve serverOfB, .threadRead, .threadRead]

/-- The receiver is not online. -/
def negativeAnswer : List (SendAction Unit) :=
  [.call (requestFor [99]) [7], .sendFile, .sendFile, .serve serverOfB, .threadRead]

/-- The wait returns before the server has seen the request. -/
def spuriousReturn : List (SendAction Unit) :=
  [.call (requestFor [98]) [7], .sendFile, .sendFile, .spurious, .sendFile]

/-- Behind a signal that came too early, or an answer that is no action 3, the call is blocked for
ever; behind a spurious return it goes on with an id nobody gave it. -/
theorem answers_missed :
    (∃ s, (senderMachine Unit 0).run Sender.start earlySignal = some s ∧
        s.answered.length = 1 ∧ s.sent = 1 ∧ s.reader = .recv ∧ s.caller.beforeWait = true ∧
        ¬ AnswersReach s) ∧
      (∃ s, (senderMachine Unit 0).run Sender.start negativeAnswer = some s ∧
        s.answered.map Msg.action = [-2] ∧ s.reader = .recv ∧ s.caller.blocks = true ∧
        ¬ AnswersReach s) ∧
      ∃ s, (senderMachine Unit 0).run Sender.start spuriousReturn = some s ∧
        s.started = [0] ∧ s.answered = [] ∧ ¬ AnswersReach s := by
  refine ⟨⟨_, rfl, rfl, rfl, rfl, rfl, fun hs => ?_⟩, ⟨_, rfl, rfl, rfl, rfl, fun hs => ?_⟩,
    ⟨_, rfl, rfl, rfl, fun hs => ?_⟩⟩
  · exact absurd (hs.awake rfl (by decide)) (by decide)
  · exact absurd (hs.awake rfl (by decide)) (by decide)
  · obtain ⟨m, hm, -⟩ := hs.ids 0 0 rfl
    cases hm

theorem earlySignal_out_of_time :
    ¬ (senderMachine Unit 0).EachStep InTime Sender.start earlySignal := by
  rw [← (answersReach_iff_in_time 0 earlySignal _ rfl).2]
  intro hall
  exact absurd ((hall.last rfl).awake rfl (by decide)) (by decide)

end LinuxCat.SenderModel
