import LinuxCat.BlockHandoff
import LinuxCat.BlockReceipts
import LinuxCat.FileTransferModel

/-! # Every notice of a block is taken by its thread

`thread_read` and its `recv_file` threads for any messages and in any order. The accesses to the
variable they share are recorded: it is written and read in turns. The end of the connection, with
which `thread_read` and its variable go, is left out. -/
namespace LinuxCat.ReceiverModel
open LabelledMachines LabelledMachines.Machine ByteLayouts Messages WaitQueues

/-! ## The machine -/

/-- The start of `recv_file`, up to `sem_post(&sem[0])`. -/
def Receiver.takeNotice (rc : Receiver) (q : ℕ) : Option Receiver :=
  (rc.threads[q]?).bind (fun pc =>
    match pc with
    | .created =>
      if 0 < rc.sem1 then some { rc.setThread q .copying with sem1 := rc.sem1 - 1 } else none
    | .copying => some (rc.setThread q (.posting rc.omsg))
    | .posting omsg => some { rc.setThread q (.opening omsg) with sem0 := rc.sem0 + 1 }
    | _ => none)

/-- The rest of `recv_file`, with the socket `Create_sock` returns and the bytes `recv` returns. -/
def Receiver.receiveBlock (rc : Receiver) (q sockfd1 : ℕ) (bs : Bytes) : Option Receiver :=
  (rc.threads[q]?).bind (fun pc =>
    match pc with
    | .opening omsg => some (rc.setThread q (.writing omsg sockfd1))
    | .writing omsg sockfd1 =>
      some (rc.setThread q (.receiving { omsg with action := -5 } sockfd1 omsg.offset))
    | .receiving omsg sockfd1 fp =>
      if bs.length ≤ RECVBUF_SIZE then
        let pc :=
          if bs.length = RECVBUF_SIZE then FilePc.receiving omsg sockfd1 (fp + RECVBUF_SIZE)
          else .closing sockfd1
        some ((rc.storeAt omsg.sfileId fp bs).setThread q pc)
      else none
    | .closing _ => some (rc.setThread q .ended)
    | _ => none)

inductive Access
  | put (m : Msg)
  | take (q : ℕ) (m : Msg)
  deriving DecidableEq, Repr

/-- The client, the messages of action 5 it has read, and the accesses to `omsg`. -/
structure Notices where
  client : Receiver
  inbox : List Msg
  accesses : List Access
  deriving DecidableEq, Repr

def Notices.start : Notices := ⟨.start, [], []⟩

inductive NoticeAction
  /-- `recv` of `thread_read` returns these bytes -/
  | recv (bs old : Bytes)
  /-- action 5 goes on -/
  | threadRead
  | takeNotice (q : ℕ)
  | receiveBlock (q sockfd1 : ℕ) (bs : Bytes)
  deriving DecidableEq, Repr

/-- The write the reader is about to make. -/
def ReaderPc.puts : ReaderPc → List Access
  | .copying pmsg => [.put pmsg]
  | _ => []

/-- The read thread `q` is about to make. -/
def FilePc.takes (q : ℕ) (omsg : Msg) : FilePc → List Access
  | .copying => [.take q omsg]
  | _ => []

def noticeStep (s : Notices) : NoticeAction → Option Notices
  | .recv bs old =>
    if s.client.reader = .recv ∧ bs ≠ [] ∧ bs.length ≤ sizeofMsg then
      let pmsg := Msg.ofBytes (pad sizeofMsg bs)
      (s.client.threadRead bs old).map (fun client =>
        { s with
          client := client
          inbox := if pmsg.action = 5 then s.inbox ++ [pmsg] else s.inbox })
    else none
  | .threadRead =>
    if s.client.reader = .recv then none
    else
      (s.client.threadRead [] []).map (fun client =>
        { s with client := client, accesses := s.accesses ++ s.client.reader.puts })
  | .takeNotice q =>
    (s.client.threads[q]?).bind (fun pc => (s.client.takeNotice q).map (fun client =>
      { s with client := client, accesses := s.accesses ++ pc.takes q s.client.omsg }))
  | .receiveBlock q sockfd1 bs =>
    (s.client.receiveBlock q sockfd1 bs).map (fun client => { s with client := client })

def noticeMachine : Machine Notices NoticeAction := ⟨noticeStep⟩

/-- The steps that hand a message over. -/
def NoticeAction.HandsOver : NoticeAction → Prop
  | .threadRead | .takeNotice _ => True
  | _ => False

/-- A step of `recv_file` in a transfer is one of these steps. -/
theorem recvFile_client {DB : Type} {sql : ServerModel.Sqlite DB} {s t : FileTransfer.Transfer DB}
    {q : ℕ} (h : FileTransfer.recvFile sql s q = some t) :
    s.client.takeNotice q = some t.client ∨
      ∃ sockfd1 bs, s.client.receiveBlock q sockfd1 bs = some t.client := by
  obtain ⟨pc, hq, h⟩ := Option.bind_eq_some_iff.mp h
  cases pc with
  | created =>
    simp only at h
    split_ifs at h with hsem
    cases h
    exact .inl (by simp [Receiver.takeNotice, hq, hsem])
  | copying =>
    cases h
    exact .inl (by simp [Receiver.takeNotice, hq, FileTransfer.Transfer.setThread])
  | posting m =>
    cases h
    exact .inl (by simp [Receiver.takeNotice, hq])
  | opening m =>
    obtain ⟨srv, -, rfl⟩ := Option.map_eq_some_iff.mp h
    exact .inr ⟨s.conns.length, [],
      by simp [Receiver.receiveBlock, hq, FileTransfer.Transfer.setThread]⟩
  | writing m c =>
    obtain ⟨conn, -, rfl⟩ := Option.map_eq_some_iff.mp h
    exact .inr ⟨c, [], by simp [Receiver.receiveBlock, hq, FileTransfer.Transfer.setThread,
      FileTransfer.Transfer.setConn]⟩
  | receiving m c fp =>
    obtain ⟨⟨conn', bs⟩, hrecv, rfl⟩ := Option.map_eq_some_iff.mp h
    obtain ⟨conn, -, hrecv⟩ := Option.bind_eq_some_iff.mp hrecv
    obtain ⟨bs, hbs, he⟩ := Option.map_eq_some_iff.mp hrecv
    cases he
    have hlen : bs.length ≤ RECVBUF_SIZE := by
      simp only [FileTransfer.recvOf] at hbs
      split_ifs at hbs
      cases hbs
      exact List.length_take_le _ _
    exact .inr ⟨c, bs, by simp [Receiver.receiveBlock, hq, hlen]⟩
  | closing c =>
    obtain ⟨conn, -, rfl⟩ := Option.map_eq_some_iff.mp h
    exact .inr ⟨c, [], by simp [Receiver.receiveBlock, hq, FileTransfer.Transfer.setThread,
      FileTransfer.Transfer.setConn]⟩
  | ended => cases h

/-- A round of the loop on a stream is a step of the thread that receives it. -/
theorem receiveBlock_of_recvStep {rc : Receiver} {q sockfd1 : ℕ} {omsg : Msg} {fp : ℤ} {rest : Bytes}
    {ready : ℕ+} {t : Receipt} (hq : rc.threads[q]? = some (.receiving omsg sockfd1 fp))
    (hstep : recvStep omsg.sfileId ⟨rc, fp, rest, false⟩ ready = some t) :
    rc.receiveBlock q sockfd1 (rest.take (min RECVBUF_SIZE ready)) =
      some (t.client.setThread q
        (if t.ended then .closing sockfd1 else .receiving omsg sockfd1 t.fp)) := by
  have hlen : (rest.take (min RECVBUF_SIZE ready)).length ≤ RECVBUF_SIZE :=
    (List.length_take_le _ _).trans (min_le_left _ _)
  simp only [recvStep, Bool.false_eq_true, if_false] at hstep
  rw [Receiver.receiveBlock, hq, Option.bind_some]
  by_cases hfull : (rest.take (min RECVBUF_SIZE ready)).length = RECVBUF_SIZE
  · rw [if_pos hfull] at hstep
    cases hstep
    simp only [if_pos hlen, if_pos hfull, Bool.false_eq_true, if_false]
  · rw [if_neg hfull] at hstep
    cases hstep
    simp only [if_pos hlen, if_neg hfull, if_true]

/-! ## What is to hold -/

/-- Each message is put and then taken by its thread, one after the other; `q` is the first
thread. -/
def turns : ℕ → List Msg → List Access
  | _, [] => []
  | q, m :: inbox => .put m :: .take q m :: turns (q + 1) inbox

/-- However the hand-over goes on, it comes to an end, and then every message that was read has
been taken by its thread. -/
def Completes (s : Notices) : Prop :=
  ∃ bound, ∀ as t, (∀ a ∈ as, a.HandsOver) → noticeMachine.run s as = some t →
    as.length ≤ bound ∧
      ((∀ a, a.HandsOver → noticeStep t a = none) → t.accesses = turns 0 s.inbox)

structure HandedOver (s : Notices) : Prop where
  turns : s.accesses <+: turns 0 s.inbox
  copies : ∀ (q : ℕ) m, s.client.threads[q]? = some (.posting m) ∨
    s.client.threads[q]? = some (.opening m) → s.inbox[q]? = some m
  permits : s.client.sem0 + s.client.sem1 ≤ 1
  completes : Completes s

theorem turns_append (q : ℕ) (inbox inbox' : List Msg) :
    turns q (inbox ++ inbox') = turns q inbox ++ turns (q + inbox.length) inbox' := by
  induction inbox generalizing q with
  | nil => rfl
  | cons m inbox ih =>
    simp only [List.cons_append, turns, ih, List.length_cons]
    rw [show q + 1 + inbox.length = q + (inbox.length + 1) by omega]

theorem turns_begins {inbox inbox' : List Msg} (h : inbox <+: inbox') :
    turns 0 inbox <+: turns 0 inbox' := by
  obtain ⟨rest, rfl⟩ := h
  rw [turns_append]
  exact List.prefix_append _ _

/-! ## What is in the variable -/

def ReaderPc.put : ReaderPc → Bool
  | .posting | .creating => true
  | _ => false

def FilePc.copied : FilePc → Bool
  | .created | .copying => false
  | _ => true

/-- The variable holds nothing that is still to be taken; or the message whose thread is not
created yet; or that of the last thread. -/
inductive Cell (full : Bool) (threads : List FilePc) (omsg : Msg) (inbox : List Msg)
    (accesses : List Access) : Prop
  | empty (hfull : full = false) (hall : ∀ pc ∈ threads, pc.copied = true)
      (hacc : accesses = turns 0 (inbox.take threads.length))
  | filled (hfull : full = true) (hall : ∀ pc ∈ threads, pc.copied = true)
      (hacc : accesses = turns 0 (inbox.take threads.length) ++ [.put omsg])
  | awaited (earlier : List FilePc) (last : FilePc) (hthreads : threads = earlier ++ [last])
      (hfull : full = false) (hall : ∀ pc ∈ earlier, pc.copied = true) (hlast : last.copied = false)
      (hacc : accesses = turns 0 (inbox.take earlier.length) ++ [.put omsg])

structure Ordered (s : Notices) : Prop where
  handoff : Handoff s.inbox s.client
  heard : s.inbox.length = s.client.heard
  cell : Cell s.client.reader.put s.client.threads s.client.omsg s.inbox s.accesses

section

variable {full : Bool} {threads : List FilePc} {omsg m : Msg} {inbox : List Msg}
  {accesses : List Access} {q : ℕ} {pc pc' : FilePc}

theorem turns_take_succ (hm : inbox[q]? = some m) :
    turns 0 (inbox.take (q + 1)) = turns 0 (inbox.take q) ++ [.put m, .take q m] := by
  have hlen : (inbox.take q).length = q := by
    have := (List.getElem?_eq_some_iff.mp hm).1
    simp only [List.length_take]
    omega
  rw [List.take_add_one, hm, turns_append, hlen, Nat.zero_add]
  rfl

/-- Another message is read. -/
theorem Cell.hear (h : Cell full threads omsg inbox accesses) (hle : threads.length ≤ inbox.length)
    (m : Msg) : Cell full threads omsg (inbox ++ [m]) accesses := by
  cases h with
  | empty hfull hall hacc => exact .empty hfull hall (by rw [List.take_append_of_le_length hle, hacc])
  | filled hfull hall hacc =>
    exact .filled hfull hall (by rw [List.take_append_of_le_length hle, hacc])
  | awaited earlier last hthreads hfull hall hlast hacc =>
    have hle' : earlier.length ≤ inbox.length := by
      rw [hthreads, List.length_append] at hle
      omega
    exact .awaited earlier last hthreads hfull hall hlast
      (by rw [List.take_append_of_le_length hle', hacc])

/-- The write to the variable comes when every message is taken. -/
theorem Cell.write (h : Cell false threads omsg inbox accesses)
    (hall : ∀ pc ∈ threads, pc.copied = true) (m : Msg) :
    Cell true threads m inbox (accesses ++ [.put m]) := by
  cases h with
  | empty hfull hall hacc => exact .filled rfl hall (by rw [hacc])
  | filled hfull => cases hfull
  | awaited earlier last hthreads hfull _ hlast hacc =>
    rw [hall last (by simp [hthreads])] at hlast
    cases hlast

/-- The thread is created. -/
theorem Cell.create (h : Cell true threads omsg inbox accesses) :
    Cell false (threads ++ [.created]) omsg inbox accesses := by
  cases h with
  | empty hfull => cases hfull
  | filled hfull hall hacc => exact .awaited threads .created rfl rfl hall rfl hacc
  | awaited earlier last hthreads hfull => cases hfull

/-- A thread goes on and does not read the variable. -/
theorem Cell.goOn (h : Cell full threads omsg inbox accesses) (hq : threads[q]? = some pc)
    (hcopied : pc'.copied = pc.copied) : Cell full (threads.set q pc') omsg inbox accesses := by
  have hmem := List.mem_of_getElem? hq
  cases h with
  | empty hfull hall hacc =>
    refine .empty hfull (forall_mem_set hall (hcopied.trans (hall pc hmem))) ?_
    rw [List.length_set]
    exact hacc
  | filled hfull hall hacc =>
    refine .filled hfull (forall_mem_set hall (hcopied.trans (hall pc hmem))) ?_
    rw [List.length_set]
    exact hacc
  | awaited earlier last hthreads hfull hall hlast hacc =>
    subst hthreads
    rcases Nat.lt_or_ge q earlier.length with hlt | hge
    · rw [List.getElem?_append_left hlt] at hq
      rw [List.set_append_left _ _ hlt]
      refine .awaited _ last rfl hfull (forall_mem_set hall ?_) hlast ?_
      · exact hcopied.trans (hall pc (List.mem_of_getElem? hq))
      · rw [List.length_set]
        exact hacc
    · obtain ⟨rfl, rfl⟩ | hearlier := getElem?_concat_cases hq
      · rw [List.set_append_right _ _ hge, Nat.sub_self]
        exact .awaited earlier pc' rfl hfull hall (hcopied.trans hlast) hacc
      · exact absurd (List.getElem?_eq_some_iff.mp hearlier).1 (by omega)

/-- The thread that reads the variable is the last one, and its message is there. -/
theorem Cell.take (h : Cell full threads omsg inbox accesses) (hq : threads[q]? = some .copying)
    (hm : inbox[q]? = some omsg) (hcopied : pc'.copied = true) :
    Cell full (threads.set q pc') omsg inbox (accesses ++ [.take q omsg]) := by
  have hmem := List.mem_of_getElem? hq
  cases h with
  | empty hfull hall hacc => exact absurd (hall _ hmem) (by simp [FilePc.copied])
  | filled hfull hall hacc => exact absurd (hall _ hmem) (by simp [FilePc.copied])
  | awaited earlier last hthreads hfull hall hlast hacc =>
    subst hthreads
    obtain ⟨rfl, rfl⟩ | hearlier := getElem?_concat_cases hq
    · rw [List.set_append_right _ _ (Nat.le_refl _), Nat.sub_self]
      refine .empty hfull (forall_mem_concat hall hcopied) ?_
      rw [List.set_cons_zero, List.length_append, List.length_singleton, turns_take_succ hm, hacc]
      simp
    · exact absurd (hall _ (List.mem_of_getElem? hearlier)) (by simp [FilePc.copied])

/-- What has been recorded is a beginning of the turns. -/
theorem Cell.begins (h : Cell full threads omsg inbox accesses)
    (hfilled : full = true → inbox[threads.length]? = some omsg)
    (hawaited : ∀ (q : ℕ) pc, threads[q]? = some pc → pc.copied = false → inbox[q]? = some omsg) :
    accesses <+: turns 0 inbox := by
  have hwritten {n : ℕ} (hm : inbox[n]? = some omsg) :
      turns 0 (inbox.take n) ++ [.put omsg] <+: turns 0 inbox := by
    refine List.IsPrefix.trans ⟨[.take n omsg], ?_⟩ (turns_begins (List.take_prefix (n + 1) inbox))
    rw [turns_take_succ hm]
    simp
  cases h with
  | empty hfull hall hacc =>
    rw [hacc]
    exact turns_begins (List.take_prefix _ inbox)
  | filled hfull hall hacc =>
    rw [hacc]
    exact hwritten (hfilled hfull)
  | awaited earlier last hthreads hfull hall hlast hacc =>
    rw [hacc]
    exact hwritten (hawaited earlier.length last (by simp [hthreads]) hlast)

end

/-! ## One step -/

section

variable {inbox : List Msg} {rc rc' : Receiver} {q : ℕ} {pc : FilePc}

/-- While the reader holds the permit, no thread is behind. -/
theorem Handoff.all_copied (h : Handoff inbox rc) (hholds : rc.reader.holds = true) :
    ∀ pc ∈ rc.threads, pc.copied = true := by
  have hpermit := h.permit
  have hposted := h.posted
  rw [if_pos hholds] at hpermit
  have hnone : rc.threads.countP FilePc.holds = 0 := by omega
  have hnone' : rc.threads.countP (fun pc => pc = .created) = 0 := by omega
  intro pc hmem
  have h₁ := List.countP_eq_zero.mp hnone pc hmem
  have h₂ := List.countP_eq_zero.mp hnone' pc hmem
  cases pc <;> simp_all [FilePc.holds, FilePc.copied]

/-- The mappings do not matter for the hand-over. -/
theorem Handoff.memory (h : Handoff inbox rc) (gconn : List (Option Bytes)) (fault : Bool) :
    Handoff inbox { rc with gconn := gconn, fault := fault } :=
  ⟨h.permit, h.posted, h.reader, h.threads⟩

theorem storeAt_memory (rc : Receiver) (sfileId fp : ℤ) (bs : Bytes) :
    ∃ gconn fault, rc.storeAt sfileId fp bs = { rc with gconn := gconn, fault := fault } := by
  unfold Receiver.storeAt
  split
  · exact ⟨rc.gconn, rc.fault, rfl⟩
  · split
    · split
      · exact ⟨_, rc.fault, rfl⟩
      · exact ⟨rc.gconn, true, rfl⟩
    · exact ⟨rc.gconn, true, rfl⟩

/-- Only action 5 has to do with the hand-over. -/
theorem switch_cases (rc : Receiver) (pmsg : Msg) (old : Bytes) :
    (pmsg.action = 5 ∧ rc.switch pmsg old = { rc with reader := .waiting pmsg }) ∨
      (pmsg.action ≠ 5 ∧
        ∃ gconn fault, rc.switch pmsg old = { rc with gconn := gconn, fault := fault }) := by
  unfold Receiver.switch
  split_ifs with h3 h5
  · refine .inr ⟨by simp [h3], ?_⟩
    unfold Receiver.caseMinus3
    split
    · exact ⟨_, rc.fault, rfl⟩
    · exact ⟨rc.gconn, true, rfl⟩
  · exact .inl ⟨h5, rfl⟩
  · exact .inr ⟨h5, rc.gconn, rc.fault, rfl⟩

end

/-- What a step of `thread_read` does in action 5. -/
inductive ReaderStep (rc rc' : Receiver) : Prop
  | waits (m : Msg) (hreader : rc.reader = .waiting m) (hsem : 0 < rc.sem0)
      (heq : rc' = { rc with sem0 := rc.sem0 - 1, reader := .copying m })
  | copies (m : Msg) (hreader : rc.reader = .copying m)
      (heq : rc' = { rc with omsg := m, reader := .posting })
  | posts (hreader : rc.reader = .posting)
      (heq : rc' = { rc with sem1 := rc.sem1 + 1, reader := .creating })
  | creates (hreader : rc.reader = .creating)
      (heq : rc' = { rc with threads := rc.threads ++ [.created], reader := .recv })

theorem readerStep {rc rc' : Receiver} {old : Bytes} (hrecv : rc.reader ≠ .recv)
    (h : rc.threadRead [] old = some rc') : ReaderStep rc rc' := by
  cases hr : rc.reader with
  | recv => exact absurd hr hrecv
  | waiting m =>
    simp only [Receiver.threadRead, hr] at h
    split_ifs at h with hsem
    exact .waits m hr hsem (Option.some.inj h).symm
  | copying m =>
    simp only [Receiver.threadRead, hr] at h
    exact .copies m hr (Option.some.inj h).symm
  | posting =>
    simp only [Receiver.threadRead, hr] at h
    exact .posts hr (Option.some.inj h).symm
  | creating =>
    simp only [Receiver.threadRead, hr] at h
    exact .creates hr (Option.some.inj h).symm
  | exited => simp [Receiver.threadRead, hr] at h

/-- What a step of `recv_file` does up to `sem_post(&sem[0])`. -/
inductive TakeStep (rc rc' : Receiver) (q : ℕ) : FilePc → Prop
  | waits (hsem : 0 < rc.sem1)
      (heq : rc' = { rc.setThread q .copying with sem1 := rc.sem1 - 1 }) : TakeStep rc rc' q .created
  | copies (heq : rc' = rc.setThread q (.posting rc.omsg)) : TakeStep rc rc' q .copying
  | posts (m : Msg) (heq : rc' = { rc.setThread q (.opening m) with sem0 := rc.sem0 + 1 }) :
      TakeStep rc rc' q (.posting m)

theorem takeStep {rc rc' : Receiver} {q : ℕ} {pc : FilePc} (hq : rc.threads[q]? = some pc)
    (h : rc.takeNotice q = some rc') : TakeStep rc rc' q pc := by
  simp only [Receiver.takeNotice, hq, Option.bind_some] at h
  cases pc with
  | created =>
    simp only at h
    split_ifs at h with hsem
    exact .waits hsem (Option.some.inj h).symm
  | copying => exact .copies (Option.some.inj h).symm
  | posting m => exact .posts m (Option.some.inj h).symm
  | opening m => cases h
  | writing m sockfd1 => cases h
  | receiving m sockfd1 fp => cases h
  | closing sockfd1 => cases h
  | ended => cases h

/-- The thread has passed `sem_post(&sem[0])` and opened its connection. -/
def FilePc.connected : FilePc → Bool
  | .writing _ _ | .receiving _ _ _ | .closing _ | .ended => true
  | _ => false

/-- Behind the hand-over a thread changes its own place and the mappings. -/
theorem receiveStep {rc rc' : Receiver} {q sockfd1 : ℕ} {bs : Bytes}
    (h : rc.receiveBlock q sockfd1 bs = some rc') :
    ∃ pc pc' gconn fault, rc.threads[q]? = some pc ∧ (pc.holds = false ∧ pc ≠ .created) ∧
      pc'.connected = true ∧ rc' = { rc.setThread q pc' with gconn := gconn, fault := fault } := by
  simp only [Receiver.receiveBlock, Option.bind_eq_some_iff] at h
  obtain ⟨pc, hq, h⟩ := h
  cases pc with
  | created => cases h
  | copying => cases h
  | posting m => cases h
  | opening m =>
    cases h
    exact ⟨_, .writing m sockfd1, rc.gconn, rc.fault, hq, by simp [FilePc.holds], rfl, rfl⟩
  | writing m c =>
    cases h
    exact ⟨_, .receiving { m with action := -5 } c m.offset, rc.gconn, rc.fault, hq,
      by simp [FilePc.holds], rfl, rfl⟩
  | receiving m c fp =>
    obtain ⟨gconn, fault, hstore⟩ := storeAt_memory rc m.sfileId fp bs
    simp only [hstore] at h
    split_ifs at h with hlen hfull
    · cases h
      exact ⟨_, .receiving m c (fp + RECVBUF_SIZE), gconn, fault, hq, by simp [FilePc.holds], rfl,
        rfl⟩
    · cases h
      exact ⟨_, .closing c, gconn, fault, hq, by simp [FilePc.holds], rfl, rfl⟩
  | closing c =>
    cases h
    exact ⟨_, .ended, rc.gconn, rc.fault, hq, by simp [FilePc.holds], rfl, rfl⟩
  | ended => cases h

theorem Handoff.connected {inbox : List Msg} {rc : Receiver} {q : ℕ} {pc pc' : FilePc}
    (h : Handoff inbox rc) (hq : rc.threads[q]? = some pc) (hpc : pc.holds = false ∧ pc ≠ .created)
    (hpc' : pc'.connected = true) : Handoff inbox (rc.setThread q pc') := by
  apply h.later hq hpc
  · cases pc' <;> simp_all [FilePc.connected, FilePc.holds]
  · cases pc' <;> simp_all [FilePc.connected, FilePc.Gets]

theorem ordered_recv {s t : Notices} {bs old : Bytes} (h : Ordered s)
    (hstep : noticeStep s (.recv bs old) = some t) : Ordered t := by
  obtain ⟨hhand, hheard, hcell⟩ := h
  simp only [noticeStep] at hstep
  split_ifs at hstep with hrecv hact
  · simp only [Receiver.threadRead, hrecv.1, if_neg hrecv.2.1, Option.map_some] at hstep
    have hlen : s.inbox.length = s.client.threads.length := by
      simpa [Receiver.heard, hrecv.1] using hheard
    rcases switch_cases s.client (Msg.ofBytes (pad sizeofMsg bs)) old with
      ⟨-, hswitch⟩ | ⟨hne, -⟩
    · rw [hswitch] at hstep
      cases hstep
      have hcell' : Cell false s.client.threads s.client.omsg s.inbox s.accesses := by
        simpa [hrecv.1, ReaderPc.put] using hcell
      refine ⟨(hhand.mono (List.prefix_append _ _)).hear hrecv.1 ?_, ?_, ?_⟩
      · rw [← hlen, List.getElem?_concat_length]
      · simp [Receiver.heard, hlen]
      · exact hcell'.hear (Nat.le_of_eq hlen.symm) _
    · exact absurd hact hne
  · simp only [Receiver.threadRead, hrecv.1, if_neg hrecv.2.1, Option.map_some] at hstep
    rcases switch_cases s.client (Msg.ofBytes (pad sizeofMsg bs)) old with
      ⟨h5, -⟩ | ⟨-, gconn, fault, hswitch⟩
    · exact absurd h5 hact
    · rw [hswitch] at hstep
      cases hstep
      exact ⟨hhand.memory gconn fault, hheard, hcell⟩

theorem ordered_threadRead {s t : Notices} (h : Ordered s)
    (hstep : noticeStep s .threadRead = some t) : Ordered t := by
  obtain ⟨hhand, hheard, hcell⟩ := h
  simp only [noticeStep] at hstep
  split_ifs at hstep with hrecv
  obtain ⟨client, hread, rfl⟩ := Option.map_eq_some_iff.mp hstep
  have hkeeps := (threadRead_keeps hrecv hread).1
  refine ⟨hhand.threadRead hrecv hread, hheard.trans hkeeps.symm, ?_⟩
  cases readerStep hrecv hread with
  | waits m hreader hsem heq =>
    subst heq
    simpa [hreader, ReaderPc.put, ReaderPc.puts] using hcell
  | copies m hreader heq =>
    subst heq
    have hall := hhand.all_copied (by simp [hreader, ReaderPc.holds])
    have hempty : Cell false s.client.threads s.client.omsg s.inbox s.accesses := by
      simpa [hreader, ReaderPc.put] using hcell
    simpa [hreader, ReaderPc.put, ReaderPc.puts] using hempty.write hall m
  | posts hreader heq =>
    subst heq
    simpa [hreader, ReaderPc.put, ReaderPc.puts] using hcell
  | creates hreader heq =>
    subst heq
    have hfull : Cell true s.client.threads s.client.omsg s.inbox s.accesses := by
      simpa [hreader, ReaderPc.put] using hcell
    simpa [hreader, ReaderPc.put, ReaderPc.puts] using hfull.create

theorem ordered_takeNotice {s t : Notices} {q : ℕ} (h : Ordered s)
    (hstep : noticeStep s (.takeNotice q) = some t) : Ordered t := by
  obtain ⟨hhand, hheard, hcell⟩ := h
  simp only [noticeStep, Option.bind_eq_some_iff, Option.map_eq_some_iff] at hstep
  obtain ⟨pc, hq, client, htake, rfl⟩ := hstep
  cases takeStep hq htake with
  | waits hsem heq =>
    subst heq
    refine ⟨hhand.wait hq hsem, hheard.trans (heard_setThread _ _ _).symm, ?_⟩
    simp only [FilePc.takes, List.append_nil]
    exact hcell.goOn hq rfl
  | copies heq =>
    subst heq
    refine ⟨hhand.copy hq, hheard.trans (heard_setThread _ _ _).symm, ?_⟩
    exact hcell.take hq (hhand.threads q _ hq) rfl
  | posts m heq =>
    subst heq
    refine ⟨hhand.post hq, hheard.trans (heard_setThread _ _ _).symm, ?_⟩
    simp only [FilePc.takes, List.append_nil]
    exact hcell.goOn hq rfl

theorem ordered_receiveBlock {s t : Notices} {q sockfd1 : ℕ} {bs : Bytes} (h : Ordered s)
    (hstep : noticeStep s (.receiveBlock q sockfd1 bs) = some t) : Ordered t := by
  obtain ⟨hhand, hheard, hcell⟩ := h
  simp only [noticeStep, Option.map_eq_some_iff] at hstep
  obtain ⟨client, hreceive, rfl⟩ := hstep
  obtain ⟨pc, pc', gconn, fault, hq, hpc, hpc', rfl⟩ := receiveStep hreceive
  have hcopied : pc.copied = true := by
    cases pc <;> simp_all [FilePc.holds, FilePc.copied]
  have hcopied' : pc'.copied = true := by
    cases pc' <;> simp_all [FilePc.connected, FilePc.copied]
  refine ⟨(hhand.connected hq hpc hpc').memory gconn fault,
    hheard.trans (heard_setThread _ _ _).symm, ?_⟩
  exact hcell.goOn hq (hcopied'.trans hcopied.symm)

theorem ordered_step {s t : Notices} {a : NoticeAction} (h : Ordered s)
    (hstep : noticeStep s a = some t) : Ordered t := by
  cases a with
  | recv bs old => exact ordered_recv h hstep
  | threadRead => exact ordered_threadRead h hstep
  | takeNotice q => exact ordered_takeNotice h hstep
  | receiveBlock q sockfd1 bs => exact ordered_receiveBlock h hstep

/-! ## The hand-over comes to an end -/

/-- Steps of the hand-over that are left. -/
def ReaderPc.left : ReaderPc → ℕ
  | .waiting _ => 7
  | .copying _ => 6
  | .posting => 5
  | .creating => 4
  | _ => 0

def FilePc.left : FilePc → ℕ
  | .created => 3
  | .copying => 2
  | .posting _ => 1
  | _ => 0

def Receiver.left (rc : Receiver) : ℕ := rc.reader.left + (rc.threads.map FilePc.left).sum

theorem left_step {s t : Notices} {a : NoticeAction} (ha : a.HandsOver)
    (hstep : noticeStep s a = some t) : t.client.left + 1 = s.client.left ∧ t.inbox = s.inbox := by
  cases a with
  | recv bs old => exact ha.elim
  | receiveBlock q sockfd1 bs => exact ha.elim
  | threadRead =>
    simp only [noticeStep] at hstep
    split_ifs at hstep with hrecv
    obtain ⟨client, hread, rfl⟩ := Option.map_eq_some_iff.mp hstep
    refine ⟨?_, rfl⟩
    cases readerStep hrecv hread with
    | waits m hreader hsem heq => subst heq; simp [Receiver.left, hreader, ReaderPc.left]; omega
    | copies m hreader heq => subst heq; simp [Receiver.left, hreader, ReaderPc.left]; omega
    | posts hreader heq => subst heq; simp [Receiver.left, hreader, ReaderPc.left]; omega
    | creates hreader heq =>
      subst heq
      simp [Receiver.left, hreader, ReaderPc.left, FilePc.left]
      omega
  | takeNotice q =>
    simp only [noticeStep, Option.bind_eq_some_iff, Option.map_eq_some_iff] at hstep
    obtain ⟨pc, hq, client, htake, rfl⟩ := hstep
    refine ⟨?_, rfl⟩
    have hsum (pc' : FilePc) := sum_set_add FilePc.left hq pc'
    cases takeStep hq htake with
    | waits hsem heq =>
      subst heq
      have := hsum .copying
      simp only [Receiver.left, Receiver.setThread, FilePc.left] at this ⊢
      omega
    | copies heq =>
      subst heq
      have := hsum (.posting s.client.omsg)
      simp only [Receiver.left, Receiver.setThread, FilePc.left] at this ⊢
      omega
    | posts m heq =>
      subst heq
      have := hsum (.opening m)
      simp only [Receiver.left, Receiver.setThread, FilePc.left] at this ⊢
      omega

theorem left_run {s t : Notices} {as : List NoticeAction} (has : ∀ a ∈ as, a.HandsOver)
    (hrun : noticeMachine.run s as = some t) :
    t.client.left + as.length = s.client.left ∧ t.inbox = s.inbox := by
  induction as generalizing s with
  | nil =>
    cases hrun
    exact ⟨rfl, rfl⟩
  | cons a as ih =>
    obtain ⟨u, hstep, hrest⟩ := run_cons_eq_some.mp hrun
    obtain ⟨hleft, hinbox⟩ := left_step (has a List.mem_cons_self) hstep
    obtain ⟨hleft', hinbox'⟩ := ih (fun b hb => has b (List.mem_cons_of_mem _ hb)) hrest
    exact ⟨by rw [List.length_cons]; omega, hinbox'.trans hinbox⟩

/-- Where the hand-over cannot go on, the reader is back at its `recv` and every thread has its
message: a thread that waits for `sem[1]` was promised a permit, and the permit of a reader that
waits for `sem[0]` is nowhere else. -/
theorem all_taken_of_stuck {s : Notices} (h : Ordered s)
    (hstuck : ∀ a, a.HandsOver → noticeStep s a = none) : s.accesses = turns 0 s.inbox := by
  obtain ⟨hhand, hheard, hcell⟩ := h
  have hpermit := hhand.permit
  have hposted := hhand.posted
  have hthread (q : ℕ) (pc : FilePc) (hq : s.client.threads[q]? = some pc) :
      s.client.takeNotice q = none := by
    have := hstuck (.takeNotice q) trivial
    simpa [noticeStep, hq] using this
  have hall (pc : FilePc) (hmem : pc ∈ s.client.threads) : pc.holds = false ∧ pc ≠ .created := by
    obtain ⟨q, hq⟩ := List.mem_iff_getElem?.mp hmem
    have hnone := hthread q pc hq
    simp only [Receiver.takeNotice, hq, Option.bind_some] at hnone
    cases pc with
    | created =>
      have hpos : 0 < s.client.threads.countP (fun pc => pc = .created) :=
        List.countP_pos_iff.mpr ⟨_, hmem, by simp⟩
      rw [if_pos (by omega)] at hnone
      cases hnone
    | copying => cases hnone
    | posting m => cases hnone
    | opening m => simp [FilePc.holds]
    | writing m c => simp [FilePc.holds]
    | receiving m c fp => simp [FilePc.holds]
    | closing c => simp [FilePc.holds]
    | ended => simp [FilePc.holds]
  have hholds : s.client.threads.countP FilePc.holds = 0 :=
    List.countP_eq_zero.mpr fun pc hmem => by simp [(hall pc hmem).1]
  have hcreated : s.client.threads.countP (fun pc => pc = .created) = 0 :=
    List.countP_eq_zero.mpr fun pc hmem => by simpa using (hall pc hmem).2
  have hrecv : s.client.reader = .recv := by
    have hreader := hstuck .threadRead trivial
    have hat := hhand.reader
    cases hr : s.client.reader with
    | recv => rfl
    | waiting m =>
      simp only [hr, ReaderPc.holds, reduceCtorEq, if_false, Bool.false_eq_true] at hpermit hposted
      have hsem : 0 < s.client.sem0 := by omega
      simp [noticeStep, hr, Receiver.threadRead, hsem] at hreader
    | copying m => simp [noticeStep, hr, Receiver.threadRead] at hreader
    | posting => simp [noticeStep, hr, Receiver.threadRead] at hreader
    | creating => simp [noticeStep, hr, Receiver.threadRead] at hreader
    | exited =>
      rw [hr] at hat
      exact hat.elim
  have hlen : s.inbox.length = s.client.threads.length := by
    simpa [Receiver.heard, hrecv] using hheard
  rw [hrecv] at hcell
  cases hcell with
  | empty hfull hcopied hacc => rw [hacc, ← hlen, List.take_length]
  | filled hfull hcopied hacc => cases hfull
  | awaited earlier last hthreads hfull hcopied hlast hacc =>
    have hlast' := hall last (by simp [hthreads])
    cases last <;> simp_all [FilePc.holds, FilePc.copied]

theorem Ordered.handedOver {s : Notices} (h : Ordered s) : HandedOver s := by
  have hpermit := h.handoff.permit
  refine ⟨h.cell.begins ?_ ?_, ?_, by omega, s.client.left, fun as t has hrun => ⟨?_, ?_⟩⟩
  · intro hfull
    have hat := h.handoff.reader
    cases hr : s.client.reader <;> rw [hr] at hat hfull <;> first | exact hat | cases hfull
  · intro q pc hq hpc
    have hgets := h.handoff.threads q pc hq
    cases pc <;> first | exact hgets | cases hpc
  · rintro q m (hq | hq)
    · exact h.handoff.threads q _ hq
    · exact h.handoff.threads q _ hq
  · have := (left_run has hrun).1
    omega
  · intro hstuck
    have hordered : Ordered t :=
      run_invariant (M := noticeMachine) (fun _ _ _ hs hstep => ordered_step hs hstep) h hrun
    rw [all_taken_of_stuck hordered hstuck, (left_run has hrun).2]

theorem ordered_start : Ordered .start :=
  ⟨handoff_atRest [] Receiver.atRest_start, rfl, .empty rfl (by simp [Notices.start, Receiver.start])
    rfl⟩

/-- Whatever messages `thread_read` handles and in whatever order its threads run: the variable is
written and read in turns, thread `q` takes the `q`-th message of action 5, every message is taken
in the end, and the two semaphores hold at most one permit. -/
theorem notices_handed_over (as : List NoticeAction) :
    noticeMachine.EachState HandedOver .start as := by
  have hordered : noticeMachine.EachState Ordered .start as :=
    eachState_of_eachStep (Q := fun _ _ => True) (fun _ _ _ hs _ hstep => ordered_step hs hstep)
      ordered_start (eachStep_of_forall fun _ _ => trivial)
  exact hordered.mono fun _ hs => hs.handedOver

def noticeOf (offset : ℤ) : Msg := { Msg.zero with action := 5, offset := offset }

/-- Two messages of action 5; the second is read before the thread of the first has taken its copy,
and waits for it. -/
def twoNotices : List NoticeAction :=
  .recv (noticeOf 0).toBytes [] :: List.replicate 4 .threadRead ++
    .recv (noticeOf 500).toBytes [] :: List.replicate 3 (.takeNotice 0) ++
    List.replicate 4 .threadRead ++ List.replicate 3 (.takeNotice 1)

theorem twoNotices_taken :
    ∃ t, noticeMachine.run .start twoNotices = some t ∧
      t.client.threads = [.opening (noticeOf 0), .opening (noticeOf 500)] ∧
      t.accesses = turns 0 [noticeOf 0, noticeOf 500] ∧ HandedOver t := by
  have hrun : (noticeMachine.run .start twoNotices).any (fun t =>
      t.client.threads = [.opening (noticeOf 0), .opening (noticeOf 500)] ∧
        t.accesses = turns 0 [noticeOf 0, noticeOf 500]) = true := by
    decide +kernel
  obtain ⟨t, ht, hcheck⟩ := (Option.any_eq_true ..).mp hrun
  obtain ⟨hthreads, haccesses⟩ := of_decide_eq_true hcheck
  exact ⟨t, ht, hthreads, haccesses, (notices_handed_over twoNotices).last ht⟩

end LinuxCat.ReceiverModel
