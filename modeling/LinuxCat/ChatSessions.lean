import LinuxCat.ChatSystem
import LinuxCat.Histories
import LinuxCat.LoginAnswers

/-! # Sessions across the connection

`main` and `thread_read` share `lognum` without a lock, and the server believes the name in every
record. That both go well rests on what is under way on the connection: never more than one login
or its answer, and this while `main` waits for it. -/
namespace LinuxCat.ChatSystem
open LabelledMachines LabelledMachines.Machine ByteLayouts Messages ServerModel Histories
open ClientModel (Client mainStep Session phaseOf)

variable {DB : Type} {sql : Sqlite DB}

namespace User

/-- The records the server has not read. -/
def queue (u : User) : List Msg := u.client.written.drop u.handled

/-- The records `thread_read` has not read. -/
def unread (u : User) (inbox : List Msg) : List Msg := inbox.drop u.received

/-- How many logins and answers to logins are under way. -/
def pending (u : User) (inbox : List Msg) : ℕ :=
  u.queue.countP Msg.isLogin + (u.unread inbox).countP Msg.isAnswer

/-- The client is in a session, or the answer that lets it in is under way. -/
def LetIn (u : User) (inbox : List Msg) : Prop :=
  u.client.inSession = true ∨ ∃ m ∈ u.unread inbox, m.action = 1

end User

/-- A request that a client makes in a session. -/
def OfSession (m : Msg) : Prop := m.action ∈ [2, 3, 4, 6, 9, 10]

/-- A request of a session stands behind a login that was verified, and before no logout. -/
def Authorised (history : List Served) (c : ℕ) (before : List Msg) (m : Msg) : Prop :=
  OfSession m → LoggedInAs history c m.name.str ∧ ∀ x ∈ before, x.action ≠ 10

/-- The client on connection `c`, what is under way on the connection, and the history of the
server. -/
structure Linked (history : List Served) (c : ℕ) (u : User) (inbox : List Msg) : Prop where
  handled : u.handled ≤ u.client.written.length
  received : u.received ≤ inbox.length
  session : ∃ p, phaseOf u.client.written = some p ∧ Session u.client p
  pending : u.client.running = true → u.pending inbox = if u.client.waits then 1 else 0
  last : u.client.running = true → u.client.waits = true →
    (∀ m ∈ u.queue.dropLast, Msg.isLogin m = false) ∧
      ∀ m ∈ u.queue, Msg.isLogin m = true → m.name = u.client.pmsg.name
  verified : u.client.running = true → u.LetIn inbox →
    LoggedInAs history c u.client.pmsg.name.str ∧ ∀ x ∈ u.queue, x.action ≠ 10
  queue : EachGiven (Authorised history c) u.queue

section
variable {history : List Served} {c : ℕ} {u : User} {inbox : List Msg}

theorem linked_start (stdin : Bytes) (num : ℤ) (pmsg : Msg) :
    Linked history c ⟨.start stdin num pmsg, 0, 0⟩ [] where
  handled := Nat.zero_le _
  received := Nat.zero_le _
  session := ⟨.outside, rfl, .inl rfl⟩
  pending _ := rfl
  last _ h := by simp [Client.waits, Client.start, ClientModel.Pc.loggingIn] at h
  verified _ h := by
    rcases h with h | ⟨m, hm, -⟩
    · simp [Client.inSession, Client.start, ClientModel.Pc.loggingIn, ClientModel.Pc.atHome] at h
    · simp [User.unread] at hm
  queue := eachGiven_nil

/-- Nothing is under way when `main` does not wait. -/
theorem Linked.quiet (h : Linked history c u inbox) (hrunning : u.client.running = true)
    (hwaits : u.client.waits = false) :
    (∀ m ∈ u.queue, Msg.isLogin m = false) ∧ ∀ m ∈ u.unread inbox, Msg.isAnswer m = false := by
  have hpending := h.pending hrunning
  rw [hwaits, if_neg Bool.false_ne_true, User.pending, Nat.add_eq_zero_iff, List.countP_eq_zero,
    List.countP_eq_zero] at hpending
  exact ⟨fun m hm => by simpa using hpending.1 m hm, fun m hm => by simpa using hpending.2 m hm⟩

/-- An answer is read while `main` waits for it. -/
theorem Linked.waits_of_answer (h : Linked history c u inbox) (hrunning : u.client.running = true)
    {m : Msg} (hm : m ∈ u.unread inbox) (hanswer : Msg.isAnswer m = true) :
    u.client.waits = true := by
  by_contra hwaits
  have hquiet := (h.quiet hrunning (by simpa using hwaits)).2 m hm
  simp [hanswer] at hquiet

/-! ### The client goes on -/

theorem queue_of_written {d : Client} {ws : List Msg} (h : u.handled ≤ u.client.written.length)
    (hwritten : d.written = u.client.written ++ ws) :
    User.queue { u with client := d } = u.queue ++ ws := by
  rw [User.queue, User.queue, hwritten, drop_append_of_le h]

theorem waits_not_inSession {d : Client} (h : d.waits = true) : d.inSession = false := by
  cases hpc : d.pc <;>
    simp_all [Client.waits, Client.inSession, ClientModel.Pc.loggingIn, ClientModel.Pc.atHome]

theorem running_of_mainStep {d : Client} {file : Option Bytes} (h : mainStep u.client file = some d) :
    u.client.running = true := by
  simp only [Client.running, decide_eq_true_eq]
  constructor <;>
    · intro hpc
      simp [mainStep, hpc] at h

/-- A step of `main` that waits neither before nor behind it. -/
theorem linked_of_quiet (h : Linked history c u inbox) {d : Client}
    (hrunning : u.client.running = true) (hc : u.client.waits = false) (hd : d.waits = false)
    (hphase : ∃ p, phaseOf d.written = some p ∧ Session d p) (ws : List Msg)
    (hwritten : d.written = u.client.written ++ ws) (hws : ∀ m ∈ ws, Msg.isLogin m = false)
    (hsession : d.inSession = true → LoggedInAs history c d.pmsg.name.str ∧
      ∀ x ∈ u.queue ++ ws, x.action ≠ 10)
    (hqueue : EachGiven (Authorised history c) (u.queue ++ ws)) :
    Linked history c { u with client := d } inbox := by
  obtain ⟨hlogins, hanswers⟩ := h.quiet hrunning hc
  have heq := queue_of_written h.handled hwritten
  have hzero : (u.queue ++ ws).countP Msg.isLogin = 0 :=
    List.countP_eq_zero.mpr fun m hm => by
      simp [List.forall_mem_append.mpr ⟨hlogins, hws⟩ m hm]
  have hzero' : (u.unread inbox).countP Msg.isAnswer = 0 :=
    List.countP_eq_zero.mpr fun m hm => by simp [hanswers m hm]
  refine ⟨?_, h.received, hphase, fun _ => ?_, fun _ hw => ?_, fun _ hin => ?_, heq ▸ hqueue⟩
  · rw [hwritten, List.length_append]
    exact h.handled.trans (Nat.le_add_right _ _)
  · have hunread : User.unread { u with client := d } inbox = u.unread inbox := rfl
    rw [User.pending, heq, hunread, hzero, hzero', hd, if_neg Bool.false_ne_true]
  · simp [hd] at hw
  · rw [heq]
    refine hsession (hin.resolve_right ?_)
    rintro ⟨m, hm, hact⟩
    simpa [Msg.isAnswer, hact] using hanswers m hm

/-- The step of `main` that writes the login, and waits behind it. -/
theorem linked_of_asks (h : Linked history c u inbox) {d : Client}
    (hrunning : u.client.running = true) (hc : u.client.waits = false) (hd : d.waits = true)
    (hphase : ∃ p, phaseOf d.written = some p ∧ Session d p)
    (hwritten : d.written = u.client.written ++ [d.pmsg]) (hact : d.pmsg.action = 1) :
    Linked history c { u with client := d } inbox := by
  obtain ⟨hlogins, hanswers⟩ := h.quiet hrunning hc
  have hqueue := queue_of_written h.handled hwritten
  have hlogin : Msg.isLogin d.pmsg = true := by simp [Msg.isLogin, hact]
  refine ⟨?_, h.received, hphase, fun _ => ?_, fun _ _ => ?_, fun _ hin => ?_, ?_⟩
  · rw [hwritten, List.length_append]
    exact h.handled.trans (Nat.le_add_right _ _)
  · have hzero : u.queue.countP Msg.isLogin = 0 :=
      List.countP_eq_zero.mpr fun m hm => by simp [hlogins m hm]
    have hzero' : (u.unread inbox).countP Msg.isAnswer = 0 :=
      List.countP_eq_zero.mpr fun m hm => by simp [hanswers m hm]
    have hunread : User.unread { u with client := d } inbox = u.unread inbox := rfl
    rw [User.pending, hqueue, hunread, List.countP_append, hzero, hzero', List.countP_singleton,
      if_pos hlogin, hd, if_pos rfl]
  · rw [hqueue, List.dropLast_concat]
    refine ⟨hlogins, fun m hm hm' => ?_⟩
    rcases List.mem_append.mp hm with hm | hm
    · simp [hlogins m hm] at hm'
    · rw [List.mem_singleton.mp hm]
  · rcases hin with hs | ⟨m, hm, hm1⟩
    · rw [waits_not_inSession hd] at hs
      cases hs
    · have hnot := hanswers m hm
      simp [Msg.isAnswer, hm1] at hnot
  · rw [hqueue]
    exact h.queue.concat fun hof => by simp [OfSession, hact] at hof

theorem linked_main (h : Linked history c u inbox) {file : Option Bytes} {d : Client}
    (hstep : mainStep u.client file = some d) :
    Linked history c { u with client := d } inbox := by
  have hrunning := running_of_mainStep hstep
  obtain ⟨p, hp, hsession⟩ := h.session
  have hphase : ∃ p', phaseOf d.written = some p' ∧ Session d p' := by
    cases ClientModel.session_main hsession (ClientModel.mainStep_cases hstep) with
    | silent hwritten hsession' => exact ⟨p, by rw [hwritten, hp], hsession'⟩
    | wrote p' hwritten hnext hsession' =>
      refine ⟨p', ?_, hsession'⟩
      rw [hwritten, ClientModel.phaseOf_concat, hp]
      exact hnext
  have hsame : EachGiven (Authorised history c) (u.queue ++ []) := by
    rw [List.append_nil]
    exact h.queue
  cases ClientModel.pace_main hsession (ClientModel.mainStep_cases hstep) with
  | waiting hc hd hpmsg hwritten =>
    have hqueue : User.queue { u with client := d } = u.queue := by
      rw [User.queue, User.queue, hwritten]
    refine ⟨hwritten ▸ h.handled, h.received, hphase, fun _ => ?_, fun _ _ => ?_, fun _ hin => ?_,
      hqueue ▸ h.queue⟩
    · rw [User.pending, hqueue, show d.waits = u.client.waits from hd.trans hc.symm]
      exact h.pending hrunning
    · rw [hqueue, hpmsg]
      exact h.last hrunning hc
    · rw [hqueue, hpmsg]
      refine h.verified hrunning (hin.imp_left fun hs => ?_)
      rw [waits_not_inSession hd] at hs
      cases hs
  | asks hc hd hs hwritten hact => exact linked_of_asks h hrunning hc hd hphase hwritten hact
  | outside hc hd hs hleft hwritten =>
    have hnot {P : Prop} : d.inSession = true → P := fun h => by simp [hs] at h
    rcases hwritten with hwritten | ⟨hwritten, hact⟩
    · exact linked_of_quiet h hrunning hc hd hphase [] (by rw [hwritten, List.append_nil]) (by simp)
        hnot hsame
    · exact linked_of_quiet h hrunning hc hd hphase [d.pmsg] hwritten (by simp [Msg.isLogin, hact]) hnot
        (h.queue.concat fun hof => by simp [OfSession, hact] at hof)
  | inside hc hd hs hs' hname hwritten =>
    obtain ⟨hlogged, hno10⟩ := h.verified hrunning (.inl hs)
    rw [← hname] at hlogged
    rcases hwritten with hwritten | ⟨hwritten, hact⟩
    · exact linked_of_quiet h hrunning hc hd hphase [] (by rw [hwritten, List.append_nil]) (by simp)
        (fun _ => ⟨hlogged, by rwa [List.append_nil]⟩) hsame
    · simp only [List.mem_cons, List.not_mem_nil, or_false] at hact
      refine linked_of_quiet h hrunning hc hd hphase [d.pmsg] hwritten ?_ (fun _ => ⟨hlogged, ?_⟩)
        (h.queue.concat fun _ => ⟨hlogged, hno10⟩)
      · simp only [Msg.isLogin, List.mem_singleton, forall_eq, decide_eq_false_iff_not]
        omega
      · exact List.forall_mem_append.mpr ⟨hno10, List.forall_mem_singleton.mpr (by omega)⟩
  | quits hc hd hs hs' hname hwritten hact =>
    obtain ⟨hlogged, hno10⟩ := h.verified hrunning (.inl hs)
    rw [← hname] at hlogged
    exact linked_of_quiet h hrunning hc hd hphase [d.pmsg] hwritten (by simp [Msg.isLogin, hact])
      (fun h => by simp [hs'] at h) (h.queue.concat fun _ => ⟨hlogged, hno10⟩)

theorem linked_stops (h : Linked history c u inbox) {pc : ClientModel.Pc}
    (hpc : pc = .exited ∨ pc = .fault) {n : ℕ} (hn : n ≤ inbox.length) :
    Linked history c { u with client := u.client.goto pc, received := n } inbox := by
  obtain ⟨p, hp, -⟩ := h.session
  have hrunning : (u.client.goto pc).running ≠ true := by
    rcases hpc with rfl | rfl <;> simp [Client.running, Client.goto]
  have hsession : Session (u.client.goto pc) p := by rcases hpc with rfl | rfl <;> exact trivial
  exact ⟨h.handled, hn, ⟨p, hp, hsession⟩, fun h => absurd h hrunning,
    fun h => absurd h hrunning, fun h => absurd h hrunning, h.queue⟩

/-! ### The client reads -/

theorem session_answered {d : Client} {p : ClientModel.Phase} (h : Session d p) (hwaits : d.waits = true)
    {lognum : ℤ} (hlognum : lognum = 1 ∨ lognum = -1) (sfileId : ℤ) (shown : List ClientModel.Shown) :
    Session { d with lognum := lognum, sfileId := sfileId, shown := shown } p := by
  have hmem : lognum ∈ [0, 1, -1] := by
    rcases hlognum with rfl | rfl <;> simp
  obtain ⟨hpc, hzero⟩ : d.pc.loggingIn = true ∧ d.lognum = 0 := by simpa [Client.waits] using hwaits
  cases hd : d.pc <;> simp only [hd, ClientModel.Pc.loggingIn, reduceCtorEq] at hpc
  case test3 =>
    simp only [Session, hd] at h ⊢
    exact .inr ⟨hmem, (h.resolve_left fun h3 => by omega).2⟩
  case testMinus1 =>
    simp only [Session, hd] at h ⊢
    exact ⟨hmem, h.2⟩
  case test1 =>
    simp only [Session, hd] at h ⊢
    exact ⟨hmem, h.2⟩

/-- The answer lets the client in, or sends it back to the menu. -/
theorem linked_read_answer (h : Linked history c u inbox) (hrunning : u.client.running = true)
    {m : Msg} (hm : inbox[u.received]? = some m) (hanswer : Msg.isAnswer m = true) (sfileId : ℤ)
    (shown : List ClientModel.Shown) :
    Linked history c
      { u with
        client := { u.client with
          lognum := ClientModel.answered u.client.lognum m, sfileId := sfileId, shown := shown }
        received := u.received + 1 } inbox := by
  obtain ⟨p, hp, hsession⟩ := h.session
  have hunread : u.unread inbox = m :: inbox.drop (u.received + 1) := drop_eq_cons hm
  have hmem : m ∈ u.unread inbox := by
    rw [hunread]
    exact List.mem_cons_self
  have hwaits := h.waits_of_answer hrunning hmem hanswer
  have hpc : u.client.pc.loggingIn = true := by
    simp only [Client.waits, decide_eq_true_eq] at hwaits
    exact hwaits.1
  have hlognum : ClientModel.answered u.client.lognum m = 1 ∧ m.action = 1 ∨
      ClientModel.answered u.client.lognum m = -1 := by
    simp only [Msg.isAnswer, decide_eq_true_eq] at hanswer
    rcases hanswer with h1 | h1 <;> simp [ClientModel.answered, h1]
  have hne : ClientModel.answered u.client.lognum m ≠ 0 := by omega
  -- the answer was all that was under way
  have hpending := h.pending hrunning
  rw [User.pending, hunread, List.countP_cons_of_pos hanswer, hwaits, if_pos rfl] at hpending
  have hrest : ∀ x ∈ inbox.drop (u.received + 1), Msg.isAnswer x = false := by
    have hzero : (inbox.drop (u.received + 1)).countP Msg.isAnswer = 0 := by omega
    exact fun x hx => by simpa using List.countP_eq_zero.mp hzero x hx
  refine ⟨h.handled, succ_le_of_getElem? hm, ⟨p, hp, ?_⟩, fun _ => ?_, fun _ hw => ?_, fun _ hin => ?_, h.queue⟩
  · exact session_answered hsession hwaits (hlognum.imp_left And.left) sfileId shown
  · have hw : Client.waits { u.client with
        lognum := ClientModel.answered u.client.lognum m, sfileId := sfileId, shown := shown } =
          false := by
      simp [Client.waits, hne]
    rw [hw, if_neg Bool.false_ne_true]
    have hcount : (inbox.drop (u.received + 1)).countP Msg.isAnswer = 0 := by omega
    have hlogins : u.queue.countP Msg.isLogin = 0 := by omega
    exact Nat.add_eq_zero_iff.mpr ⟨hlogins, hcount⟩
  · simp [Client.waits, hne] at hw
  · have h1 : m.action = 1 := by
      rcases hin with hs | ⟨x, hx, hx1⟩
      · have hhome : u.client.pc.atHome = false := by
          cases hd : u.client.pc <;> simp_all [ClientModel.Pc.loggingIn, ClientModel.Pc.atHome]
        simp only [Client.inSession, hhome, hpc, Bool.false_eq_true, false_or, true_and,
          decide_eq_true_eq] at hs
        rcases hlognum with hl | hl
        · exact hl.2
        · omega
      · have hnot := hrest x hx
        simp [Msg.isAnswer, hx1] at hnot
    exact h.verified hrunning (.inr ⟨m, hmem, h1⟩)

theorem linked_read_other (h : Linked history c u inbox) (hrunning : u.client.running = true)
    {m : Msg} (hm : inbox[u.received]? = some m) (hanswer : Msg.isAnswer m = false) (sfileId : ℤ)
    (shown : List ClientModel.Shown) :
    Linked history c
      { u with
        client := { u.client with sfileId := sfileId, shown := shown }
        received := u.received + 1 } inbox := by
  obtain ⟨p, hp, hsession⟩ := h.session
  have hunread : u.unread inbox = m :: inbox.drop (u.received + 1) := drop_eq_cons hm
  have hcount : (inbox.drop (u.received + 1)).countP Msg.isAnswer =
      (u.unread inbox).countP Msg.isAnswer := by
    rw [hunread, List.countP_cons_of_neg (by simp [hanswer])]
  refine ⟨h.handled, succ_le_of_getElem? hm, ⟨p, hp, hsession⟩, fun _ => ?_, h.last, fun _ hin => ?_, h.queue⟩
  · have hpending := h.pending hrunning
    rw [User.pending, ← hcount] at hpending
    exact hpending
  · refine h.verified hrunning (hin.imp_right ?_)
    rintro ⟨x, hx, hx1⟩
    refine ⟨x, ?_, hx1⟩
    rw [hunread]
    exact List.mem_cons_of_mem _ hx

theorem linked_read (h : Linked history c u inbox) (hrunning : u.client.running = true) {m : Msg}
    (hm : inbox[u.received]? = some m) {r : ClientModel.Round} {d : Client}
    (hd : ClientModel.ReadStep u.client r m d) :
    Linked history c { u with client := d, received := u.received + 1 } inbox := by
  cases hd with
  | goes sfileId shown hid =>
    by_cases hanswer : Msg.isAnswer m = true
    · exact linked_read_answer h hrunning hm hanswer sfileId shown
    · have hnot : Msg.isAnswer m = false := by simpa using hanswer
      have hsame : ClientModel.answered u.client.lognum m = u.client.lognum := by
        simp [ClientModel.answered, not_isAnswer.mp hnot]
      rw [hsame]
      exact linked_read_other h hrunning hm hnot sfileId shown
  | leaves hnot => exact linked_stops h (.inr rfl) (succ_le_of_getElem? hm)

theorem linked_serverExit (h : Linked history c u inbox) :
    Linked history c { u with client := ClientModel.serverExit u.client } inbox :=
  ⟨h.handled, h.received, h.session, h.pending, h.last, h.verified, h.queue⟩

/-! ### The server goes on -/

/-- A step logs its connection in, or leaves it as it was unless it logs it out. -/
theorem loggedInAs_concat_iff {cfd : ℤ} {name : Bytes} {i : Served} :
    LoggedInAs (history ++ [i]) cfd name ↔
      (i.Verified ∧ i.cfd = cfd ∧ i.request.map (fun m => m.name.str) = some name) ∨
        (LoggedInAs history cfd name ∧
          (i.cfd = cfd → ∀ m, i.request = some m → m.action = 10 → m.name.str ≠ name)) := by
  constructor
  · rintro ⟨before, login, after, heq, hverified, hcfd, hname, hafter⟩
    rcases List.eq_nil_or_concat after with rfl | ⟨rest, last, rfl⟩
    · obtain ⟨-, hlogin⟩ := List.append_inj' heq rfl
      obtain rfl := List.head_eq_of_cons_eq hlogin
      exact .inl ⟨hverified, hcfd, hname⟩
    · rw [List.concat_eq_append] at heq hafter
      rw [← List.cons_append, ← List.append_assoc] at heq
      obtain ⟨rfl, hlast⟩ := List.append_inj' heq rfl
      obtain rfl := List.head_eq_of_cons_eq hlast
      refine .inr ⟨⟨before, login, rest, rfl, hverified, hcfd, hname, fun j hj => ?_⟩, ?_⟩
      · exact hafter j (List.mem_append_left _ hj)
      · exact hafter i (by simp)
  · rintro (⟨hverified, hcfd, hname⟩ | ⟨⟨before, login, after, rfl, hverified, hcfd, hname, hafter⟩, hi⟩)
    · exact ⟨history, i, [], rfl, hverified, hcfd, hname, by simp⟩
    · refine ⟨before, login, after ++ [i], by simp, hverified, hcfd, hname, ?_⟩
      exact List.forall_mem_append.mpr ⟨hafter, List.forall_mem_singleton.mpr hi⟩

theorem loggedInAs_concat {name : Bytes} {i : Served} (h : LoggedInAs history c name)
    (hi : i.cfd = c → ∀ m, i.request = some m → m.action ≠ 10) :
    LoggedInAs (history ++ [i]) c name :=
  loggedInAs_concat_iff.mpr (.inr ⟨h, fun hc m hm hact => absurd hact (hi hc m hm)⟩)

theorem loggedInAs_login {m : Msg} {i : Served} (hverified : i.Verified) (hcfd : i.cfd = c)
    (hreq : i.request = some m) : LoggedInAs (history ++ [i]) c m.name.str :=
  loggedInAs_concat_iff.mpr (.inl ⟨hverified, hcfd, by simp [hreq]⟩)

theorem recordsTo_append (ws ws' : List (ℤ × Out)) (fd : ℤ) :
    recordsTo (ws ++ ws') fd = recordsTo ws fd ++ recordsTo ws' fd :=
  List.filterMap_append

theorem mem_recordsTo {ws : List (ℤ × Out)} {fd : ℤ} {m : Msg} :
    m ∈ recordsTo ws fd ↔ (fd, Out.record m) ∈ ws := by
  simp only [recordsTo, List.mem_filterMap]
  constructor
  · rintro ⟨⟨fd', o⟩, hw, ho⟩
    cases o with
    | record m' =>
      dsimp only at ho
      split_ifs at ho with hfd
      cases ho
      exact hfd ▸ hw
    | raw bs => cases ho
    | close => cases ho
  · intro hm
    exact ⟨_, hm, by simp⟩

/-- A step of the server that takes nothing from the connection, or the end of it. -/
theorem linked_served (h : Linked history c u inbox) {i : Served}
    (hi : i.cfd = c → ∀ m, i.request = some m → m.action ≠ 10) {ws : List Msg}
    (hws : ∀ m ∈ ws, Msg.isAnswer m = false) :
    Linked (history ++ [i]) c u (inbox ++ ws) := by
  have hunread : u.unread (inbox ++ ws) = u.unread inbox ++ ws := drop_append_of_le h.received ws
  have hcount : ws.countP Msg.isAnswer = 0 :=
    List.countP_eq_zero.mpr fun m hm => by simp [hws m hm]
  refine ⟨h.handled, ?_, h.session, fun hrunning => ?_, h.last, fun hrunning hin => ?_, ?_⟩
  · rw [List.length_append]
    exact h.received.trans (Nat.le_add_right _ _)
  · rw [← h.pending hrunning, User.pending, hunread, List.countP_append, hcount, Nat.add_zero]
    rfl
  · obtain ⟨hlogged, hno10⟩ := h.verified hrunning (hin.imp_right (by
      rintro ⟨m, hm, h1⟩
      rw [hunread] at hm
      refine ⟨m, (List.mem_append.mp hm).resolve_right fun hm => ?_, h1⟩
      have hnot := hws m hm
      simp [Msg.isAnswer, h1] at hnot))
    exact ⟨loggedInAs_concat hlogged hi, hno10⟩
  · exact h.queue.mono fun before m hauth hof =>
      ⟨loggedInAs_concat (hauth hof).1 hi, (hauth hof).2⟩

/-! ### The server takes a record -/

/-- A login that is taken was the last record, and is the only thing under way. -/
theorem Linked.of_login (h : Linked history c u inbox) (hrunning : u.client.running = true)
    {m : Msg} {rest : List Msg} (hqueue : u.queue = m :: rest) (h1 : m.action = 1) :
    u.client.waits = true ∧ rest = [] ∧ m.name = u.client.pmsg.name ∧
      ∀ x ∈ u.unread inbox, Msg.isAnswer x = false := by
  have hmem : m ∈ u.queue := by
    rw [hqueue]
    exact List.mem_cons_self
  have hislogin : Msg.isLogin m = true := by simp [Msg.isLogin, h1]
  have hwaits : u.client.waits = true := by
    by_contra hw
    have hnot := (h.quiet hrunning (by simpa using hw)).1 m hmem
    simp [hislogin] at hnot
  obtain ⟨hlast, hname⟩ := h.last hrunning hwaits
  have hpending := h.pending hrunning
  rw [User.pending, hqueue, List.countP_cons_of_pos hislogin, hwaits, if_pos rfl] at hpending
  refine ⟨hwaits, ?_, hname m hmem hislogin, fun x hx => ?_⟩
  · by_contra hne
    rw [hqueue, List.dropLast_cons_of_ne_nil hne] at hlast
    simp [hlast m List.mem_cons_self] at hislogin
  · have hzero : (u.unread inbox).countP Msg.isAnswer = 0 := by omega
    simpa using List.countP_eq_zero.mp hzero x hx

/-- What is behind the record that is taken; behind a logout it is nothing of a session. -/
theorem Linked.queue_tail (h : Linked history c u inbox) {m : Msg} {rest : List Msg}
    (hqueue : u.queue = m :: rest) {i : Served} (hreq : i.request = some m) :
    EachGiven (Authorised (history ++ [i]) c) rest := by
  have htail := (hqueue ▸ h.queue : EachGiven (Authorised history c) (m :: rest)).tail
  refine htail.mono fun before x hauth hof => ?_
  obtain ⟨hlogged, hno10⟩ := hauth hof
  refine ⟨loggedInAs_concat hlogged fun _ y hy => ?_,
    fun y hy => hno10 y (List.mem_cons_of_mem _ hy)⟩
  obtain rfl := Option.some.inj (hy.symm.trans hreq)
  exact hno10 y List.mem_cons_self

/-- A record that is no login is answered to nobody. -/
theorem linked_taken_other (h : Linked history c u inbox) {m : Msg}
    (hm : u.client.written[u.handled]? = some m) (hnot : Msg.isLogin m = false) {i : Served}
    (hreq : i.request = some m) {ws : List Msg} (hws : ∀ x ∈ ws, Msg.isAnswer x = false) :
    Linked (history ++ [i]) c { u with handled := u.handled + 1 } (inbox ++ ws) := by
  have hqueue : u.queue = m :: User.queue { u with handled := u.handled + 1 } := drop_eq_cons hm
  have hunread : User.unread { u with handled := u.handled + 1 } (inbox ++ ws) =
      u.unread inbox ++ ws := drop_append_of_le h.received ws
  have hcount : ws.countP Msg.isAnswer = 0 :=
    List.countP_eq_zero.mpr fun x hx => by simp [hws x hx]
  refine ⟨succ_le_of_getElem? hm, ?_, h.session, fun hrunning => ?_, fun hrunning hwaits => ?_,
    fun hrunning hin => ?_, h.queue_tail hqueue hreq⟩
  · rw [List.length_append]
    exact h.received.trans (Nat.le_add_right _ _)
  · have hpending := h.pending hrunning
    rw [User.pending, hqueue, List.countP_cons_of_neg (by simp [hnot])] at hpending
    rw [User.pending, hunread, List.countP_append, hcount, Nat.add_zero]
    exact hpending
  · obtain ⟨hlast, hname⟩ := h.last hrunning hwaits
    rw [hqueue] at hlast hname
    refine ⟨fun x hx => hlast x ?_, fun x hx => hname x (List.mem_cons_of_mem _ hx)⟩
    rw [List.dropLast_cons_of_ne_nil (List.ne_nil_of_mem (List.mem_of_mem_dropLast hx))]
    exact List.mem_cons_of_mem _ hx
  · have hletIn : u.LetIn inbox := hin.imp_right (by
      rintro ⟨x, hx, h1⟩
      rw [hunread] at hx
      refine ⟨x, (List.mem_append.mp hx).resolve_right fun hx => ?_, h1⟩
      have hanswer := hws x hx
      simp [Msg.isAnswer, h1] at hanswer)
    obtain ⟨hlogged, hno10⟩ := h.verified hrunning hletIn
    rw [hqueue] at hno10
    refine ⟨loggedInAs_concat hlogged fun _ y hy => ?_, fun x hx => ?_⟩
    · obtain rfl := Option.some.inj (hy.symm.trans hreq)
      exact hno10 y List.mem_cons_self
    · exact hno10 x (List.mem_cons_of_mem _ hx)

/-- A login is answered, and lets its client in only if it was verified. -/
theorem linked_taken_login (h : Linked history c u inbox) {m : Msg}
    (hm : u.client.written[u.handled]? = some m) (h1 : m.action = 1) {i : Served}
    (hcfd : i.cfd = c) (hreq : i.request = some m) {x : Msg} (hx : Msg.isAnswer x = true)
    (hverified : x.action = 1 → i.Verified) :
    Linked (history ++ [i]) c { u with handled := u.handled + 1 } (inbox ++ [x]) := by
  have hqueue : u.queue = m :: User.queue { u with handled := u.handled + 1 } := drop_eq_cons hm
  have hunread : User.unread { u with handled := u.handled + 1 } (inbox ++ [x]) =
      u.unread inbox ++ [x] := drop_append_of_le h.received [x]
  refine ⟨succ_le_of_getElem? hm, ?_, h.session, fun hrunning => ?_, fun hrunning _ => ?_,
    fun hrunning hin => ?_, h.queue_tail hqueue hreq⟩
  · rw [List.length_append]
    exact h.received.trans (Nat.le_add_right _ _)
  · obtain ⟨hwaits, hnil, -, hnone⟩ := h.of_login hrunning hqueue h1
    have hzero : (u.unread inbox).countP Msg.isAnswer = 0 :=
      List.countP_eq_zero.mpr fun x hx => by simp [hnone x hx]
    rw [User.pending, hnil, hunread, List.countP_append, hzero, hwaits, List.countP_singleton,
      if_pos hx]
    rfl
  · obtain ⟨-, hnil, -, -⟩ := h.of_login hrunning hqueue h1
    simp [hnil]
  · obtain ⟨hwaits, hnil, hname, hnone⟩ := h.of_login hrunning hqueue h1
    -- the client waits, so that only this answer can let it in
    have hletIn : x.action = 1 := by
      rcases hin with hs | ⟨y, hy, hy1⟩
      · rw [show Client.inSession u.client = false from waits_not_inSession hwaits] at hs
        cases hs
      · rw [hunread] at hy
        rcases List.mem_append.mp hy with hy | hy
        · have hanswer := hnone y hy
          simp [Msg.isAnswer, hy1] at hanswer
        · exact List.mem_singleton.mp hy ▸ hy1
    refine ⟨?_, by simp [hnil]⟩
    rw [← hname]
    exact loggedInAs_login (hverified hletIn) hcfd hreq

/-- The server takes a record of the client from the connection. -/
theorem linked_taken (h : Linked history c u inbox) {m : Msg}
    (hm : u.client.written[u.handled]? = some m) {i : Served} (hcfd : i.cfd = c)
    (hreq : i.request = some m) (hanswers : i.Answers) :
    Linked (history ++ [i]) c { u with handled := u.handled + 1 }
      (inbox ++ recordsTo i.writes c) := by
  cases hanswers with
  | other hother hverified hws =>
    exact linked_taken_other h hm (hother m hreq) hreq fun x hx => hws c x (mem_recordsTo.mp hx)
  | refused m' hreq' hact hverified hws =>
    obtain rfl := Option.some.inj (hreq'.symm.trans hreq)
    have hto : recordsTo i.writes c = [{ m' with action := -1 }] := by
      simp [recordsTo, hws, hcfd]
    rw [hto]
    exact linked_taken_login h hm hact hcfd hreq rfl fun h1 => by simp at h1
  | letIn m' hreq' hact hverified hws =>
    obtain rfl := Option.some.inj (hreq'.symm.trans hreq)
    have hto : recordsTo i.writes c = [m'] := by simp [recordsTo, hws, hcfd]
    rw [hto]
    exact linked_taken_login h hm hact hcfd hreq (by simp [Msg.isAnswer, hact]) fun _ => hverified

end
end LinuxCat.ChatSystem
