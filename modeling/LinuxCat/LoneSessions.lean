import LinuxCat.ChatDelivery

/-! # One session on each connection

A client logs in only where it is not logged in, since what it was logged in as it has logged out
before. So, however many connections use one name, the list has an entry for each connection that is
logged in, and no other. -/
namespace LinuxCat.ChatSystem
open LabelledMachines LabelledMachines.Machine ByteLayouts Messages ServerModel Histories
open ClientModel (Client mainStep)

variable {DB : Type} {sql : Sqlite DB}

/-! ## A client and its logouts -/

/-- Whoever is logged in on the connection is logged out by one of these records. -/
def LogsOut (history : List Served) (c : ℕ) (ms : List Msg) : Prop :=
  ∀ name, LoggedInAs history c name → ∃ m ∈ ms, m.action = 10 ∧ m.name.str = name

/-- What is under way on the connection leaves it with one session at most. -/
structure Lone (history : List Served) (c : ℕ) (u : User) (inbox : List Msg) : Prop where
  once : u.queue.countP Msg.isLogin ≤ 1
  logins : EachGiven (fun before m => Msg.isLogin m = true → LogsOut history c before) u.queue
  outside : u.client.running = true → ¬ u.LetIn inbox →
    (∀ m ∈ u.queue, Msg.isLogin m = false) → LogsOut history c u.queue
  inside : u.client.running = true → u.LetIn inbox →
    ∀ name, LoggedInAs history c name → name = u.client.pmsg.name.str

section
variable {history : List Served} {c : ℕ} {u : User} {inbox : List Msg}

theorem lone_start (stdin : Bytes) (num : ℤ) (pmsg : Msg)
    (hnone : ∀ name, ¬ LoggedInAs history c name) :
    Lone history c ⟨.start stdin num pmsg, 0, 0⟩ [] where
  once := Nat.zero_le _
  logins := eachGiven_nil
  outside _ _ _ name h := absurd h (hnone name)
  inside _ _ name h := absurd h (hnone name)

theorem LogsOut.append {ms : List Msg} (h : LogsOut history c ms) (ws : List Msg) :
    LogsOut history c (ms ++ ws) := by
  intro name hlogged
  obtain ⟨m, hm, hout⟩ := h name hlogged
  exact ⟨m, List.mem_append_left _ hm, hout⟩

theorem not_letIn (hs : u.client.inSession = false)
    (hanswers : ∀ m ∈ u.unread inbox, Msg.isAnswer m = false) : ¬ u.LetIn inbox := by
  rintro (hs' | ⟨m, hm, h1⟩)
  · rw [hs] at hs'
    cases hs'
  · have hanswer := hanswers m hm
    simp [Msg.isAnswer, h1] at hanswer

/-! ### The client goes on -/

/-- A step of `main` that writes no login. -/
theorem Lone.of_written (h : Lone history c u inbox) {d : Client} {ws : List Msg}
    (hqueue : User.queue { u with client := d } = u.queue ++ ws)
    (hws : ws = [] ∨ ∃ m, ws = [m] ∧ Msg.isLogin m = false)
    (houtside : d.running = true → ¬ User.LetIn { u with client := d } inbox →
      (∀ m ∈ u.queue, Msg.isLogin m = false) → LogsOut history c (u.queue ++ ws))
    (hinside : d.running = true → User.LetIn { u with client := d } inbox →
      ∀ name, LoggedInAs history c name → name = d.pmsg.name.str) :
    Lone history c { u with client := d } inbox := by
  refine ⟨?_, ?_, fun hrunning hlet hnone => ?_, hinside⟩
  · rw [hqueue]
    rcases hws with rfl | ⟨m, rfl, hm⟩
    · simpa using h.once
    · rw [List.countP_append, List.countP_singleton, if_neg (by simp [hm]), Nat.add_zero]
      exact h.once
  · rw [hqueue]
    rcases hws with rfl | ⟨m, rfl, hm⟩
    · simpa using h.logins
    · exact h.logins.concat fun hlogin => by simp [hm] at hlogin
  · rw [hqueue] at hnone ⊢
    exact houtside hrunning hlet fun m hm => hnone m (List.mem_append_left _ hm)

theorem lone_main (hlinked : Linked history c u inbox) (h : Lone history c u inbox)
    {file : Option Bytes} {d : Client} (hstep : mainStep u.client file = some d) :
    Lone history c { u with client := d } inbox := by
  have hrunning := running_of_mainStep hstep
  obtain ⟨p, -, hsession⟩ := hlinked.session
  have hsame (hwritten : d.written = u.client.written) :
      User.queue { u with client := d } = u.queue ++ [] := by
    rw [List.append_nil, User.queue, User.queue, hwritten]
  cases ClientModel.pace_main hsession (ClientModel.mainStep_cases hstep) with
  | waiting hc hd hpmsg hwritten =>
    have hletIn : User.LetIn { u with client := d } inbox ↔ u.LetIn inbox := by
      simp [User.LetIn, waits_not_inSession hc, waits_not_inSession hd, User.unread]
    refine h.of_written (hsame hwritten) (.inl rfl) (fun _ hlet hnone => ?_) fun _ hlet => ?_
    · exact (h.outside hrunning (fun hin => hlet (hletIn.mpr hin)) hnone).append []
    · rw [hpmsg]
      exact h.inside hrunning (hletIn.mp hlet)
  | asks hc hd hs hwritten hact =>
    obtain ⟨hlogins, hanswers⟩ := hlinked.quiet hrunning hc
    have hqueue := queue_of_written hlinked.handled hwritten
    have hlogin : Msg.isLogin d.pmsg = true := by simp [Msg.isLogin, hact]
    have hzero : u.queue.countP Msg.isLogin = 0 :=
      List.countP_eq_zero.mpr fun m hm => by simp [hlogins m hm]
    refine ⟨?_, ?_, fun _ _ hnone => ?_, fun _ hlet => ?_⟩
    · rw [hqueue, List.countP_append, hzero, List.countP_singleton, if_pos hlogin]
    · rw [hqueue]
      exact h.logins.concat fun _ => h.outside hrunning (not_letIn hs hanswers) hlogins
    · have hnot := hnone d.pmsg (by rw [hqueue]; exact List.mem_append_right _ List.mem_cons_self)
      simp [hlogin] at hnot
    · exact absurd hlet (not_letIn (waits_not_inSession hd) hanswers)
  | outside hc hd hs hleft hwritten =>
    obtain ⟨hlogins, hanswers⟩ := hlinked.quiet hrunning hc
    have hnot : ¬ User.LetIn { u with client := d } inbox := not_letIn hs hanswers
    have hout (hd : d.running = true) : LogsOut history c u.queue :=
      h.outside hrunning (not_letIn (hleft hd) hanswers) hlogins
    rcases hwritten with hwritten | ⟨hwritten, hact⟩
    · exact h.of_written (hsame hwritten) (.inl rfl) (fun hd _ _ => (hout hd).append [])
        fun _ hlet => absurd hlet hnot
    · exact h.of_written (queue_of_written hlinked.handled hwritten)
        (.inr ⟨_, rfl, by simp [Msg.isLogin, hact]⟩) (fun hd _ _ => (hout hd).append _)
        fun _ hlet => absurd hlet hnot
  | inside hc hd hs hs' hname hwritten =>
    have hin : ∀ name, LoggedInAs history c name → name = d.pmsg.name.str := by
      rw [hname]
      exact h.inside hrunning (.inl hs)
    have hlet : User.LetIn { u with client := d } inbox := .inl hs'
    rcases hwritten with hwritten | ⟨hwritten, hact⟩
    · exact h.of_written (hsame hwritten) (.inl rfl) (fun _ hnot => absurd hlet hnot) fun _ _ => hin
    · refine h.of_written (queue_of_written hlinked.handled hwritten) (.inr ⟨_, rfl, ?_⟩)
        (fun _ hnot => absurd hlet hnot) fun _ _ => hin
      simp only [List.mem_cons, List.not_mem_nil, or_false] at hact
      simp only [Msg.isLogin, decide_eq_false_iff_not]
      omega
  | quits hc hd hs hs' hname hwritten hact =>
    obtain ⟨-, hanswers⟩ := hlinked.quiet hrunning hc
    refine h.of_written (queue_of_written hlinked.handled hwritten)
      (.inr ⟨_, rfl, by simp [Msg.isLogin, hact]⟩) (fun _ _ _ name hlogged => ?_)
      fun _ hlet => absurd hlet (not_letIn hs' hanswers)
    refine ⟨d.pmsg, List.mem_append_right _ List.mem_cons_self, hact, ?_⟩
    rw [hname, h.inside hrunning (.inl hs) name hlogged]

/-- A client whose process has ended logs in nowhere. -/
theorem lone_stops (h : Lone history c u inbox) {pc : ClientModel.Pc}
    (hpc : pc = .exited ∨ pc = .fault) (n : ℕ) :
    Lone history c { u with client := u.client.goto pc, received := n } inbox := by
  have hrunning : (u.client.goto pc).running ≠ true := by
    rcases hpc with rfl | rfl <;> simp [Client.running, Client.goto]
  exact ⟨h.once, h.logins, fun h => absurd h hrunning, fun h => absurd h hrunning⟩

/-- The answer that is read lets the client in as it did while it was under way. -/
theorem letIn_read (hlinked : Linked history c u inbox) (hrunning : u.client.running = true)
    {m : Msg} (hm : inbox[u.received]? = some m) (sfileId : ℤ) (shown : List ClientModel.Shown) :
    User.LetIn { u with
      client := { u.client with
        lognum := ClientModel.answered u.client.lognum m, sfileId := sfileId, shown := shown }
      received := u.received + 1 } inbox ↔ u.LetIn inbox := by
  have hunread : u.unread inbox = m :: inbox.drop (u.received + 1) := drop_eq_cons hm
  have hmem : m ∈ u.unread inbox := by
    rw [hunread]
    exact List.mem_cons_self
  have hsession : Client.inSession { u.client with
      lognum := ClientModel.answered u.client.lognum m, sfileId := sfileId, shown := shown } =
        true ↔ u.client.inSession = true ∨ m.action = 1 := by
    by_cases hanswer : Msg.isAnswer m = true
    · have hwaits := hlinked.waits_of_answer hrunning hmem hanswer
      obtain ⟨hpc, hzero⟩ : u.client.pc.loggingIn = true ∧ u.client.lognum = 0 := by
        simpa [Client.waits] using hwaits
      have hhome : u.client.pc.atHome = false := by
        cases hd : u.client.pc <;> simp_all [ClientModel.Pc.loggingIn, ClientModel.Pc.atHome]
      simp only [Msg.isAnswer, decide_eq_true_eq] at hanswer
      rcases hanswer with h1 | h1 <;>
        simp [Client.inSession, ClientModel.answered, h1, hpc, hhome, hzero]
    · have hnot := not_isAnswer.mp (by simpa using hanswer)
      simp [Client.inSession, ClientModel.answered, hnot]
  rw [User.LetIn, hsession, User.LetIn, hunread]
  simp [User.unread, or_assoc]

theorem lone_read (hlinked : Linked history c u inbox) (h : Lone history c u inbox)
    (hrunning : u.client.running = true) {m : Msg} (hm : inbox[u.received]? = some m)
    {r : ClientModel.Round} {d : Client} (hd : ClientModel.ReadStep u.client r m d) :
    Lone history c { u with client := d, received := u.received + 1 } inbox := by
  cases hd with
  | goes sfileId shown hid =>
    have hletIn := letIn_read hlinked hrunning hm sfileId shown
    refine ⟨h.once, h.logins, fun _ hlet hnone => ?_, fun _ hlet => ?_⟩
    · exact h.outside hrunning (fun hin => hlet (hletIn.mpr hin)) hnone
    · exact h.inside hrunning (hletIn.mp hlet)
  | leaves hnot => exact lone_stops h (.inr rfl) _

theorem lone_serverExit (h : Lone history c u inbox) :
    Lone history c { u with client := ClientModel.serverExit u.client } inbox :=
  ⟨h.once, h.logins, h.outside, h.inside⟩

/-! ### The server goes on -/

theorem letIn_append (hlinked : Linked history c u inbox) {ws : List Msg}
    (hws : ∀ m ∈ ws, Msg.isAnswer m = false) : u.LetIn (inbox ++ ws) ↔ u.LetIn inbox := by
  have hunread : u.unread (inbox ++ ws) = u.unread inbox ++ ws :=
    drop_append_of_le hlinked.received ws
  refine or_congr_right ⟨?_, ?_⟩
  · rintro ⟨m, hm, h1⟩
    rw [hunread] at hm
    refine ⟨m, (List.mem_append.mp hm).resolve_right fun hm => ?_, h1⟩
    have hanswer := hws m hm
    simp [Msg.isAnswer, h1] at hanswer
  · rintro ⟨m, hm, h1⟩
    exact ⟨m, by rw [hunread]; exact List.mem_append_left _ hm, h1⟩

/-- A step that logs nobody in on this connection. -/
theorem lone_served (hlinked : Linked history c u inbox) (h : Lone history c u inbox) {i : Served}
    (hi : ∀ name, LoggedInAs (history ++ [i]) c name → LoggedInAs history c name)
    {ws : List Msg} (hws : ∀ m ∈ ws, Msg.isAnswer m = false) :
    Lone (history ++ [i]) c u (inbox ++ ws) := by
  have hletIn := letIn_append hlinked hws
  refine ⟨h.once, h.logins.mono fun before m hout hlogin name hlogged => ?_,
    fun hrunning hlet hnone name hlogged => ?_, fun hrunning hlet name hlogged => ?_⟩
  · exact hout hlogin name (hi name hlogged)
  · exact h.outside hrunning (fun hin => hlet (hletIn.mpr hin)) hnone name (hi name hlogged)
  · exact h.inside hrunning (hletIn.mp hlet) name (hi name hlogged)

/-- The record that is taken is no login; it may log out. -/
theorem lone_taken_other (hlinked : Linked history c u inbox) (h : Lone history c u inbox) {m : Msg}
    (hm : u.client.written[u.handled]? = some m) (hnot : Msg.isLogin m = false) {i : Served}
    (hi : ∀ name, LoggedInAs (history ++ [i]) c name →
      LoggedInAs history c name ∧ (m.action = 10 → m.name.str ≠ name))
    {ws : List Msg} (hws : ∀ x ∈ ws, Msg.isAnswer x = false) :
    Lone (history ++ [i]) c { u with handled := u.handled + 1 } (inbox ++ ws) := by
  have hqueue : u.queue = m :: User.queue { u with handled := u.handled + 1 } := drop_eq_cons hm
  have hletIn := letIn_append hlinked hws
  -- the others do what is left to do
  have hrest {ms : List Msg} (hout : LogsOut history c (m :: ms)) :
      LogsOut (history ++ [i]) c ms := by
    intro name hlogged
    obtain ⟨hold, hne⟩ := hi name hlogged
    obtain ⟨x, hx, hact, hname⟩ := hout name hold
    rcases List.mem_cons.mp hx with rfl | hx
    · exact absurd hname (hne hact)
    · exact ⟨x, hx, hact, hname⟩
  obtain ⟨honce, hlogins, houtside, hinside⟩ := h
  rw [hqueue] at honce hlogins houtside
  refine ⟨?_, hlogins.tail.mono fun before x hout hlogin => hrest (hout hlogin),
    fun hrunning hlet hnone => hrest ?_, fun hrunning hlet name hlogged => ?_⟩
  · rwa [List.countP_cons_of_neg (by simp [hnot])] at honce
  · exact houtside hrunning (fun hin => hlet (hletIn.mpr hin))
      (List.forall_mem_cons.mpr ⟨hnot, hnone⟩)
  · exact hinside hrunning (hletIn.mp hlet) name (hi name hlogged).1

/-- Where a login is taken, nobody is logged in. -/
theorem Lone.nobody (h : Lone history c u inbox) {m : Msg}
    (hm : u.client.written[u.handled]? = some m) (hlogin : Msg.isLogin m = true) (name : Bytes) :
    ¬ LoggedInAs history c name := by
  intro hlogged
  have hqueue : u.queue = m :: User.queue { u with handled := u.handled + 1 } := drop_eq_cons hm
  obtain ⟨x, hx, -⟩ := (hqueue ▸ h.logins).head hlogin name hlogged
  cases hx

theorem lone_taken_login (hlinked : Linked history c u inbox) (h : Lone history c u inbox) {m : Msg}
    (hm : u.client.written[u.handled]? = some m) (hlogin : Msg.isLogin m = true) {i : Served}
    {x : Msg} (hi : ∀ name, LoggedInAs (history ++ [i]) c name → x.action = 1 ∧ name = m.name.str) :
    Lone (history ++ [i]) c { u with handled := u.handled + 1 } (inbox ++ [x]) := by
  have hqueue : u.queue = m :: User.queue { u with handled := u.handled + 1 } := drop_eq_cons hm
  have hunread : User.unread { u with handled := u.handled + 1 } (inbox ++ [x]) =
      u.unread inbox ++ [x] := drop_append_of_le hlinked.received [x]
  have hnone : (User.queue { u with handled := u.handled + 1 }).countP Msg.isLogin = 0 := by
    have honce := h.once
    rw [hqueue, List.countP_cons_of_pos hlogin] at honce
    omega
  refine ⟨by omega, fun before y after heq hy => ?_, fun hrunning hlet _ name hlogged => ?_,
    fun hrunning _ name hlogged => ?_⟩
  · have hnot := List.countP_eq_zero.mp hnone y (by rw [heq]; simp)
    exact absurd hy hnot
  · refine absurd (Or.inr ⟨x, ?_, (hi name hlogged).1⟩) hlet
    rw [hunread]
    exact List.mem_append_right _ List.mem_cons_self
  · have h1 : m.action = 1 := by simpa [Msg.isLogin] using hlogin
    rw [(hi name hlogged).2, (hlinked.of_login hrunning hqueue h1).2.2.1]

/-- The server takes a record of the client from the connection. -/
theorem lone_taken (hlinked : Linked history c u inbox) (h : Lone history c u inbox) {m : Msg}
    (hm : u.client.written[u.handled]? = some m) {i : Served} (hcfd : i.cfd = c)
    (hreq : i.request = some m) (hanswers : i.Answers) :
    Lone (history ++ [i]) c { u with handled := u.handled + 1 }
      (inbox ++ recordsTo i.writes c) := by
  cases hanswers with
  | other hother hverified hws =>
    refine lone_taken_other hlinked h hm (hother m hreq) (fun name hlogged => ?_)
      fun x hx => hws c x (mem_recordsTo.mp hx)
    rcases loggedInAs_concat_iff.mp hlogged with ⟨hv, -⟩ | ⟨hold, hout⟩
    · exact absurd hv hverified
    · exact ⟨hold, hout hcfd m hreq⟩
  | refused m' hreq' hact hverified hws =>
    obtain rfl := Option.some.inj (hreq'.symm.trans hreq)
    have hlogin : Msg.isLogin m' = true := by simp [Msg.isLogin, hact]
    have hto : recordsTo i.writes c = [{ m' with action := -1 }] := by
      simp [recordsTo, hws, hcfd]
    rw [hto]
    refine lone_taken_login hlinked h hm hlogin fun name hlogged => ?_
    rcases loggedInAs_concat_iff.mp hlogged with ⟨hv, -⟩ | ⟨hold, -⟩
    · exact absurd hv hverified
    · exact absurd hold (h.nobody hm hlogin name)
  | letIn m' hreq' hact hverified hws =>
    obtain rfl := Option.some.inj (hreq'.symm.trans hreq)
    have hlogin : Msg.isLogin m' = true := by simp [Msg.isLogin, hact]
    have hto : recordsTo i.writes c = [m'] := by simp [recordsTo, hws, hcfd]
    rw [hto]
    refine lone_taken_login hlinked h hm hlogin fun name hlogged => ⟨hact, ?_⟩
    rcases loggedInAs_concat_iff.mp hlogged with ⟨-, -, hname⟩ | ⟨hold, -⟩
    · rw [hreq'] at hname
      exact (Option.some.inj hname).symm
    · exact absurd hold (h.nobody hm hlogin name)

end

/-! ## Runs -/

def AllLone (s : System DB) : Prop :=
  ∀ (c : ℕ) (u : User), s.peers[c]? = some (.user u) → Lone s.server.history c u (s.inbox c)

theorem AllLone.onUser {s : System DB} (h : AllLone s) {c : ℕ} {u' : User}
    (hlone : Lone s.server.history c u' (s.inbox c)) :
    AllLone { s with peers := s.peers.set c (.user u') } := by
  intro c' w hw
  rcases WaitQueues.getElem?_set_cases hw with ⟨rfl, heq⟩ | ⟨-, hw⟩
  · cases heq
    exact hlone
  · exact h c' w hw

/-- Nobody is logged in on a connection that is yet to come. -/
theorem Conserved.nobody {s : System DB} (h : Conserved s) (name : Bytes) :
    ¬ LoggedInAs s.server.history s.peers.length name := by
  rintro ⟨before, i, after, heq, -, hcfd, -⟩
  rcases h.opened i (by simp [heq]) with huser | ⟨hblock, -⟩
  · exact (not_opened s.peers).1 (hcfd ▸ huser)
  · exact (not_opened s.peers).2 (hcfd ▸ hblock)

theorem AllLone.accept {s : System DB} (hin : InOrder s) (h : AllLone s) {p : Peer}
    (hp : ∀ u, p = .user u → Lone s.server.history s.peers.length u []) {t : ServerState DB}
    (hstep : serverStep sql s.server .accept = some t) : AllLone ⟨t, s.peers ++ [p]⟩ := by
  obtain ⟨-, rfl⟩ | ⟨c, inp, k, srv, pc, ha, -⟩ := serverStep_cases hstep
  · intro c w hw
    rcases WaitQueues.getElem?_concat_cases hw with ⟨rfl, rfl⟩ | hw
    · have hlone : Lone s.server.history s.peers.length w (s.inbox s.peers.length) := by
        rw [hin.inbox_new]
        exact hp w rfl
      exact hlone
    · exact h c w hw
  · cases ha

theorem AllLone.serve {s : System DB} (hin : InOrder s) (h : AllLone s) {c : ℕ} {inp : Input}
    {p p' : Peer} {t : ServerState DB} (hp : s.peers[c]? = some p) (hgive : p.give inp = some p')
    (hstep : serverStep sql s.server (.serve c inp) = some t) : AllLone ⟨t, s.peers.set c p'⟩ := by
  have hgives := give_cases hgive
  obtain ⟨ha, -⟩ | ⟨c', inp', k, srv, pc, ha, hk, hr, rfl⟩ := serverStep_cases hstep
  · cases ha
  cases ha
  have hcfd : (served sql s.server.srv srv k inp).cfd = c := hin.numbered c k hk
  have hanswers := served_answers hr fun m junk hreq h7 => by
    simpa [h7] using (hin.request hp hgives hreq).1
  intro c' w hw
  rw [System.inbox, served_appends hr, recordsTo_append]
  rcases WaitQueues.getElem?_set_cases hw with ⟨rfl, heq⟩ | ⟨hne, hw⟩
  · subst heq
    cases hgives with
    | taken u m junk hinp hm =>
      subst hinp
      refine lone_taken (hin.linked c' u hp) (h c' u hp) hm hcfd ?_ hanswers
      simp [served, requested_of_record hr]
    | ended u hzero =>
      have hquiet := answers_of_zero hanswers fun m hm => by
        obtain ⟨⟨m', junk⟩, hreq, rfl⟩ := Option.map_eq_some_iff.mp hm
        exact hzero k.pc m' junk hreq
      refine lone_served (hin.linked c' w hp) (h c' w hp) (fun name hlogged => ?_) (hquiet.2 _)
      rcases loggedInAs_concat_iff.mp hlogged with ⟨hv, -⟩ | ⟨hold, -⟩
      · exact absurd hv hquiet.1
      · exact hold
  · have hne' : (served sql s.server.srv srv k inp).cfd ≠ c' := by
      intro heq
      exact hne (Int.ofNat_inj.mp (hcfd.symm.trans heq))
    refine lone_served (hin.linked c' w hw) (h c' w hw) (fun name hlogged => ?_)
      (answers_elsewhere hanswers hne')
    rcases loggedInAs_concat_iff.mp hlogged with ⟨-, heq, -⟩ | ⟨hold, -⟩
    · exact absurd heq hne'
    · exact hold

theorem allLone_step {s t : System DB} {a : Label} (hin : InOrder s) (hcon : Conserved s)
    (h : AllLone s) (hstep : chatStep sql s a = some t) : AllLone t := by
  cases chatStep_cases hstep with
  | connect stdin num pmsg t ht =>
    refine h.accept hin (fun u hu => ?_) ht
    cases hu
    exact lone_start stdin num pmsg hcon.nobody
  | connectBlock t ht => exact h.accept hin (fun u hu => by cases hu) ht
  | main c file u d hu hmain =>
    exact h.onUser (lone_main (hin.linked c u hu) (h c u hu) hmain)
  | read c r u m d hu hrunning hreading hm hd =>
    exact h.onUser (lone_read (hin.linked c u hu) (h c u hu) hrunning hm
      (hd ▸ ClientModel.threadRead_cases ..))
  | serverExit c u hu hreading => exact h.onUser (lone_serverExit (h c u hu))
  | serve c inp p p' t hp hgive ht => exact h.serve hin hp hgive ht
  | kill c u hu => exact h.onUser (lone_stops (h c u hu) (.inl rfl) u.received)

/-! ## The names of the list -/

/-- The names of the list are those of the connections that are logged in, and each of these is
logged in once. -/
def Counted (online : List Online) (history : List Served) : Prop :=
  ∃ sessions : List (ℤ × Bytes), (sessions.map Prod.fst).Nodup ∧
    (∀ c name, (c, name) ∈ sessions ↔ LoggedInAs history c name) ∧
    (online.map Online.name).Perm (sessions.map Prod.snd)

theorem names_unlink (online : List Online) (name : Bytes) :
    (unlink online name).map Online.name = (online.map Online.name).erase name := by
  induction online with
  | nil => rfl
  | cons e online ih =>
    simp only [unlink, List.map_cons]
    by_cases he : e.name = name
    · rw [if_pos he, he, List.erase_cons_head]
    · rw [if_neg he, List.erase_cons_tail (by simpa using he), List.map_cons, ih]

theorem counted_served {srv srv' : Server DB} {k : Handler} {inp : Input} {pc : ServerModel.Pc}
    {history : List Served} (h : Counted srv.online history)
    (hr : threadReadPc sql srv k.cfd k.pc inp = some (srv', pc))
    (hclient : Served.OfClient history (served sql srv srv' k inp))
    (hlone : ∀ m, (served sql srv srv' k inp).request = some m → Msg.isLogin m = true →
      ∀ name, ¬ LoggedInAs history k.cfd name) :
    Counted srv'.online (history ++ [served sql srv srv' k inp]) := by
  obtain ⟨sessions, hnodup, hmem, hperm⟩ := h
  cases loginStep hr hclient with
  | kept hon hlogged =>
    refine ⟨sessions, hnodup, fun c name => by rw [hlogged, hmem], ?_⟩
    rw [names_of_sessions hon]
    exact hperm
  | entered m hreq hlogin hon hlogged =>
    refine ⟨(k.cfd, m.name.str) :: sessions, ?_, fun c name => ?_, ?_⟩
    · refine List.nodup_cons.mpr ⟨fun hcfd => ?_, hnodup⟩
      obtain ⟨⟨c, name⟩, hin, rfl⟩ := List.mem_map.mp hcfd
      exact hlone m hreq hlogin name ((hmem _ _).mp hin)
    · rw [List.mem_cons, hlogged, hmem]
    · rw [hon]
      exact hperm.cons _
  | left gone hown hon hlogged =>
    have hsessions : sessions.Nodup := List.Nodup.of_map _ hnodup
    have hin : (k.cfd, gone) ∈ sessions := (hmem _ _).mpr hown
    refine ⟨sessions.erase (k.cfd, gone), hnodup.sublist (List.erase_sublist.map _),
      fun c name => ?_, ?_⟩
    · rw [hsessions.mem_erase_iff, hlogged, hmem, and_comm]
    · rw [hon, names_unlink]
      have hall : (srv.online.map Online.name).Perm
          (gone :: (sessions.erase (k.cfd, gone)).map Prod.snd) :=
        hperm.trans ((List.perm_cons_erase hin).map Prod.snd)
      have hgone : gone ∈ srv.online.map Online.name := hall.symm.subset List.mem_cons_self
      exact ((List.perm_cons_erase hgone).symm.trans hall).cons_inv

/-- Where the server takes a login, nobody is logged in. -/
theorem AllLone.nobody {s : System DB} (h : AllLone s) {c : ℕ} {inp : Input} {p p' : Peer}
    {pc : ServerModel.Pc} {m : Msg} {junk : CharArray 20} (hp : s.peers[c]? = some p)
    (hgives : Gives inp p p') (hreq : requested pc inp = some (m, junk))
    (hlogin : Msg.isLogin m = true) (name : Bytes) : ¬ LoggedInAs s.server.history c name := by
  cases hgives with
  | taken u m' junk' hinp hm =>
    subst hinp
    obtain rfl := recv_of_requested hreq
    obtain ⟨rfl, rfl⟩ := Prod.mk.inj (Option.some.inj hreq)
    exact (h c u hp).nobody hm hlogin name
  | ended u hzero =>
    rw [hzero pc m junk hreq] at hlogin
    cases hlogin
  | block hblock =>
    have hact := hblock pc m junk hreq
    simp only [Msg.isLogin, decide_eq_true_eq] at hlogin
    simp [hlogin] at hact

/-- The list, and the list that each step of a handler found. -/
structure NamesCounted (s : ServerState DB) : Prop where
  now : Counted s.srv.online s.history
  before : EachGiven (fun past i => Counted i.before past) s.history

theorem namesCounted_step {s t : System DB} {a : Label} (hin : InOrder s) (hlone : AllLone s)
    (h : NamesCounted s.server) (hstep : chatStep sql s a = some t) : NamesCounted t.server := by
  have haccept {t : ServerState DB} (ht : serverStep sql s.server .accept = some t) :
      NamesCounted t := by
    obtain ⟨-, rfl⟩ | ⟨c, inp, k, srv, pc, ha, -⟩ := serverStep_cases ht
    · exact ⟨h.now, h.before⟩
    · cases ha
  have hafter := inOrder_step hin hstep
  cases chatStep_cases hstep with
  | connect stdin num pmsg t ht => exact haccept ht
  | connectBlock t ht => exact haccept ht
  | serve c inp p p' t hp hgive ht =>
    obtain ⟨ha, -⟩ | ⟨c', inp', k, srv, pc, ha, hk, hr, rfl⟩ := serverStep_cases ht
    · cases ha
    cases ha
    have hclient := hafter.ofClients s.server.history (served sql s.server.srv srv k inp) [] rfl
    refine ⟨counted_served h.now hr hclient fun m hm hlogin name => ?_, h.before.concat h.now⟩
    obtain ⟨⟨m', junk⟩, hreq, rfl⟩ := Option.map_eq_some_iff.mp hm
    rw [hin.numbered c k hk]
    exact hlone.nobody hp (give_cases hgive) hreq hlogin name
  | _ => exact h

theorem namesCounted_run {db : DB} {as : List Label} {s : System DB}
    (h : (chatMachine sql).run (.start db) as = some s) : NamesCounted s.server := by
  have hlone : AllLone (System.start db) := fun c u hu => by simp [System.start] at hu
  have hcounted : NamesCounted (System.start db).server := by
    refine ⟨⟨[], List.nodup_nil, fun c name => ?_, .nil⟩, eachGiven_nil⟩
    simp [System.start, ServerState.start, LoggedInAs]
  refine (run_invariant (M := chatMachine sql)
    (I := fun s => InOrder s ∧ Conserved s ∧ AllLone s ∧ NamesCounted s.server)
    (fun s a t hs hstep => ?_) ⟨inOrder_start db, conserved_start db, hlone, hcounted⟩ h).2.2.2
  obtain ⟨hin, hcon, hlone, hcounted⟩ := hs
  exact ⟨inOrder_step hin hstep, conserved_step hin hcon hstep, allLone_step hin hcon hlone hstep,
    namesCounted_step hin hlone hcounted hstep⟩

/-- In every framed run, however often one name is used at once, a connection is logged in under one
name at most, and every name is in the list as often as there are connections that are logged in
under it. -/
theorem names_counted (sql : Sqlite DB) (db : DB) (as : List Event) (s : Network DB)
    (hframed : (networkMachine sql).EachStep Framed (.start db) as)
    (h : (networkMachine sql).run (.start db) as = some s) :
    ∃ sessions : List (ℤ × Bytes), (sessions.map Prod.fst).Nodup ∧
      (∀ c name, (c, name) ∈ sessions ↔ LoggedInAs s.server.history c name) ∧
      (s.server.srv.online.map Online.name).Perm (sessions.map Prod.snd) := by
  obtain ⟨bs, hrecords⟩ := records_run hframed h
  exact (namesCounted_run hrecords).now

/-- `42` logs in on two connections. -/
def both42 : List Event :=
  [.connect (text "1 42 42 ") 0 .zero, .connect (text "1 42 42 ") 0 .zero] ++ logsIn 0 ++ logsIn 1

theorem both42_counted :
    ∃ (s : Network Unit) (sessions : List (ℤ × Bytes)),
      (networkMachine sqlite42).run (.start ()) both42 = some s ∧
      s.server.srv.online.map Online.name = [[52, 50], [52, 50]] ∧
      (sessions.map Prod.fst).Nodup ∧
      (∀ c name, (c, name) ∈ sessions ↔ LoggedInAs s.server.history c name) ∧
      (s.server.srv.online.map Online.name).Perm (sessions.map Prod.snd) := by
  have hrun : ((networkMachine sqlite42).run (.start ()) both42).any (fun s =>
      s.server.srv.online.map Online.name = [[52, 50], [52, 50]]) = true := by
    decide +kernel
  obtain ⟨s, hs, hnames⟩ := (Option.any_eq_true ..).mp hrun
  obtain ⟨sessions, hcounted⟩ := names_counted sqlite42 () both42 s (by decide +kernel) hs
  exact ⟨s, sessions, hs, of_decide_eq_true hnames, hcounted⟩

end LinuxCat.ChatSystem
