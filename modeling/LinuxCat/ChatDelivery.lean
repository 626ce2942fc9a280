import LinuxCat.ChatScreens
import LinuxCat.OpenSessions
import LinuxCat.PrivateMessages

/-! # Private messages from end to end

From what one client writes, over the server, to what another client shows: nothing is lost behind
the server's `recv`, nothing is shown twice, out of order or without having been sent. -/
namespace LinuxCat.ChatSystem
open LabelledMachines LabelledMachines.Machine ByteLayouts Messages ServerModel Histories
open ClientModel (Client Shown)

variable {DB : Type} {sql : Sqlite DB}

/-- A private message. -/
def Msg.isPrivate (m : Msg) : Bool := m.action = 2

/-- The private message that the step has taken, if it was written to `fd` and to nobody else. -/
def Served.privateTo (fd : ℤ) (i : Served) : List Msg :=
  i.request.toList.filter (fun m => Msg.isPrivate m ∧ i.writes = [(fd, .record m)])

/-- The name and the text that a client shows for a private message. -/
def Shown.private? : Shown → Option (Bytes × Bytes)
  | .said _ name message => some (name, message)
  | _ => none

def Msg.said (m : Msg) : Bytes × Bytes := (m.name.str, m.message.str)

/-! ## From the connection to the screen -/

theorem private?_printed (r : ClientModel.Round) (m : Msg) :
    (printed r m).bind Shown.private? = if Msg.isPrivate m then some (Msg.said m) else none := by
  by_cases h : m.action = 2
  · simp [printed, h, Msg.isPrivate, Shown.private?, Msg.said]
  · have hlines (lines : Option (List Bytes)) :
        (lines.map Shown.users).bind Shown.private? = none ∧
          (lines.map Shown.history).bind Shown.private? = none := by
      cases lines <;> exact ⟨rfl, rfl⟩
    simp only [printed, Msg.isPrivate, h, if_false, decide_false, Bool.false_eq_true]
    split_ifs
    · rfl
    · rfl
    · rfl
    · exact (hlines _).1
    · rfl
    · rfl
    · rfl
    · exact (hlines _).2
    · rfl

/-- What `thread_read` shows of private messages are those it has read. -/
theorem OnScreen.private {u : User} {inbox : List Msg} (h : OnScreen u inbox)
    (hreceived : u.received ≤ inbox.length) :
    u.client.shown.filterMap Shown.private? =
      ((inbox.take u.received).filter Msg.isPrivate).map Msg.said := by
  obtain ⟨rounds, hlen, heq⟩ := h
  have hexit : (if u.client.reading then [] else [exitLine]).filterMap Shown.private? = [] := by
    split_ifs <;> rfl
  have hsnd : (rounds.zip (inbox.take u.received)).map Prod.snd = inbox.take u.received :=
    List.map_snd_zip (by rw [hlen, List.length_take, Nat.min_eq_left hreceived])
  rw [heq, List.filterMap_append, hexit, List.append_nil, List.filterMap_filterMap]
  calc (rounds.zip (inbox.take u.received)).filterMap
        (fun r => (printed r.1 r.2).bind Shown.private?)
      = ((rounds.zip (inbox.take u.received)).map Prod.snd).filterMap
          (fun m => if Msg.isPrivate m then some (Msg.said m) else none) := by
        rw [List.filterMap_map]
        exact List.filterMap_congr fun r _ => private?_printed r.1 r.2
    _ = ((inbox.take u.received).filter Msg.isPrivate).map Msg.said := by
        rw [hsnd, ← List.filterMap_eq_map', List.filterMap_filter]

/-! ## From the server to the connection -/

theorem recordsTo_flatMap (history : List Served) (fd : ℤ) :
    recordsTo (history.flatMap Served.writes) fd =
      history.flatMap (fun i => recordsTo i.writes fd) := by
  rw [recordsTo, List.filterMap_flatMap]
  rfl

theorem privateTo_of_faithful {i : Served} (h : i.Faithful) (fd : ℤ) :
    (recordsTo i.writes fd).filter Msg.isPrivate = Served.privateTo fd i := by
  by_cases hreq : ∃ m, i.request = some m ∧ m.action = 2
  · obtain ⟨m, hreq, hact⟩ := hreq
    rcases h.delivers m hreq hact with ⟨e, -, hws⟩ | ⟨-, hws⟩
    · by_cases hfd : e.cfd = fd
      · simp [recordsTo, Served.privateTo, hws, hreq, Msg.isPrivate, hact, hfd]
      · simp [recordsTo, Served.privateTo, hws, hreq, hfd]
    · have hne : m ≠ { m with action := -2 } := by
        intro heq
        rw [heq] at hact
        cases hact
      have hnone : (recordsTo i.writes fd).filter Msg.isPrivate = [] := by
        rw [List.filter_eq_nil_iff]
        intro x hx
        rw [mem_recordsTo, hws, List.mem_singleton] at hx
        obtain ⟨-, hx⟩ := Prod.mk.inj hx
        cases hx
        simp [Msg.isPrivate]
      rw [hnone]
      simp [Served.privateTo, hws, hreq, hne.symm]
  · push Not at hreq
    have hnone : (recordsTo i.writes fd).filter Msg.isPrivate = [] := by
      rw [List.filter_eq_nil_iff]
      intro x hx
      simpa [Msg.isPrivate] using h.only hreq fd x (mem_recordsTo.mp hx)
    rw [hnone]
    cases hr : i.request with
    | none => simp [Served.privateTo, hr]
    | some m => simp [Served.privateTo, hr, Msg.isPrivate, hreq m hr]

/-! ## From the client to the server -/

/-- Who has opened the connection of the step, and what a block may ask for. -/
def Opened (peers : List Peer) (i : Served) : Prop :=
  IsUser peers i.cfd ∨
    IsBlock peers i.cfd ∧ ∀ m, i.request = some m → m.action ∈ [0, 5, -5]

/-- What the server has taken from a connection are the first records of its client; a reset
connection gives zeros. -/
structure Conserved (s : System DB) : Prop where
  written : s.server.InHistory
  opened : ∀ i ∈ s.server.history, Opened s.peers i
  taken : ∀ (c : ℕ) (u : User), s.peers[c]? = some (.user u) →
    (s.server.requests c).filter (fun m => m.action ≠ 0) =
      (u.client.written.take u.handled).filter (fun m => m.action ≠ 0)

theorem Opened.set {peers : List Peer} {i : Served} {c : ℕ} {u u' : User} (h : Opened peers i)
    (hu : peers[c]? = some (.user u)) : Opened (peers.set c (.user u')) i :=
  h.imp (fun huser => huser.set hu) (And.imp_left (fun hblock => hblock.set hu))

theorem Conserved.onUser {s : System DB} (h : Conserved s) {c : ℕ} {u u' : User}
    (hu : s.peers[c]? = some (.user u)) (hhandled : u'.handled = u.handled)
    (hwritten : ∃ ws, u'.client.written = u.client.written ++ ws)
    (hle : u.handled ≤ u.client.written.length) :
    Conserved { s with peers := s.peers.set c (.user u') } := by
  refine ⟨h.written, fun i hi => (h.opened i hi).set hu, fun c' w hw => ?_⟩
  rcases WaitQueues.getElem?_set_cases hw with ⟨rfl, heq⟩ | ⟨-, hw⟩
  · cases heq
    obtain ⟨ws, hws⟩ := hwritten
    rw [hws, hhandled, take_append_of_le hle]
    exact h.taken c' u hu
  · exact h.taken c' w hw

theorem Conserved.accept {s : System DB} (h : Conserved s) {p : Peer}
    (hp : ∀ u, p = .user u → u.handled = 0) {t : ServerState DB}
    (hstep : serverStep sql s.server .accept = some t) : Conserved ⟨t, s.peers ++ [p]⟩ := by
  have hwritten := inHistory_step h.written hstep
  obtain ⟨-, rfl⟩ | ⟨c, inp, k, srv, pc, ha, -⟩ := serverStep_cases hstep
  · refine ⟨hwritten, fun i hi => ?_, fun c w hw => ?_⟩
    · exact (h.opened i hi).imp (fun huser => huser.concat p)
        (And.imp_left (fun hblock => hblock.concat p))
    · rcases WaitQueues.getElem?_concat_cases hw with ⟨rfl, rfl⟩ | hw
      · have hnone : s.server.requests s.peers.length = [] := by
          rw [ServerState.requests, List.filter_eq_nil_iff.mpr, List.filterMap_nil]
          intro i hi
          rw [decide_eq_true_eq]
          intro hcfd
          rcases h.opened i hi with huser | ⟨hblock, -⟩
          · exact (not_opened s.peers).1 (hcfd ▸ huser)
          · exact (not_opened s.peers).2 (hcfd ▸ hblock)
        have htaken : (s.server.requests s.peers.length).filter (fun m => m.action ≠ 0) =
            (w.client.written.take w.handled).filter (fun m => m.action ≠ 0) := by
          rw [hnone, hp w rfl]
          rfl
        exact htaken
      · exact h.taken c w hw
  · cases ha

theorem conserved_step {s t : System DB} {a : Label} (hin : InOrder s) (h : Conserved s)
    (hstep : chatStep sql s a = some t) : Conserved t := by
  cases chatStep_cases hstep with
  | connect stdin num pmsg t ht =>
    refine h.accept (fun u hu => ?_) ht
    cases hu
    rfl
  | connectBlock t ht => exact h.accept (fun u hu => by cases hu) ht
  | main c file u d hu hmain =>
    refine h.onUser hu rfl ?_ (hin.linked c u hu).handled
    obtain ⟨p, -, hsession⟩ := (hin.linked c u hu).session
    cases ClientModel.session_main hsession (ClientModel.mainStep_cases hmain) with
    | silent hwritten _ => exact ⟨[], by rw [hwritten, List.append_nil]⟩
    | wrote p' hwritten _ _ => exact ⟨_, hwritten⟩
  | read c r u m d hu hrunning hreading hm hd =>
    refine h.onUser hu rfl ⟨[], ?_⟩ (hin.linked c u hu).handled
    have hread := hd ▸ ClientModel.threadRead_cases u.client r m
    cases hread with
    | goes sfileId shown hid => simp
    | leaves hnot => simp [Client.goto]
  | serverExit c u hu hreading =>
    exact h.onUser hu rfl ⟨[], by simp [ClientModel.serverExit, Client.show]⟩
      (hin.linked c u hu).handled
  | kill c u hu => exact h.onUser hu rfl ⟨[], by simp [Client.goto]⟩ (hin.linked c u hu).handled
  | serve c inp p p' t hp hgive ht =>
    have hwritten := inHistory_step h.written ht
    obtain ⟨ha, -⟩ | ⟨c', inp', k, srv, pc, ha, hk, hr, rfl⟩ := serverStep_cases ht
    · cases ha
    cases ha
    have hcfd : (served sql s.server.srv srv k inp).cfd = c := hin.numbered c k hk
    refine ⟨hwritten, WaitQueues.forall_mem_concat (fun i hi => ?_) ?_, fun c' w hw => ?_⟩
    · cases give_cases hgive with
      | taken u m junk hinp hm => exact (h.opened i hi).set hp
      | ended u hzero => exact (h.opened i hi).set hp
      | block hblock =>
        have hsame : Opened (s.peers.set c .block) i := (set_self hp).symm ▸ h.opened i hi
        exact hsame
    · cases give_cases hgive with
      | taken u m junk hinp hm =>
        exact .inl (hcfd ▸ ⟨c, _, rfl, List.getElem?_set_self (List.getElem?_eq_some_iff.mp hp).1⟩)
      | ended u hzero =>
        exact .inl (hcfd ▸ ⟨c, _, rfl, List.getElem?_set_self (List.getElem?_eq_some_iff.mp hp).1⟩)
      | block hblock =>
        refine .inr ⟨hcfd ▸ ⟨c, rfl, (set_self hp).symm ▸ hp⟩, fun m hm => ?_⟩
        obtain ⟨⟨m', junk⟩, hreq, rfl⟩ := Option.map_eq_some_iff.mp hm
        exact hblock k.pc m' junk hreq
    · rw [requests_append, hcfd]
      rcases WaitQueues.getElem?_set_cases hw with ⟨rfl, heq⟩ | ⟨hne, hw⟩
      · rw [if_pos rfl, List.filter_append]
        subst heq
        cases give_cases hgive with
        | taken u m junk hinp hm =>
          subst hinp
          have hreq : (served sql s.server.srv srv k (.record m junk)).request = some m := by
            simp [served, requested_of_record hr]
          rw [h.taken c' u hp, hreq, take_succ_of_getElem? hm, List.filter_append]
          rfl
        | ended u hzero =>
          have hnone : (served sql s.server.srv srv k inp).request.toList.filter
              (fun m => m.action ≠ 0) = [] := by
            rw [List.filter_eq_nil_iff]
            intro m hm
            obtain ⟨⟨m', junk⟩, hreq, rfl⟩ :=
              Option.map_eq_some_iff.mp (Option.mem_toList.mp hm)
            simp [hzero k.pc m' junk hreq, action_zero]
          rw [h.taken c' w hp, hnone, List.append_nil]
      · rw [if_neg (fun heq => hne (Int.ofNat_inj.mp heq)), List.append_nil]
        exact h.taken c' w hw

theorem conserved_start (db : DB) : Conserved (System.start db) := by
  refine ⟨rfl, by simp [System.start, ServerState.start], fun c u hu => ?_⟩
  simp [System.start] at hu

theorem conserved_run {db : DB} {as : List Label} {s : System DB}
    (h : (chatMachine sql).run (.start db) as = some s) : Conserved s := by
  exact (run_invariant (M := chatMachine sql) (I := fun s => InOrder s ∧ Conserved s)
    (fun _ _ _ hs hstep => ⟨inOrder_step hs.1 hstep, conserved_step hs.1 hs.2 hstep⟩)
    ⟨inOrder_start db, conserved_start db⟩ h).2

theorem faithful_run {db : DB} {as : List Label} {s : System DB}
    (h : (chatMachine sql).run (.start db) as = some s) : ∀ i ∈ s.server.history, i.Faithful := by
  obtain ⟨bs, hbs⟩ := server_reachable h
  obtain ⟨is, hhistory, his⟩ := run_history (P := fun _ => True)
    (fun c k hk => by simp [ServerState.start] at hk)
    (fun e he => by simp [ServerState.start, Server.start] at he)
    (eachState_of_forall fun _ => trivial) hbs
  intro i hi
  rw [hhistory] at hi
  exact (his i (by simpa [ServerState.start] using hi)).1

/-! ## From end to end -/

/-- The private messages that came from connection `a` and were written to `b`. -/
def System.delivered (s : System DB) (a b : ℕ) : List Msg :=
  (s.server.history.filter (fun i => i.cfd = (a : ℤ))).flatMap (Served.privateTo b)

theorem delivered_sublist (s : System DB) (a b : ℕ) :
    (s.delivered a b).Sublist ((s.server.requests a).filter Msg.isPrivate) := by
  rw [System.delivered, ServerState.requests]
  generalize s.server.history.filter (fun i => i.cfd = (a : ℤ)) = history
  induction history with
  | nil => exact .slnil
  | cons i history ih =>
    rw [List.flatMap_cons, List.filterMap_cons]
    cases hreq : i.request with
    | none => simpa [Served.privateTo, hreq] using ih
    | some m =>
      have hone : (Served.privateTo b i).Sublist ([m].filter Msg.isPrivate) := by
        rw [Served.privateTo, hreq, Option.toList_some]
        exact List.monotone_filter_right [m] fun x hx => by simp at hx; simp [hx]
      have hcons : (m :: history.filterMap Served.request).filter Msg.isPrivate =
          [m].filter Msg.isPrivate ++ (history.filterMap Served.request).filter Msg.isPrivate := by
        rw [← List.filter_append, List.singleton_append]
      exact hcons ▸ hone.append ih

theorem private_taken {s : System DB} (h : Conserved s) {a : ℕ} {u : User}
    (hu : s.peers[a]? = some (.user u)) :
    (s.server.requests a).filter Msg.isPrivate =
      (u.client.written.take u.handled).filter Msg.isPrivate := by
  have hboth (ms : List Msg) :
      (ms.filter (fun m => m.action ≠ 0)).filter Msg.isPrivate = ms.filter Msg.isPrivate := by
    rw [List.filter_filter]
    refine List.filter_congr fun m _ => ?_
    by_cases h2 : m.action = 2 <;> simp [Msg.isPrivate, h2]
  rw [← hboth, h.taken a u hu, hboth]

/-- The private messages on a connection are those that the server has delivered to it. -/
theorem inbox_private {db : DB} {as : List Label} {s : System DB}
    (h : (chatMachine sql).run (.start db) as = some s) (b : ℕ) :
    (s.inbox b).filter Msg.isPrivate = s.server.history.flatMap (Served.privateTo b) := by
  rw [System.inbox, (conserved_run h).written, recordsTo_flatMap, List.filter_flatMap]
  exact List.flatMap_congr fun i hi => privateTo_of_faithful (faithful_run h i hi) b

theorem shown_private {db : DB} {as : List Label} {s : System DB}
    (h : (chatMachine sql).run (.start db) as = some s) {b : ℕ} {u : User}
    (hu : s.peers[b]? = some (.user u)) :
    u.client.shown.filterMap Shown.private? <+:
      (s.server.history.flatMap (Served.privateTo b)).map Msg.said := by
  rw [(screens_run h b u hu).private ((inOrder_run h).linked b u hu).received, ← inbox_private h]
  exact (List.IsPrefix.filter _ (List.take_prefix _ _)).map _

theorem Conserved.of_client {s : System DB} (h : Conserved s) {i : Served} (hi : i ∈ s.server.history)
    {b : ℕ} (hne : Served.privateTo b i ≠ []) :
    ∃ (a : ℕ) (v : User), i.cfd = a ∧ s.peers[a]? = some (.user v) := by
  rcases h.opened i hi with ⟨a, v, hcfd, hv⟩ | ⟨-, hact⟩
  · exact ⟨a, v, hcfd, hv⟩
  · obtain ⟨m, hm⟩ := List.exists_mem_of_ne_nil _ hne
    simp only [Served.privateTo, List.mem_filter, Option.mem_toList, Msg.isPrivate,
      decide_eq_true_eq] at hm
    have h5 := hact m hm.1
    simp [hm.2.1] at h5

/-- In every framed run, a client shows private messages as the server has written them to it, each
once and in their order, and the server has written it only what another client, or itself, has
sent: of each client these are some of the private messages it has written, in their order. Each one
that the server has taken is answered once, by itself on the connection of its addressee, or by -2.
-/
theorem private_messages_end_to_end (sql : Sqlite DB) (db : DB) (as : List Event) (s : Network DB)
    (hframed : (networkMachine sql).EachStep Framed (.start db) as)
    (h : (networkMachine sql).run (.start db) as = some s) (b : ℕ) (u : User)
    (hu : s.system.peers[b]? = some (.user u)) :
    u.client.shown.filterMap Shown.private? <+:
        (s.server.history.flatMap (Served.privateTo b)).map Msg.said ∧
      (∀ i ∈ s.server.history, Served.privateTo b i ≠ [] →
        ∃ (a : ℕ) (v : User), i.cfd = a ∧ s.system.peers[a]? = some (.user v)) ∧
      ∀ (a : ℕ) (v : User), s.system.peers[a]? = some (.user v) →
        (s.system.delivered a b).Sublist ((v.client.written.take v.handled).filter Msg.isPrivate) ∧
          (s.server.requests a).filter Msg.isPrivate =
            (v.client.written.take v.handled).filter Msg.isPrivate ∧
          ∀ i ∈ s.server.history, ∀ m, i.request = some m → m.action = 2 → i.Delivers m := by
  obtain ⟨bs, hrecords⟩ := records_run hframed h
  have hconserved := conserved_run hrecords
  refine ⟨shown_private hrecords hu, fun i hi hne => hconserved.of_client hi hne, fun a v hv => ?_⟩
  have htaken := private_taken hconserved hv
  exact ⟨htaken ▸ delivered_sublist s.system a b, htaken,
    fun i hi => (faithful_run hrecords i hi).delivers⟩

/-- `42` sees the message of `b`, which `b` has sent. -/
theorem conversation_end_to_end :
    ∃ s u v, (networkMachine sqlite42).run (.start ()) conversation = some s ∧
      s.system.peers[0]? = some (.user u) ∧ s.system.peers[1]? = some (.user v) ∧
        u.client.shown.getLast? = some (.said [] [98] [104, 105]) ∧
        u.client.shown.filterMap Shown.private? <+:
          (s.server.history.flatMap (Served.privateTo 0)).map Msg.said ∧
        (s.system.delivered 1 0).Sublist ((v.client.written.take v.handled).filter Msg.isPrivate) := by
  obtain ⟨s, u, v, hrun, hu, hv, hlast, -⟩ := conversation_runs
  obtain ⟨hshown, -, hsent⟩ :=
    private_messages_end_to_end sqlite42 () conversation s conversation_framed hrun 0 u hu
  exact ⟨s, u, v, hrun, hu, hv, hlast.2.2.2, hshown, (hsent 1 v hv).1⟩

/-- In every framed run, as long as no name has been in the list twice, a private message comes from
a connection that is logged in under the name it carries, and goes to the one that is logged in
under its `toname`; when none is, its sender gets the answer -2, and nobody else gets anything. -/
theorem messages_reach_addressees (sql : Sqlite DB) (db : DB) (as : List Event) (s : Network DB)
    (hframed : (networkMachine sql).EachStep Framed (.start db) as)
    (h : (networkMachine sql).run (.start db) as = some s) :
    EachGiven (fun past i => NoneTwice past → ∀ m, i.request = some m → m.action = 2 →
      LoggedInAs past i.cfd m.name.str ∧
        ((∃ c, LoggedInAs past c m.toname.str ∧ i.writes = [(c, .record m)]) ∨
          (∀ c, ¬ LoggedInAs past c m.toname.str) ∧
            i.writes = [(i.cfd, .record { m with action := -2 })])) s.server.history := by
  intro past i rest hsplit htwice m hreq hact
  obtain ⟨bs, hrecords⟩ := records_run hframed h
  have hopen := (sessionsOpen_run hrecords).before past i rest hsplit htwice
  have hmem : i ∈ s.system.server.history := by
    rw [show s.system.server.history = past ++ i :: rest from hsplit]
    simp
  have hdelivers := (faithful_run hrecords i hmem).delivers m hreq hact
  refine ⟨((inOrder_run hrecords).ofClients past i rest hsplit m hreq).2 (by simp [OfSession, hact]), ?_⟩
  rcases hdelivers with ⟨e, hon, hws⟩ | ⟨hon, hws⟩
  · obtain ⟨he, hname⟩ := getOnline_mem hon
    exact .inl ⟨e.cfd, (hopen _ _).mp (mem_session.mpr ⟨e, he, rfl, hname⟩), hws⟩
  · refine .inr ⟨fun c hlogged => ?_, hws⟩
    obtain ⟨e, he, -, hname⟩ := mem_session.mp ((hopen _ _).mpr hlogged)
    exact getOnline_eq_none_iff.mp hon (hname ▸ List.mem_map_of_mem he)

theorem conversation_addressed :
    ∃ s, (networkMachine sqlite42).run (.start ()) conversation = some s ∧
      ∀ past i rest m, s.server.history = past ++ i :: rest → i.request = some m → m.action = 2 →
        LoggedInAs past i.cfd m.name.str := by
  obtain ⟨s, u, v, hrun, -, -, -, -, htwice⟩ := conversation_runs
  refine ⟨s, hrun, fun past i rest m hsplit hreq hact => ?_⟩
  have hpast : NoneTwice past := fun j hj => htwice j (by rw [hsplit]; exact List.mem_append_left _ hj)
  have hreached := messages_reach_addressees sqlite42 () conversation s conversation_framed hrun
  exact (hreached past i rest hsplit hpast m hreq hact).1

end LinuxCat.ChatSystem
