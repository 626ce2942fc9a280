import LinuxCat.ChatNetwork
import LinuxCat.ChatScreens

/-! # What a client can rely on

In any order of the steps of clients, blocks and server. -/
namespace LinuxCat.ChatSystem
open LabelledMachines LabelledMachines.Machine ByteLayouts Messages ServerModel Histories
open ClientModel (Client Shown phaseOf Session)

variable {DB : Type} {sql : Sqlite DB}

/-! ## Sessions -/

theorem Session.in_of_atHome {c : Client} {p : ClientModel.Phase} (h : Session c p)
    (hpc : c.pc.atHome = true) : p.In c.pmsg := by
  have hto (h : p = .inside c.pmsg.name c.pmsg.password (some c.pmsg.toname)) : p.In c.pmsg := ⟨_, h⟩
  cases hc : c.pc <;> simp only [hc, ClientModel.Pc.atHome, reduceCtorEq] at hpc <;>
    simp only [Session, hc] at h
  case home => exact h
  case home1 => exact h
  case home2 => exact h
  case home3 => exact h
  case toname => exact h
  case chat => exact hto h
  case filename => exact hto h
  case openFile => exact hto h
  case waitId => exact hto h
  case all => exact h.1

/-- In every framed run, the records of a client are those of its sessions, one behind the other:
nothing is sent before a login that was let in or behind a logout, every request in between carries
the name and the password of this login, a message goes to the addressee whose history was asked for
last, and while the client is in the menus of its user, they are those of the session it is in. -/
theorem records_of_sessions (sql : Sqlite DB) (db : DB) (as : List Event) (s : Network DB)
    (hframed : (networkMachine sql).EachStep Framed (.start db) as)
    (h : (networkMachine sql).run (.start db) as = some s) (c : ℕ) (u : User)
    (hu : s.system.peers[c]? = some (.user u)) :
    ∃ p, phaseOf u.client.written = some p ∧ (u.client.pc.atHome = true → p.In u.client.pmsg) := by
  obtain ⟨bs, hrecords⟩ := records_run hframed h
  obtain ⟨p, hp, hsession⟩ := ((inOrder_run hrecords).linked c u hu).session
  exact ⟨p, hp, Session.in_of_atHome hsession⟩

/-- `b` is in its session, behind a login, a request for the users, one for a history, and a
message. -/
theorem conversation_of_sessions :
    ∃ s v p, (networkMachine sqlite42).run (.start ()) conversation = some s ∧
      s.system.peers[1]? = some (.user v) ∧ v.client.written.length = 4 ∧
        phaseOf v.client.written = some p ∧ p.In v.client.pmsg := by
  obtain ⟨s, u, v, hrun, -, hv, -, ⟨hpc, hlen⟩, -⟩ := conversation_runs
  obtain ⟨p, hp, hin⟩ :=
    records_of_sessions sqlite42 () conversation s conversation_framed hrun 1 v hv
  exact ⟨s, v, p, hrun, hv, hlen, hp, hin (by rw [hpc]; rfl)⟩

/-- In every framed run, one login or its answer is under way while a client that has not ended
waits for it, and none at any other time. So `thread_read` changes `lognum` only when `main` waits
for it, and once; and a client that goes on behind its login was verified under its name. -/
theorem one_login_under_way (sql : Sqlite DB) (db : DB) (as : List Event) (s : Network DB)
    (hframed : (networkMachine sql).EachStep Framed (.start db) as)
    (h : (networkMachine sql).run (.start db) as = some s) (c : ℕ) (u : User)
    (hu : s.system.peers[c]? = some (.user u)) (hrunning : u.client.running = true) :
    u.pending (s.system.inbox c) = (if u.client.waits then 1 else 0) ∧
      (∀ m r, (s.system.inbox c)[u.received]? = some m →
        (ClientModel.threadRead u.client r m).lognum ≠ u.client.lognum →
          u.client.waits = true ∧ (ClientModel.threadRead u.client r m).lognum ∈ [1, -1]) ∧
      (u.client.inSession = true → LoggedInAs s.server.history c u.client.pmsg.name.str) := by
  obtain ⟨bs, hrecords⟩ := records_run hframed h
  have hlinked := (inOrder_run hrecords).linked c u hu
  refine ⟨hlinked.pending hrunning, fun m r hm hne => ?_, fun hs =>
    (hlinked.verified hrunning (.inl hs)).1⟩
  have hmem : m ∈ u.unread (s.system.inbox c) := by
    rw [User.unread, drop_eq_cons hm]
    exact List.mem_cons_self
  have hread := ClientModel.threadRead_cases u.client r m
  generalize ClientModel.threadRead u.client r m = d at hread hne ⊢
  cases hread with
  | goes sfileId shown hid =>
    have hact : m.action = 1 ∨ m.action = -1 := by
      by_contra hnot
      push Not at hnot
      exact hne (by simp [ClientModel.answered, hnot])
    refine ⟨hlinked.waits_of_answer hrunning hmem (by simpa [Msg.isAnswer] using hact), ?_⟩
    rcases hact with h1 | h1 <;> simp [ClientModel.answered, h1]
  | leaves hnot => exact absurd rfl hne

theorem conversation_logged_in :
    ∃ s u, (networkMachine sqlite42).run (.start ()) conversation = some s ∧
      s.system.peers[0]? = some (.user u) ∧
      u.pending (s.system.inbox 0) = (if u.client.waits then 1 else 0) ∧
        LoggedInAs s.server.history 0 u.client.pmsg.name.str := by
  obtain ⟨s, u, v, hrun, hu, -, hcheck, -⟩ := conversation_runs
  obtain ⟨hpending, -, hlogged⟩ :=
    one_login_under_way sqlite42 () conversation s conversation_framed hrun 0 u hu hcheck.1
  exact ⟨s, u, hrun, hu, hpending, hlogged hcheck.2.1⟩

/-- In every framed run, a request of a session is handled behind a verified login of its own
connection under its own name, and before a logout of it; so whatever a step relays, shows or
changes is bound to the session it belongs to. -/
theorem requests_verified (sql : Sqlite DB) (db : DB) (as : List Event) (s : Network DB)
    (hframed : (networkMachine sql).EachStep Framed (.start db) as)
    (h : (networkMachine sql).run (.start db) as = some s) :
    EachGiven (fun past i => Served.OfClient past i ∧ i.Bound past) s.server.history := by
  obtain ⟨bs, hrecords⟩ := records_run hframed h
  have hasked : ∀ i ∈ s.server.history, i.AsAsked :=
    (server_reachable hrecords).invariant (I := fun s => ∀ i ∈ s.history, i.AsAsked)
      (fun _ _ _ hs hstep => asAsked_step hs hstep) (by simp [ServerState.start])
  intro past i rest hsplit
  have hclient := (inOrder_run hrecords).ofClients past i rest hsplit
  refine ⟨hclient, (hasked i (by simp [hsplit])).bound ⟨fun m hm hact => ?_, fun m hm hact => ?_⟩⟩
  · refine (hclient m hm).2 ?_
    simp only [OfSession, List.mem_cons, List.not_mem_nil, or_false] at hact ⊢
    omega
  · have hnot := (hclient m hm).1
    simp only [List.mem_cons, List.not_mem_nil, or_false] at hact hnot
    omega

theorem conversation_verified :
    ∃ s, (networkMachine sqlite42).run (.start ()) conversation = some s ∧
      EachGiven (fun past i => Served.OfClient past i ∧ i.Bound past) s.server.history := by
  obtain ⟨s, u, v, hrun, -⟩ := conversation_runs
  exact ⟨s, hrun, requests_verified sqlite42 () conversation s conversation_framed hrun⟩

/-! ## Blocks -/

/-- In every framed run, the bytes of a block and the `close` of a relay go to connections of blocks
only, records go to connections that were opened, a user is online on the connection of a client,
and what waits in `find_cfd` is a connection of a block. -/
theorem blocks_apart (sql : Sqlite DB) (db : DB) (as : List Event) (s : Network DB)
    (hframed : (networkMachine sql).EachStep Framed (.start db) as)
    (h : (networkMachine sql).run (.start db) as = some s) :
    (∀ fd o, (fd, o) ∈ s.server.srv.written → IsUser s.system.peers fd → ∃ m, o = .record m) ∧
      (∀ fd o, (fd, o) ∈ s.server.srv.written → IsUser s.system.peers fd ∨ IsBlock s.system.peers fd) ∧
      (∀ e ∈ s.server.srv.online, IsUser s.system.peers e.cfd ∧ ¬ IsBlock s.system.peers e.cfd) ∧
      (∀ slot ∈ s.server.srv.findCfd, slot.use = 1 →
        IsBlock s.system.peers slot.cfd ∧ ¬ IsUser s.system.peers slot.cfd) := by
  obtain ⟨bs, hrecords⟩ := records_run hframed h
  have hfits := (inOrder_run hrecords).fits
  refine ⟨fun fd o hm huser => ?_, fun fd o hm => ?_, fun e he => ?_, fun slot hs hu => ?_⟩
  · have hfit := hfits.written fd o hm
    cases o with
    | record m => exact ⟨m, rfl⟩
    | raw bs => exact absurd hfit huser.not_isBlock
    | close => exact absurd hfit huser.not_isBlock
  · have hfit := hfits.written fd o hm
    cases o with
    | record m => exact hfit
    | raw bs => exact .inr hfit
    | close => exact .inr hfit
  · exact ⟨hfits.online e he, (hfits.online e he).not_isBlock⟩
  · exact ⟨hfits.slots slot hs hu, fun huser => huser.not_isBlock (hfits.slots slot hs hu)⟩

theorem conversation_apart :
    ∃ s, (networkMachine sqlite42).run (.start ()) conversation = some s ∧ IsUser s.system.peers 0 ∧
      ∀ o, (0, o) ∈ s.server.srv.written → ∃ m, o = .record m := by
  obtain ⟨s, u, v, hrun, hu, -⟩ := conversation_runs
  have huser : IsUser s.system.peers 0 := ⟨0, u, rfl, hu⟩
  obtain ⟨hrecords, -⟩ := blocks_apart sqlite42 () conversation s conversation_framed hrun
  exact ⟨s, hrun, huser, fun o ho => hrecords 0 o ho huser⟩

/-! ## Muting -/

/-- Nobody is muted, and no record says that somebody is. -/
structure Unmuted (srv : Server DB) : Prop where
  flags : ∀ e ∈ srv.online, e.say = 0
  written : ∀ fd m, (fd, Out.record m) ∈ srv.written → m.action ∉ [7, 8, -8]

theorem unmuted_step {srv srv' : Server DB} {k : Handler} {inp : Input} {pc : ServerModel.Pc}
    (h : Unmuted srv) (hr : threadReadPc sql srv k.cfd k.pc inp = some (srv', pc))
    (hreq : ∀ m junk, requested k.pc inp = some (m, junk) → m.action ∉ [7, 8, -8]) :
    Unmuted srv' := by
  have hwrites {P : Msg → Prop} (hw : Writes P srv (srv', pc))
      (hp : ∀ m, P m → m.action ∉ [7, 8, -8]) :
      ∀ fd m, (fd, Out.record m) ∈ srv'.written → m.action ∉ [7, 8, -8] := by
    obtain ⟨ws, hws, hall⟩ := hw
    intro fd m hm
    rw [hws] at hm
    rcases List.mem_append.mp hm with hm | hm
    · exact h.written fd m hm
    · exact hp m (hall fd m hm)
  cases hrq : requested k.pc inp with
  | none =>
    refine ⟨?_, hwrites (Writes.of_unrequested hr hrq) fun m hm => by simp [hm]⟩
    rw [show srv'.online = srv.online from unrequested_online hr hrq]
    exact h.flags
  | some q =>
    obtain ⟨m, junk⟩ := q
    have hact := hreq m junk hrq
    simp only [List.mem_cons, List.not_mem_nil, or_false, not_or] at hact
    have heq := eq_dispatch hrq hr
    refine ⟨?_, hwrites (heq ▸ Writes.replies) fun m' hm' => ?_⟩
    · obtain rfl : srv' = (dispatch sql junk srv k.cfd m).1 := congrArg Prod.fst heq
      cases dispatch_listEffect sql junk srv k.cfd m with
      | same _ _ hon => exact hon ▸ h.flags
      | entered _ hon => exact hon ▸ List.forall_mem_cons.mpr ⟨rfl, h.flags⟩
      | left _ hon => exact fun e he => h.flags e ((unlink_sublist _ _).subset (hon ▸ he))
      | muted h8 hon => exact absurd h8 hact.2.1
      | unmuted h8 hon => exact absurd h8 hact.2.2
    · simp only [List.mem_cons, List.not_mem_nil, or_false]
      rcases hm' with ⟨hm', -⟩ | ⟨hm', -⟩ | ⟨hm', -⟩ | ⟨hm', -⟩ | ⟨hm', -⟩ | ⟨-, -, e, he, hsay⟩
      · omega
      · omega
      · omega
      · omega
      · omega
      · have hzero := h.flags e he
        omega

theorem unmuted_chatStep {s t : System DB} {a : Label} (hin : InOrder s) (h : Unmuted s.server.srv)
    (hstep : chatStep sql s a = some t) : Unmuted t.server.srv := by
  have haccept {t : ServerState DB} (ht : serverStep sql s.server .accept = some t) :
      Unmuted t.srv := by
    obtain ⟨-, rfl⟩ | ⟨c, inp, k, srv, pc, ha, -⟩ := serverStep_cases ht
    · exact h
    · cases ha
  cases chatStep_cases hstep with
  | connect stdin num pmsg t ht => exact haccept ht
  | connectBlock t ht => exact haccept ht
  | serve c inp p p' t hp hgive ht =>
    obtain ⟨ha, -⟩ | ⟨c', inp', k, srv, pc, ha, hk, hr, rfl⟩ := serverStep_cases ht
    · cases ha
    cases ha
    exact unmuted_step h hr fun m junk hreq => (hin.request hp (give_cases hgive) hreq).1
  | _ => exact h

/-- The lines about muting. -/
def muteLines : List Shown :=
  [.line (text "你被禁言了！"), .line (text "禁言成功！"), .line (text "解除禁言！")]

theorem printed_muteLine {r : ClientModel.Round} {m : Msg} {line : Shown}
    (h : printed r m = some line)
    (hline : line ∈ muteLines) : m.action ∈ [7, 8, -8] := by
  by_contra hact
  simp only [List.mem_cons, List.not_mem_nil, or_false, not_or] at hact
  rw [printed, if_neg hact.1, if_neg hact.2.1, if_neg hact.2.2] at h
  split_ifs at h
  · cases h
    exact absurd hline (by decide)
  · cases h
    simp [muteLines] at hline
  · cases h
    exact absurd hline (by decide)
  · cases h
    simp [muteLines] at hline
  · obtain ⟨lines, -, rfl⟩ := Option.map_eq_some_iff.mp h
    simp [muteLines] at hline
  · obtain ⟨lines, -, rfl⟩ := Option.map_eq_some_iff.mp h
    simp [muteLines] at hline

/-- In every framed run nobody is ever muted: `main` makes no request of a manager, no flag of the
list is set, and no client shows a line about it. -/
theorem nobody_muted (sql : Sqlite DB) (db : DB) (as : List Event) (s : Network DB)
    (hframed : (networkMachine sql).EachStep Framed (.start db) as)
    (h : (networkMachine sql).run (.start db) as = some s) :
    (∀ i ∈ s.server.history, ∀ m, i.request = some m → m.action ∉ [7, 8, -8]) ∧
      (∀ e ∈ s.server.srv.online, e.say = 0) ∧
      (∀ fd m, (fd, Out.record m) ∈ s.server.srv.written → m.action ∉ [7, 8, -8]) ∧
      ∀ (c : ℕ) (u : User), s.system.peers[c]? = some (.user u) →
        ∀ line ∈ u.client.shown, line ∉ muteLines := by
  obtain ⟨bs, hrecords⟩ := records_run hframed h
  have hunmuted : Unmuted s.server.srv :=
    (run_invariant (M := chatMachine sql) (I := fun s => InOrder s ∧ Unmuted s.server.srv)
      (fun _ _ _ hs hstep => ⟨inOrder_step hs.1 hstep, unmuted_chatStep hs.1 hs.2 hstep⟩)
      ⟨inOrder_start db, by simp [System.start, ServerState.start, Server.start],
        by simp [System.start, ServerState.start, Server.start]⟩ hrecords).2
  refine ⟨fun i hi m hm => ?_, hunmuted.flags, hunmuted.written, fun c u hu line hline hmute => ?_⟩
  · obtain ⟨past, rest, hsplit⟩ := List.append_of_mem hi
    exact ((inOrder_run hrecords).ofClients past i rest hsplit m hm).1
  · obtain ⟨rounds, -, hshown⟩ := screens_run hrecords c u hu
    rw [hshown] at hline
    rcases List.mem_append.mp hline with hline | hline
    · obtain ⟨⟨now, m⟩, hmem, hprinted⟩ := List.mem_filterMap.mp hline
      have hm : m ∈ s.system.inbox c := List.mem_of_mem_take (List.of_mem_zip hmem).2
      exact hunmuted.written c m (mem_recordsTo.mp hm) (printed_muteLine hprinted hmute)
    · split_ifs at hline
      · cases hline
      · rw [List.mem_singleton.mp hline] at hmute
        exact absurd hmute (by decide)

theorem conversation_unmuted :
    ∃ s u, (networkMachine sqlite42).run (.start ()) conversation = some s ∧
      s.system.peers[0]? = some (.user u) ∧ (∀ e ∈ s.server.srv.online, e.say = 0) ∧
        ∀ line ∈ u.client.shown, line ∉ muteLines := by
  obtain ⟨s, u, v, hrun, hu, -⟩ := conversation_runs
  obtain ⟨-, hflags, -, hlines⟩ := nobody_muted sqlite42 () conversation s conversation_framed hrun
  exact ⟨s, u, hrun, hu, hflags, hlines 0 u hu⟩

end LinuxCat.ChatSystem
