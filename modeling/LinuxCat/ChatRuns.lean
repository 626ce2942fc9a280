import LinuxCat.BlockConnections
import LinuxCat.ChatSessions

/-! # Runs of the clients and the server

What holds of every client and its connection, and of what the server has written, behind any steps
of any clients, of the threads for blocks and of the server. -/
namespace LinuxCat.ChatSystem
open LabelledMachines LabelledMachines.Machine ByteLayouts Messages ServerModel Histories

variable {DB : Type} {sql : Sqlite DB}

/-! ## The peers of a connection -/

/-- A client has opened the connection. -/
def IsUser (peers : List Peer) (fd : ℤ) : Prop :=
  ∃ (c : ℕ) (u : User), fd = c ∧ peers[c]? = some (.user u)

/-- A thread for a block has. -/
def IsBlock (peers : List Peer) (fd : ℤ) : Prop := ∃ c : ℕ, fd = c ∧ peers[c]? = some .block

theorem IsUser.not_isBlock {peers : List Peer} {fd : ℤ} (h : IsUser peers fd) : ¬ IsBlock peers fd := by
  rintro ⟨c, rfl, hblock⟩
  obtain ⟨c', u, hc, huser⟩ := h
  obtain rfl := Int.ofNat_inj.mp hc
  rw [huser] at hblock
  cases hblock

theorem isUser_or_isBlock {peers : List Peer} {c : ℕ} {p : Peer} (h : peers[c]? = some p) :
    IsUser peers c ∨ IsBlock peers c := by
  cases p with
  | user u => exact .inl ⟨c, u, rfl, h⟩
  | block => exact .inr ⟨c, rfl, h⟩

section
variable {peers : List Peer} {c : ℕ} {p p' : Peer} {fd : ℤ}

theorem IsUser.concat (h : IsUser peers fd) (p : Peer) : IsUser (peers ++ [p]) fd := by
  obtain ⟨c, u, hfd, hu⟩ := h
  exact ⟨c, u, hfd, by rw [List.getElem?_append_left (List.getElem?_eq_some_iff.mp hu).1, hu]⟩

theorem IsBlock.concat (h : IsBlock peers fd) (p : Peer) : IsBlock (peers ++ [p]) fd := by
  obtain ⟨c, hfd, hb⟩ := h
  exact ⟨c, hfd, by rw [List.getElem?_append_left (List.getElem?_eq_some_iff.mp hb).1, hb]⟩

theorem IsUser.set {u u' : User} (h : IsUser peers fd) (hu : peers[c]? = some (.user u)) :
    IsUser (peers.set c (.user u')) fd := by
  obtain ⟨c', w, rfl, hw⟩ := h
  by_cases hc : c = c'
  · subst hc
    exact ⟨c, u', rfl, List.getElem?_set_self (List.getElem?_eq_some_iff.mp hu).1⟩
  · exact ⟨c', w, rfl, by rw [List.getElem?_set_ne hc, hw]⟩

theorem IsBlock.set {u u' : User} (h : IsBlock peers fd) (hu : peers[c]? = some (.user u)) :
    IsBlock (peers.set c (.user u')) fd := by
  obtain ⟨c', rfl, hb⟩ := h
  refine ⟨c', rfl, ?_⟩
  rw [List.getElem?_set_ne, hb]
  rintro rfl
  rw [hu] at hb
  cases hb

end

theorem set_self {peers : List Peer} {c : ℕ} {p : Peer} (h : peers[c]? = some p) :
    peers.set c p = peers := by
  obtain ⟨hlt, hget⟩ := List.getElem?_eq_some_iff.mp h
  rw [← hget]
  exact List.set_getElem_self hlt

theorem not_opened (peers : List Peer) :
    ¬ IsUser peers peers.length ∧ ¬ IsBlock peers peers.length := by
  have hnot {p : Peer} : peers[peers.length]? ≠ some p := by simp
  constructor
  · rintro ⟨c, u, hc, hu⟩
    obtain rfl := Int.ofNat_inj.mp hc
    exact hnot hu
  · rintro ⟨c, hc, hb⟩
    obtain rfl := Int.ofNat_inj.mp hc
    exact hnot hb

/-! ## What a connection gives -/

/-- A record of the client, its end, or something of a block. -/
inductive Gives (inp : Input) : Peer → Peer → Prop
  | taken (u : User) (m : Msg) (junk : CharArray 20) (hinp : inp = .record m junk)
      (hm : u.client.written[u.handled]? = some m) :
      Gives inp (.user u) (.user { u with handled := u.handled + 1 })
  | ended (u : User) (hreq : ∀ pc m junk, requested pc inp = some (m, junk) → m = .zero) :
      Gives inp (.user u) (.user u)
  | block (hreq : ∀ pc m junk, requested pc inp = some (m, junk) → m.action ∈ [0, 5, -5]) :
      Gives inp .block .block

theorem action_zero : Msg.zero.action = 0 := rfl

theorem give_cases {p p' : Peer} {inp : Input} (h : p.give inp = some p') : Gives inp p p' := by
  cases p with
  | user u =>
    cases inp with
    | record m junk =>
      simp only [Peer.give] at h
      split_ifs at h with hm
      cases h
      exact .taken u m junk rfl hm
    | closed =>
      simp only [Peer.give] at h
      split_ifs at h
      cases h
      exact .ended u fun pc m junk hreq => by cases pc <;> cases hreq
    | failed junk =>
      simp only [Peer.give] at h
      split_ifs at h
      cases h
      refine .ended u fun pc m junk hreq => ?_
      obtain rfl := recv_of_requested hreq
      cases hreq
      rfl
    | go =>
      cases h
      exact .ended u fun pc m junk hreq => by cases pc <;> cases hreq
    | data bs => cases h
    | dataFailed => cases h
  | block =>
    cases inp with
    | record m junk =>
      simp only [Peer.give] at h
      split_ifs at h with hact
      cases h
      refine .block fun pc m' junk' hreq => ?_
      obtain rfl := recv_of_requested hreq
      cases hreq
      rcases hact with hact | hact <;> simp [hact]
    | failed junk =>
      cases h
      refine .block fun pc m junk hreq => ?_
      obtain rfl := recv_of_requested hreq
      cases hreq
      simp [action_zero]
    | closed | go | data | dataFailed =>
      cases h
      exact .block fun pc m junk hreq => by cases pc <;> cases hreq

/-- Only a handler at its `recv` takes a record. -/
theorem requested_of_record {srv : Server DB} {cfd : ℤ} {pc : ServerModel.Pc} {m : Msg} {junk : CharArray 20}
    {r : Server DB × ServerModel.Pc}
    (h : threadReadPc sql srv cfd pc (.record m junk) = some r) :
    requested pc (.record m junk) = some (m, junk) := by
  cases pc <;> simp [threadReadPc, relayFirst, relaySecond] at h
  rfl

/-! ## The invariant -/

/-- The request of the step is none of a manager, and if it is one of a session, then its connection
has a login of its own behind it that was verified, under this name, and no logout since. -/
def Served.OfClient (past : List Served) (i : Served) : Prop :=
  ∀ m, i.request = some m → m.action ∉ [7, 8, -8] ∧ (OfSession m → LoggedInAs past i.cfd m.name.str)

structure InOrder (s : System DB) : Prop where
  numbered : s.server.Numbered
  length : s.peers.length = s.server.handlers.length
  fits : s.server.srv.Fits (IsUser s.peers) (IsBlock s.peers)
  pcs : ∀ (c : ℕ) (k : Handler), s.server.handlers[c]? = some k →
    k.pc.Fits (IsUser s.peers) (IsBlock s.peers) c
  linked : ∀ (c : ℕ) (u : User), s.peers[c]? = some (.user u) →
    Linked s.server.history c u (s.inbox c)
  ofClients : EachGiven Served.OfClient s.server.history

theorem inOrder_start (db : DB) : InOrder (System.start db) where
  numbered c k hk := by simp [System.start, ServerState.start] at hk
  length := rfl
  fits := ⟨by simp [System.start, ServerState.start, Server.start],
    fun slot hs hu => by
      simp [System.start, ServerState.start, Server.start] at hs
      simp [hs] at hu,
    by simp [System.start, ServerState.start, Server.start]⟩
  pcs c k hk := by simp [System.start, ServerState.start] at hk
  linked c u hu := by simp [System.start] at hu
  ofClients := eachGiven_nil

section
variable {s : System DB} {c : ℕ}

/-- Nothing was written to a connection that is yet to come. -/
theorem InOrder.inbox_new (h : InOrder s) : s.inbox s.peers.length = [] := by
  rw [List.eq_nil_iff_forall_not_mem]
  intro m hm
  rcases h.fits.written _ _ (mem_recordsTo.mp hm) with huser | hblock
  · exact (not_opened s.peers).1 huser
  · exact (not_opened s.peers).2 hblock

/-- A connection comes in. -/
theorem InOrder.accept (h : InOrder s) {p : Peer}
    (hp : ∀ u, p = .user u → Linked s.server.history s.peers.length u []) {t : ServerState DB}
    (hstep : serverStep sql s.server .accept = some t) : InOrder ⟨t, s.peers ++ [p]⟩ := by
  obtain ⟨-, rfl⟩ | ⟨c, inp, k, srv, pc, ha, -⟩ := serverStep_cases hstep
  · have huser (fd : ℤ) (hfd : IsUser s.peers fd) : IsUser (s.peers ++ [p]) fd := hfd.concat p
    have hblock (fd : ℤ) (hfd : IsBlock s.peers fd) : IsBlock (s.peers ++ [p]) fd := hfd.concat p
    refine ⟨numbered_step h.numbered hstep, ?_, h.fits.mono huser hblock, ?_, ?_, h.ofClients⟩
    · simp [h.length]
    · exact WaitQueues.forall_place_concat (fun c k hk => (h.pcs c k hk).mono huser hblock) trivial
    · refine WaitQueues.forall_place_concat (P := fun c q => ∀ u, q = Peer.user u →
        Linked s.server.history c u (s.inbox c)) (fun c q hq u hu => h.linked c u (hu ▸ hq))
        (fun u hu => ?_) |> fun hall c u hu => hall c _ hu u rfl
      rw [h.inbox_new]
      exact hp u hu
  · cases ha

/-- A client goes on. -/
theorem InOrder.onUser (h : InOrder s) {u u' : User} (hu : s.peers[c]? = some (.user u))
    (hlinked : Linked s.server.history c u' (s.inbox c)) :
    InOrder { s with peers := s.peers.set c (.user u') } := by
  have huser (fd : ℤ) (hfd : IsUser s.peers fd) : IsUser (s.peers.set c (.user u')) fd := hfd.set hu
  have hblock (fd : ℤ) (hfd : IsBlock s.peers fd) : IsBlock (s.peers.set c (.user u')) fd := hfd.set hu
  refine ⟨h.numbered, ?_, h.fits.mono huser hblock, fun c k hk => (h.pcs c k hk).mono huser hblock,
    fun c' w hw => ?_, h.ofClients⟩
  · simp [h.length]
  · rcases WaitQueues.getElem?_set_cases hw with ⟨rfl, heq⟩ | ⟨-, hw⟩
    · cases heq
      exact hlinked
    · exact h.linked c' w hw

/-- What is known of a request when its step is taken. -/
theorem InOrder.request (h : InOrder s) {p p' : Peer} {inp : Input} {pc : ServerModel.Pc} {m : Msg}
    {junk : CharArray 20} (hp : s.peers[c]? = some p) (hgives : Gives inp p p')
    (hreq : requested pc inp = some (m, junk)) :
    m.action ∉ [7, 8, -8] ∧ (OfSession m → LoggedInAs s.server.history c m.name.str) ∧
      (m.action = 5 ∨ m.action = -5 → IsBlock s.peers c) ∧
        (m.action = 1 → IsUser s.peers c) := by
  have hquiet (hact : m.action = 0) : m.action ∉ [7, 8, -8] ∧
      (OfSession m → LoggedInAs s.server.history c m.name.str) ∧
        (m.action = 5 ∨ m.action = -5 → IsBlock s.peers c) ∧
          (m.action = 1 → IsUser s.peers c) := by
    simp [hact, OfSession]
  cases hgives with
  | taken u m' junk' hinp hm =>
    subst hinp
    obtain rfl := recv_of_requested hreq
    obtain ⟨rfl, rfl⟩ := Prod.mk.inj (Option.some.inj hreq)
    have hlinked := h.linked c u hp
    obtain ⟨p, hphase, -⟩ := hlinked.session
    have hact := ClientModel.action_of_phaseOf hphase m' (List.mem_of_getElem? hm)
    simp only [List.mem_cons, List.not_mem_nil, or_false] at hact ⊢
    refine ⟨by omega, fun hof => ?_, fun h5 => by omega, fun _ => ⟨c, u, rfl, hp⟩⟩
    have hqueue : u.queue = m' :: u.client.written.drop (u.handled + 1) := drop_eq_cons hm
    exact ((hqueue ▸ hlinked.queue : EachGiven (Authorised s.server.history c) (m' :: _)).head hof).1
  | ended u hzero =>
    exact hquiet (by rw [hzero pc m junk hreq, action_zero])
  | block hblock =>
    have hact := hblock pc m junk hreq
    simp only [List.mem_cons, List.not_mem_nil, or_false] at hact ⊢
    refine ⟨by omega, fun hof => ?_, fun _ => ⟨c, rfl, hp⟩, fun h1 => by omega⟩
    simp only [OfSession, List.mem_cons, List.not_mem_nil, or_false] at hof
    omega

/-- An answer goes to the connection that asked. -/
theorem answers_elsewhere {i : Served} (h : i.Answers) {fd : ℤ} (hfd : i.cfd ≠ fd) :
    ∀ m ∈ recordsTo i.writes fd, Msg.isAnswer m = false := by
  intro m hm
  cases h with
  | other hreq hverified hws => exact hws fd m (mem_recordsTo.mp hm)
  | refused m' hreq hact hverified hws => simp [recordsTo, hws, hfd] at hm
  | letIn m' hreq hact hverified hws => simp [recordsTo, hws, hfd] at hm

/-- A step without a request, or with that of a reset connection, logs nobody in. -/
theorem answers_of_zero {i : Served} (h : i.Answers) (hzero : ∀ m, i.request = some m → m = .zero) :
    ¬ i.Verified ∧ ∀ (fd : ℤ), ∀ m ∈ recordsTo i.writes fd, Msg.isAnswer m = false := by
  cases h with
  | other hreq hverified hws => exact ⟨hverified, fun fd m hm => hws fd m (mem_recordsTo.mp hm)⟩
  | refused m' hreq hact hverified hws =>
    rw [hzero m' hreq] at hact
    cases hact
  | letIn m' hreq hact hverified hws =>
    rw [hzero m' hreq] at hact
    cases hact

/-- The handler of a connection goes on. -/
theorem InOrder.serve (h : InOrder s) {inp : Input} {p p' : Peer} {t : ServerState DB}
    (hp : s.peers[c]? = some p) (hgive : p.give inp = some p')
    (hstep : serverStep sql s.server (.serve c inp) = some t) : InOrder ⟨t, s.peers.set c p'⟩ := by
  have hgives := give_cases hgive
  obtain ⟨ha, -⟩ | ⟨c', inp', k, srv, pc, ha, hk, hr, rfl⟩ := serverStep_cases hstep
  · cases ha
  cases ha
  have hcfd := h.numbered c k hk
  have hrequest {m : Msg} {junk : CharArray 20} (hreq : requested k.pc inp = some (m, junk)) :=
    h.request hp hgives hreq
  have hanswers := served_answers hr fun m junk hreq h7 => by simpa [h7] using (hrequest hreq).1
  -- the peers keep their kinds
  have hkinds : (∀ fd, IsUser s.peers fd → IsUser (s.peers.set c p') fd) ∧
      ∀ fd, IsBlock s.peers fd → IsBlock (s.peers.set c p') fd := by
    cases hgives with
    | taken u m junk hinp hm => exact ⟨fun fd hfd => hfd.set hp, fun fd hfd => hfd.set hp⟩
    | ended u hzero => exact ⟨fun fd hfd => hfd.set hp, fun fd hfd => hfd.set hp⟩
    | block hblock =>
      rw [set_self hp]
      exact ⟨fun fd hfd => hfd, fun fd hfd => hfd⟩
  have hstays := stays_step h.fits
    (hcfd ▸ isUser_or_isBlock hp) (hcfd ▸ h.pcs c k hk) (fun m junk hreq => ?_) hr
  · have hinbox (fd : ℤ) : recordsTo srv.written fd =
        recordsTo s.server.srv.written fd ++ recordsTo (served sql s.server.srv srv k inp).writes fd := by
      rw [served_appends hr, recordsTo_append]
    refine ⟨numbered_step h.numbered hstep, ?_, hstays.1.mono hkinds.1 hkinds.2, ?_, ?_, ?_⟩
    · simp [h.length]
    · refine WaitQueues.forall_place_set (fun c k hk => (h.pcs c k hk).mono hkinds.1 hkinds.2) ?_
      exact hcfd ▸ hstays.2.mono hkinds.1 hkinds.2
    · intro c' w hw
      rw [System.inbox, hinbox]
      rcases WaitQueues.getElem?_set_cases hw with ⟨rfl, heq⟩ | ⟨hne, hw⟩
      · subst heq
        cases hgives with
        | taken u m junk hinp hm =>
          subst hinp
          refine linked_taken (h.linked c' u hp) hm hcfd ?_ hanswers
          simp [served, requested_of_record hr]
        | ended u hzero =>
          have hzero' {m : Msg} (hm : (served sql s.server.srv srv k inp).request = some m) :
              m = .zero := by
            obtain ⟨⟨m', junk⟩, hreq, rfl⟩ := Option.map_eq_some_iff.mp hm
            exact hzero k.pc m' junk hreq
          refine linked_served (h.linked c' w hp) (fun _ m hm => ?_)
            ((answers_of_zero hanswers fun m hm => hzero' hm).2 _)
          rw [hzero' hm]
          decide
      · have hne' : (served sql s.server.srv srv k inp).cfd ≠ c' := by
          intro heq
          exact hne (Int.ofNat_inj.mp (hcfd.symm.trans heq))
        exact linked_served (h.linked c' w hw) (fun heq => absurd heq hne')
          (answers_elsewhere hanswers hne')
    · refine h.ofClients.concat fun m hm => ?_
      obtain ⟨⟨m', junk⟩, hreq, rfl⟩ := Option.map_eq_some_iff.mp hm
      obtain ⟨h7, hsession, -⟩ := hrequest hreq
      refine ⟨h7, ?_⟩
      rw [show (served sql s.server.srv srv k inp).cfd = c from hcfd]
      exact hsession
  · obtain ⟨h7, -, hblock, huser⟩ := hrequest hreq
    rw [hcfd]
    refine ⟨hblock, fun h17 => huser (h17.resolve_right fun h => ?_)⟩
    simp [h] at h7

theorem inOrder_step {s t : System DB} {a : Label} (h : InOrder s) (hstep : chatStep sql s a = some t) :
    InOrder t := by
  cases chatStep_cases hstep with
  | connect stdin num pmsg t ht =>
    refine h.accept (fun u hu => ?_) ht
    cases hu
    exact linked_start stdin num pmsg
  | connectBlock t ht => exact h.accept (fun u hu => by cases hu) ht
  | main c file u d hu hmain => exact h.onUser hu (linked_main (h.linked c u hu) hmain)
  | read c r u m d hu hrunning hreading hm hd =>
    exact h.onUser hu (linked_read (h.linked c u hu) hrunning hm (hd ▸ ClientModel.threadRead_cases ..))
  | serverExit c u hu hreading => exact h.onUser hu (linked_serverExit (h.linked c u hu))
  | serve c inp p p' t hp hgive ht => exact h.serve hp hgive ht
  | kill c u hu =>
    exact h.onUser hu (linked_stops (h.linked c u hu) (.inl rfl) (h.linked c u hu).received)

end

theorem inOrder_run {db : DB} {as : List Label} {s : System DB}
    (h : (chatMachine sql).run (.start db) as = some s) : InOrder s :=
  run_invariant (M := chatMachine sql) (fun _ _ _ => inOrder_step) (inOrder_start db) h

end LinuxCat.ChatSystem
