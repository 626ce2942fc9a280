import LinuxCat.ChatNetwork

/-! # The list of those who are online

An entry comes in with a verified login and leaves with a logout under its name. While no name is in
the list twice, the list is therefore who is logged in, and a private message reaches its addressee
or nobody. -/
namespace LinuxCat.ChatSystem
open LabelledMachines LabelledMachines.Machine ByteLayouts Messages ServerModel Histories

variable {DB : Type} {sql : Sqlite DB}

/-- Behind each of these steps, the names of the list were distinct. -/
def NoneTwice (history : List Served) : Prop := ∀ i ∈ history, (i.after.map Online.name).Nodup

/-- The entries are the connections that are logged in, under these names. -/
def OpenSessions (online : List Online) (history : List Served) : Prop :=
  ∀ (c : ℤ) (name : Bytes), (c, name) ∈ online.map Online.session ↔ LoggedInAs history c name

section
variable {online : List Online} {c c' : ℤ} {name name' : Bytes}

theorem mem_session : (c, name) ∈ online.map Online.session ↔ ∃ e ∈ online, e.cfd = c ∧ e.name = name := by
  simp [Online.session]

theorem cfd_of_session (h : (online.map Online.name).Nodup)
    (hc : (c, name) ∈ online.map Online.session) (hc' : (c', name) ∈ online.map Online.session) :
    c = c' := by
  obtain ⟨e, he, rfl, rfl⟩ := mem_session.mp hc
  obtain ⟨e', he', rfl, hname⟩ := mem_session.mp hc'
  rw [List.inj_on_of_nodup_map h he' he hname]

theorem session_unlink (h : (online.map Online.name).Nodup) :
    (c, name') ∈ (unlink online name).map Online.session ↔
      (c, name') ∈ online.map Online.session ∧ name' ≠ name := by
  have hgone := name_notMem_unlink h name
  constructor
  · intro hmem
    obtain ⟨e, he, rfl, rfl⟩ := mem_session.mp hmem
    refine ⟨mem_session.mpr ⟨e, (unlink_sublist online name).subset he, rfl, rfl⟩, ?_⟩
    rintro rfl
    exact hgone (List.mem_map_of_mem he)
  · rintro ⟨hmem, hne⟩
    obtain ⟨e, he, rfl, rfl⟩ := mem_session.mp hmem
    refine mem_session.mpr ⟨e, ?_, rfl, rfl⟩
    clear h hgone hmem
    induction online with
    | nil => cases he
    | cons x online ih =>
      simp only [unlink]
      rcases List.mem_cons.mp he with rfl | he
      · rw [if_neg hne]
        exact List.mem_cons_self
      · split_ifs
        · exact he
        · exact List.mem_cons_of_mem _ (ih he)

end

/-- A step that no login brought in and that logs nobody out. -/
theorem loggedInAs_quiet {history : List Served} {i : Served} (hverified : ¬ i.Verified)
    (h10 : ∀ m, i.request = some m → m.action ≠ 10) (c : ℤ) (name : Bytes) :
    LoggedInAs (history ++ [i]) c name ↔ LoggedInAs history c name := by
  rw [loggedInAs_concat_iff]
  constructor
  · rintro (⟨hv, -⟩ | ⟨h, -⟩)
    · exact absurd hv hverified
    · exact h
  · exact fun h => .inr ⟨h, fun _ m hm hact => absurd hact (h10 m hm)⟩

/-- What a login check returned, of the record it was made for. -/
theorem verified_iff {srv srv' : Server DB} {k : Handler} {inp : Input} {m : Msg} {junk : CharArray 20}
    (hreq : requested k.pc inp = some (m, junk)) :
    (served sql srv srv' k inp).Verified ↔ m.action = 1 ∧ (querypassword sql srv.db junk m).2 = 1 ∨
      m.action = 7 ∧ (queryManagerPassword sql srv.db junk m).2 = 1 := by
  simp only [Served.Verified, served, hreq, Option.bind_some, credentialCheck]
  split_ifs with h1 h7
  · simp [h1]
  · simp [h7]
  · simp [h1, h7]

/-- What a step does to the list and to who is logged in. -/
inductive LoginStep (sql : Sqlite DB) (srv srv' : Server DB) (k : Handler) (inp : Input)
    (history : List Served) : Prop
  | kept (hon : srv'.online.map Online.session = srv.online.map Online.session)
      (hlogged : ∀ c name, LoggedInAs (history ++ [served sql srv srv' k inp]) c name ↔
        LoggedInAs history c name)
  | entered (m : Msg) (hreq : (served sql srv srv' k inp).request = some m)
      (hact : Msg.isLogin m = true) (hon : srv'.online = ⟨k.cfd, 0, m.name.str⟩ :: srv.online)
      (hlogged : ∀ c name, LoggedInAs (history ++ [served sql srv srv' k inp]) c name ↔
        (c, name) = (k.cfd, m.name.str) ∨ LoggedInAs history c name)
  | left (gone : Bytes) (hown : LoggedInAs history k.cfd gone)
      (hon : srv'.online = unlink srv.online gone)
      (hlogged : ∀ c name, LoggedInAs (history ++ [served sql srv srv' k inp]) c name ↔
        LoggedInAs history c name ∧ (c, name) ≠ (k.cfd, gone))

/-- Where clients only ask for what is theirs. -/
theorem loginStep {srv srv' : Server DB} {k : Handler} {inp : Input} {pc : ServerModel.Pc}
    {history : List Served} (hr : threadReadPc sql srv k.cfd k.pc inp = some (srv', pc))
    (hclient : Served.OfClient history (served sql srv srv' k inp)) :
    LoginStep sql srv srv' k inp history := by
  have hrequest {m : Msg} {junk : CharArray 20} (hreq : requested k.pc inp = some (m, junk)) :
      (served sql srv srv' k inp).request = some m := by simp [served, hreq]
  cases sessionStep hr with
  | kept hsess hreq =>
    refine .kept hsess (loggedInAs_quiet (fun hv => ?_) (fun m hm => ?_))
    · cases hrq : requested k.pc inp with
      | none => simp [Served.Verified, served, hrq] at hv
      | some q =>
        obtain ⟨m, junk⟩ := q
        refine (hreq m junk hrq).1 ?_
        rcases (verified_iff hrq).mp hv with h1 | h7
        · exact .inl h1
        · exact .inr h7.1
    · obtain ⟨⟨m', junk⟩, hrq, rfl⟩ := Option.map_eq_some_iff.mp hm
      exact (hreq m' junk hrq).2
  | entered m junk hreq hlogin hon =>
    have h7 : m.action ≠ 7 := fun h7 => by simpa [h7] using (hclient m (hrequest hreq)).1
    have h1 : m.action = 1 ∧ (querypassword sql srv.db junk m).2 = 1 := hlogin.resolve_right h7
    have hverified : (served sql srv srv' k inp).Verified := (verified_iff hreq).mpr (.inl h1)
    refine .entered m (hrequest hreq) (by simp [Msg.isLogin, h1.1]) hon fun c name => ?_
    rw [loggedInAs_concat_iff, hrequest hreq, Prod.mk.injEq]
    constructor
    · rintro (⟨-, rfl, hname⟩ | ⟨hold, -⟩)
      · exact .inl ⟨rfl, (Option.some.inj hname).symm⟩
      · exact .inr hold
    · rintro (⟨rfl, rfl⟩ | hold)
      · exact .inl ⟨hverified, rfl, rfl⟩
      · refine .inr ⟨hold, fun _ m' hm' hact => ?_⟩
        rw [← Option.some.inj hm', h1.1] at hact
        cases hact
  | left m junk hreq hact hon =>
    have hverified : ¬ (served sql srv srv' k inp).Verified := by
      rw [verified_iff hreq, hact]
      simp
    -- whoever logs out is logged in
    have hown : LoggedInAs history k.cfd m.name.str :=
      (hclient m (hrequest hreq)).2 (by simp [OfSession, hact])
    refine .left m.name.str hown hon fun c name => ?_
    rw [loggedInAs_concat_iff, ne_eq, Prod.mk.injEq]
    constructor
    · rintro (⟨hv, -⟩ | ⟨hold, hgone⟩)
      · exact absurd hv hverified
      · refine ⟨hold, ?_⟩
        rintro ⟨rfl, rfl⟩
        exact hgone rfl m (hrequest hreq) hact rfl
    · rintro ⟨hold, hne⟩
      refine .inr ⟨hold, fun hcfd m' hm' _ hname => hne ⟨hcfd.symm, ?_⟩⟩
      obtain rfl := Option.some.inj ((hrequest hreq).symm.trans hm')
      exact hname.symm

theorem openSessions_served {srv srv' : Server DB} {k : Handler} {inp : Input} {pc : ServerModel.Pc}
    {history : List Served} (h : OpenSessions srv.online history)
    (hnames : (srv.online.map Online.name).Nodup)
    (hr : threadReadPc sql srv k.cfd k.pc inp = some (srv', pc))
    (hclient : Served.OfClient history (served sql srv srv' k inp)) :
    OpenSessions srv'.online (history ++ [served sql srv srv' k inp]) := by
  intro c name
  cases loginStep hr hclient with
  | kept hon hlogged => rw [hlogged, hon, h c name]
  | entered m hreq hact hon hlogged => rw [hlogged, hon, List.map_cons, List.mem_cons, h c name]; rfl
  | left gone hown hon hlogged =>
    rw [hlogged, hon, session_unlink hnames, h c name]
    refine and_congr_right fun hold => not_congr ⟨?_, fun heq => (Prod.mk.inj heq).2⟩
    rintro rfl
    rw [cfd_of_session hnames ((h _ _).mpr hold) ((h _ _).mpr hown)]

/-! ## Runs -/

/-- While no name is in the list twice, the list is who is logged in, now and before each step. -/
structure SessionsOpen (s : ServerState DB) : Prop where
  names : NoneTwice s.history → (s.srv.online.map Online.name).Nodup
  sessions : NoneTwice s.history → OpenSessions s.srv.online s.history
  before : EachGiven (fun past i => NoneTwice past → OpenSessions i.before past) s.history

theorem sessionsOpen_step {s t : System DB} {a : Label} (hin : InOrder s)
    (h : SessionsOpen s.server) (hstep : chatStep sql s a = some t) : SessionsOpen t.server := by
  have haccept {t : ServerState DB} (ht : serverStep sql s.server .accept = some t) :
      SessionsOpen t := by
    obtain ⟨-, rfl⟩ | ⟨c, inp, k, srv, pc, ha, -⟩ := serverStep_cases ht
    · exact ⟨h.names, h.sessions, h.before⟩
    · cases ha
  have hafter := inOrder_step hin hstep
  cases chatStep_cases hstep with
  | connect stdin num pmsg t ht => exact haccept ht
  | connectBlock t ht => exact haccept ht
  | serve c inp p p' t hp hgive ht =>
    obtain ⟨ha, -⟩ | ⟨c', inp', k, srv, pc, ha, hk, hr, rfl⟩ := serverStep_cases ht
    · cases ha
    cases ha
    have hclient := hafter.ofClients s.server.history (served sql s.server.srv srv k inp) [] rfl
    have hold (hn : NoneTwice (s.server.history ++ [served sql s.server.srv srv k inp])) :
        NoneTwice s.server.history := fun i hi => hn i (List.mem_append_left _ hi)
    refine ⟨fun hn => hn (served sql s.server.srv srv k inp) (by simp), fun hn => ?_,
      h.before.concat fun hn => h.sessions hn⟩
    exact openSessions_served (h.sessions (hold hn)) (h.names (hold hn)) hr hclient
  | _ => exact h

theorem sessionsOpen_run {db : DB} {as : List Label} {s : System DB}
    (h : (chatMachine sql).run (.start db) as = some s) : SessionsOpen s.server := by
  have hstart : SessionsOpen (System.start db).server := by
    refine ⟨fun _ => List.nodup_nil, fun _ c name => ?_, eachGiven_nil⟩
    simp [System.start, ServerState.start, Server.start, LoggedInAs]
  exact (run_invariant (M := chatMachine sql) (I := fun s => InOrder s ∧ SessionsOpen s.server)
    (fun _ _ _ hs hstep => ⟨inOrder_step hs.1 hstep, sessionsOpen_step hs.1 hs.2 hstep⟩)
    ⟨inOrder_start db, hstart⟩ h).2

/-- In every framed run in which no name has been in the list twice, exactly those connections are
in the list that are logged in, under the names they are logged in with, and each name is that of
one of them. -/
theorem online_iff_logged_in (sql : Sqlite DB) (db : DB) (as : List Event) (s : Network DB)
    (hframed : (networkMachine sql).EachStep Framed (.start db) as)
    (h : (networkMachine sql).run (.start db) as = some s)
    (htwice : NoneTwice s.server.history) :
    OpenSessions s.server.srv.online s.server.history ∧
      ∀ c c' name, LoggedInAs s.server.history c name → LoggedInAs s.server.history c' name →
        c = c' := by
  obtain ⟨bs, hrecords⟩ := records_run hframed h
  have hopen := sessionsOpen_run hrecords
  refine ⟨hopen.sessions htwice, fun c c' name hc hc' => ?_⟩
  exact cfd_of_session (hopen.names htwice) ((hopen.sessions htwice _ _).mpr hc)
    ((hopen.sessions htwice _ _).mpr hc')

/-- Nobody logs in twice in the conversation. -/
theorem conversation_online :
    ∃ s, (networkMachine sqlite42).run (.start ()) conversation = some s ∧
      OpenSessions s.server.srv.online s.server.history ∧
        ∀ c c' name, LoggedInAs s.server.history c name → LoggedInAs s.server.history c' name →
          c = c' := by
  obtain ⟨s, u, v, hrun, -, -, -, -, htwice⟩ := conversation_runs
  exact ⟨s, hrun, online_iff_logged_in sqlite42 () conversation s conversation_framed hrun htwice⟩

end LinuxCat.ChatSystem
