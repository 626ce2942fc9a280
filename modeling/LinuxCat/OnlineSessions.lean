import LinuxCat.HandlerPool
import LinuxCat.VerifiedSessions

/-! # What the online list says about users and connections

A login puts its entry in front, whatever is in the list, and a logout takes the first entry
of the name out. The end of a connection takes nothing out. -/
namespace LinuxCat.ServerModel
open LabelledMachines LabelledMachines.Machine ByteLayouts Messages HandlerPool

variable {DB : Type} {sql : Sqlite DB}

theorem getOnline_eq_none_iff {online : List Online} {name : Bytes} :
    getOnline online name = none ↔ name ∉ online.map Online.name := by
  induction online with
  | nil => simp [getOnline]
  | cons e online ih =>
    simp only [getOnline, List.map_cons, List.mem_cons, not_or]
    split_ifs with h
    · simp [h]
    · simp [ih, Ne.symm h]

/-- `find_fd` returns the descriptor of the entry `get_online` returns. -/
theorem findFd_eq (online : List Online) (name : Bytes) :
    findFd online name = ((getOnline online name).map Online.cfd).getD (-1) := by
  induction online with
  | nil => rfl
  | cons e online ih =>
    simp only [findFd, getOnline]
    split_ifs
    · rfl
    · exact ih

theorem getOnline_mem {online : List Online} {name : Bytes} {e : Online}
    (h : getOnline online name = some e) : e ∈ online ∧ e.name = name := by
  induction online with
  | nil => cases h
  | cons e' online ih =>
    simp only [getOnline] at h
    split_ifs at h with hname
    · cases h
      exact ⟨List.mem_cons_self, hname⟩
    · exact ⟨List.mem_cons_of_mem _ (ih h).1, (ih h).2⟩

/-- The request is a login that gets an entry. -/
def LogsIn (sql : Sqlite DB) (junk : CharArray 20) (db : DB) (m : Msg) : Prop :=
  m.action = 1 ∧ (querypassword sql db junk m).2 = 1 ∨ m.action = 7

/-- What a step of a handler does to the sessions. -/
inductive SessionStep (sql : Sqlite DB) (srv srv' : Server DB) (k : Handler) (inp : Input) : Prop
  | kept (hs : srv'.online.map Online.session = srv.online.map Online.session)
      (hreq : ∀ m junk, requested k.pc inp = some (m, junk) →
        ¬ LogsIn sql junk srv.db m ∧ m.action ≠ 10)
  | entered (m : Msg) (junk : CharArray 20) (hreq : requested k.pc inp = some (m, junk))
      (hlogin : LogsIn sql junk srv.db m)
      (hon : srv'.online = ⟨k.cfd, 0, m.name.str⟩ :: srv.online)
  | left (m : Msg) (junk : CharArray 20) (hreq : requested k.pc inp = some (m, junk))
      (hact : m.action = 10) (hon : srv'.online = unlink srv.online m.name.str)

/-- A handler that has read no login and no logout leaves the sessions as they are. -/
theorem sessions_kept {srv : Server DB} {cfd : ℤ} {pc : Pc} {inp : Input} {r : Server DB × Pc}
    (hreq : ∀ m junk, requested pc inp = some (m, junk) → m.action ∉ [1, 7, 10])
    (h : threadReadPc sql srv cfd pc inp = some r) :
    r.1.online.map Online.session = srv.online.map Online.session := by
  cases handlerStep h with
  | plain hplain => exact hplain.sessions
  | login m junk hm hact => exact absurd (hreq m junk hm) (by rcases hact with h | h <;> simp [h])
  | logout m junk hm hact => exact absurd (hreq m junk hm) (by simp [hact])
  | found m i slot hpc hslot huse hoff hr =>
    have hplain := Plain.of_sendFile hr
    exact hplain.sessions
  | reply m junk i _ _ _ _ hr => rw [hr]; rfl
  | noId m junk _ _ hr => rw [hr]
  | header m junk _ _ _ hr => rw [hr]; rfl
  | registration m junk _ _ hr => rw [hr]
  | notice m fd _ hr => rw [hr]; rfl
  | passed m i _ hr => rw [hr]
  | entered m i slot _ _ _ hr => rw [hr]
  | occupied m i _ hr => rw [hr]

theorem sessionStep {srv srv' : Server DB} {k : Handler} {inp : Input} {pc : Pc}
    (h : threadReadPc sql srv k.cfd k.pc inp = some (srv', pc)) :
    SessionStep sql srv srv' k inp := by
  by_cases hacts : ∀ m junk, requested k.pc inp = some (m, junk) → m.action ∉ [1, 7, 10]
  · refine .kept (sessions_kept hacts h) fun m junk hm => ?_
    have hact := hacts m junk hm
    simp only [List.mem_cons, List.not_mem_nil, or_false, not_or] at hact
    exact ⟨by simp [LogsIn, hact.1, hact.2.1], hact.2.2⟩
  · push Not at hacts
    obtain ⟨m, junk, hrq, hact⟩ := hacts
    have hr := eq_dispatch hrq h
    simp only [List.mem_cons, List.not_mem_nil, or_false] at hact
    rcases hact with h1 | h7 | h10
    · rw [dispatch_eq_case1 h1] at hr
      rcases case1_cases sql junk srv k.cfd m with ⟨hq, heq⟩ | ⟨hq, heq⟩
      · cases hr.trans heq
        refine .kept rfl fun m' junk' hm => ?_
        obtain ⟨rfl, rfl⟩ := Prod.mk.inj (Option.some.inj (hrq.symm.trans hm))
        exact ⟨by simp [LogsIn, hq, h1], by simp [h1]⟩
      · cases hr.trans heq
        exact .entered m junk hrq (.inl ⟨h1, hq⟩) rfl
    · rw [dispatch_eq_case7 h7, case7_eq] at hr
      cases hr
      exact .entered m junk hrq (.inr h7) rfl
    · rw [dispatch_eq_case10 h10] at hr
      cases hr
      exact .left m junk hrq h10 rfl

/-! ## One session for each name -/

/-- Behind a logout nobody is online under the name. -/
def Served.LoggedOut (i : Served) : Prop :=
  ∀ m, i.request = some m → m.action = 10 →
    findFd i.after m.name.str = -1 ∧ getOnline i.after m.name.str = none

structure OneSession (s : ServerState DB) : Prop where
  names : (s.srv.online.map Online.name).Nodup
  logouts : ∀ i ∈ s.history, i.LoggedOut

/-- The step enters a user who is in the list already. -/
def LogsInTwice (sql : Sqlite DB) (s : ServerState DB) (a : ServerAction) : Prop :=
  ∃ c inp k m junk, a = .serve c inp ∧ s.handlers[c]? = some k ∧
    requested k.pc inp = some (m, junk) ∧ LogsIn sql junk s.srv.db m ∧
    m.name.str ∈ s.srv.online.map Online.name

theorem name_notMem_unlink {online : List Online} (h : (online.map Online.name).Nodup)
    (name : Bytes) : name ∉ (unlink online name).map Online.name := by
  induction online with
  | nil => simp [unlink]
  | cons e online ih =>
    rw [List.map_cons, List.nodup_cons] at h
    simp only [unlink]
    split_ifs with he
    · exact he ▸ h.1
    · simpa [Ne.symm he] using ih h.2

theorem names_of_sessions {online online' : List Online}
    (h : online.map Online.session = online'.map Online.session) :
    online.map Online.name = online'.map Online.name := by
  have := congrArg (List.map Prod.snd) h
  simpa [Online.session, Function.comp_def] using this

theorem oneSession_step {s t : ServerState DB} {a : ServerAction} (hs : OneSession s)
    (hstep : serverStep sql s a = some t) : OneSession t ↔ ¬ LogsInTwice sql s a := by
  obtain ⟨rfl, rfl⟩ | ⟨c, inp, k, srv, pc, rfl, hk, hr, rfl⟩ := serverStep_cases hstep
  · refine iff_of_true ⟨hs.names, hs.logouts⟩ ?_
    rintro ⟨c, inp, k, m, junk, ha, -⟩
    cases ha
  · have htwice : LogsInTwice sql s (.serve c inp) ↔ ∃ m junk,
        requested k.pc inp = some (m, junk) ∧ LogsIn sql junk s.srv.db m ∧
        m.name.str ∈ s.srv.online.map Online.name := by
      constructor
      · rintro ⟨c', inp', k', m, junk, ha, hk', hreq, hlogin, hmem⟩
        cases ha
        obtain rfl := Option.some.inj (hk.symm.trans hk')
        exact ⟨m, junk, hreq, hlogin, hmem⟩
      · rintro ⟨m, junk, hreq, hlogin, hmem⟩
        exact ⟨c, inp, k, m, junk, rfl, hk, hreq, hlogin, hmem⟩
    have hlogouts (hlast : (served sql s.srv srv k inp).LoggedOut) :
        ∀ i ∈ s.history ++ [served sql s.srv srv k inp], i.LoggedOut :=
      List.forall_mem_append.mpr ⟨hs.logouts, List.forall_mem_singleton.mpr hlast⟩
    have hnoLogout {m : Msg} {junk : CharArray 20} (hreq : requested k.pc inp = some (m, junk))
        (h10 : m.action ≠ 10) : (served sql s.srv srv k inp).LoggedOut := by
      intro m' hm' hact
      simp only [served, hreq, Option.map_some, Option.some.injEq] at hm'
      exact absurd (hm' ▸ hact) h10
    rw [htwice]
    cases sessionStep hr with
    | kept hsess hreq =>
      refine iff_of_true ⟨names_of_sessions hsess ▸ hs.names, hlogouts fun m hm hact => ?_⟩ ?_
      · obtain ⟨⟨m', junk⟩, hrq, rfl⟩ := Option.map_eq_some_iff.mp hm
        exact absurd hact (hreq m' junk hrq).2
      · rintro ⟨m, junk, hrq, hlogin, -⟩
        exact (hreq m junk hrq).1 hlogin
    | entered m junk hrq hlogin hon =>
      have hnames : srv.online.map Online.name = m.name.str :: s.srv.online.map Online.name := by
        rw [hon]
        rfl
      have h10 : m.action ≠ 10 := by
        rcases hlogin with ⟨h, -⟩ | h <;> simp [h]
      constructor
      · rintro ht ⟨m', junk', hrq', -, hmem⟩
        obtain ⟨rfl, rfl⟩ := Prod.mk.inj (Option.some.inj (hrq.symm.trans hrq'))
        have hnodup := ht.names
        rw [hnames, List.nodup_cons] at hnodup
        exact hnodup.1 hmem
      · intro hn
        refine ⟨?_, hlogouts (hnoLogout hrq h10)⟩
        rw [hnames, List.nodup_cons]
        exact ⟨fun hmem => hn ⟨m, junk, hrq, hlogin, hmem⟩, hs.names⟩
    | left m junk hrq hact hon =>
      refine iff_of_true ⟨?_, hlogouts fun m' hm' hact' => ?_⟩ ?_
      · rw [hon]
        exact hs.names.sublist ((unlink_sublist s.srv.online m.name.str).map Online.name)
      · simp only [served, hrq, Option.map_some, Option.some.injEq] at hm'
        subst hm'
        have hnone : getOnline srv.online m.name.str = none := by
          rw [getOnline_eq_none_iff, hon]
          exact name_notMem_unlink hs.names m.name.str
        exact ⟨by simp [served, findFd_eq, hnone], hnone⟩
      · rintro ⟨m', junk', hrq', hlogin, -⟩
        obtain ⟨rfl, rfl⟩ := Prod.mk.inj (Option.some.inj (hrq.symm.trans hrq'))
        rcases hlogin with ⟨h, -⟩ | h <;> simp [hact] at h

/-- Names stay unique in the list, and a logout leaves nobody online under its name, exactly if
no login of the run is for a name that is in the list. -/
theorem oneSession_iff_no_second_login (sql : Sqlite DB) (db : DB) (as : List ServerAction)
    (t : ServerState DB)
    (h : (serverMachine sql).run (ServerState.start (Server.start db)) as = some t) :
    (serverMachine sql).EachState OneSession (ServerState.start (Server.start db)) as ↔
      (serverMachine sql).EachStep (fun s a => ¬ LogsInTwice sql s a)
        (ServerState.start (Server.start db)) as :=
  eachState_iff_eachStep (M := serverMachine sql) (I := fun _ => True) (fun _ _ _ _ _ => trivial)
    (fun _ _ _ _ hs hstep => oneSession_step hs hstep) trivial
    ⟨by simp [ServerState.start, Server.start], by simp [ServerState.start]⟩ h

/-- A login as `r` with the password `42`. -/
def loginR : Msg :=
  { Msg.zero with action := 1, name := .ofBytes 20 [114], password := .ofBytes 20 [52, 50] }

/-- The user logs in on two connections and logs out on one of them. -/
def twoLogins : List ServerAction :=
  [.accept, .accept, .serve 0 (.record loginR (.zero 20)), .serve 1 (.record loginR (.zero 20)),
    .serve 1 (.record { loginR with action := 10 } (.zero 20))]

/-- The list holds the name twice, and behind the logout it still finds the other session. -/
theorem twoLogins_stay_online :
    (∃ s, (serverMachine passwordFortyTwo).run (ServerState.start (Server.start ()))
        (twoLogins.take 4) = some s ∧ s.srv.online.map Online.name = [[114], [114]]) ∧
      ∃ t, (serverMachine passwordFortyTwo).run (ServerState.start (Server.start ())) twoLogins =
          some t ∧
        findFd t.srv.online loginR.name.str = 0 ∧
        ¬ (serverMachine passwordFortyTwo).EachState OneSession
          (ServerState.start (Server.start ())) twoLogins := by
  refine ⟨⟨_, rfl, by decide⟩, _, rfl, by decide, fun hall => ?_⟩
  have hlast := (hall.last rfl).logouts _ (List.mem_of_getLast? rfl) { loginR with action := 10 }
    rfl rfl
  exact absurd hlast.1 (by decide)

theorem twoLogins_enter_twice :
    ¬ (serverMachine passwordFortyTwo).EachStep (fun s a => ¬ LogsInTwice passwordFortyTwo s a)
      (ServerState.start (Server.start ())) twoLogins := by
  rw [← oneSession_iff_no_second_login passwordFortyTwo () twoLogins _ rfl]
  intro hall
  have hlast := (hall.last rfl).logouts _ (List.mem_of_getLast? rfl) { loginR with action := 10 }
    rfl rfl
  exact absurd hlast.1 (by decide)

/-! ## Entries of connections that have ended -/

/-- The descriptor is that of a connection whose `thread_read` still runs. -/
def ServerState.Serving (s : ServerState DB) (fd : ℤ) : Prop :=
  ∃ (c : ℕ) (k : Handler), s.handlers[c]? = some k ∧ k.cfd = fd ∧ k.pc ≠ .exited

def ServerState.Numbered (s : ServerState DB) : Prop :=
  ∀ (c : ℕ) (k : Handler), s.handlers[c]? = some k → k.cfd = c

def SessionsServed (s : ServerState DB) : Prop := ∀ e ∈ s.srv.online, s.Serving e.cfd

/-- Nobody who is served has this name. -/
def ServerState.Disconnected (s : ServerState DB) (name : Bytes) : Prop :=
  ∀ e ∈ s.srv.online, e.name = name → ¬ s.Serving e.cfd

/-- A step that handles a private message or a request for a file writes to connections that
are served, and when its user is not, it answers with -2 and writes nothing else. -/
def AnswersForUser (sql : Sqlite DB) (s : ServerState DB) (a : ServerAction) : Prop :=
  ∀ c inp k m junk t, a = .serve c inp → s.handlers[c]? = some k →
    requested k.pc inp = some (m, junk) → m.action = 2 ∨ m.action = 3 →
    serverStep sql s a = some t → ∃ ws, Appends s.srv t.srv ws ∧ (∀ w ∈ ws, s.Serving w.1) ∧
      (s.Disconnected m.toname.str → ws = [(k.cfd, .record { m with action := -2 })])

/-- The step ends a handler whose connection is still in the list. -/
def AbandonsSession (s : ServerState DB) (a : ServerAction) : Prop :=
  ∃ c inp k, a = .serve c inp ∧ s.handlers[c]? = some k ∧ EndsThread k.pc inp ∧
    ∃ e ∈ s.srv.online, e.cfd = k.cfd

theorem numbered_step {s t : ServerState DB} {a : ServerAction} (h : s.Numbered)
    (hstep : serverStep sql s a = some t) : t.Numbered := by
  obtain ⟨rfl, rfl⟩ | ⟨c, inp, k, srv, pc, rfl, hk, hr, rfl⟩ := serverStep_cases hstep
  · exact WaitQueues.forall_place_concat h rfl
  · exact WaitQueues.forall_place_set h (h c k hk)

theorem serving_set {s : ServerState DB} {srv : Server DB} {history : List Served} {c : ℕ}
    {k : Handler} {pc : Pc} (hnum : s.Numbered) (hk : s.handlers[c]? = some k) (fd : ℤ) :
    ServerState.Serving
        { srv := srv, handlers := s.handlers.set c { k with pc := pc }, history := history } fd ↔
      (fd = k.cfd ∧ pc ≠ .exited) ∨ (fd ≠ k.cfd ∧ s.Serving fd) := by
  have hlt := (List.getElem?_eq_some_iff.mp hk).1
  constructor
  · rintro ⟨c', k', hc, hcfd, hpc⟩
    rcases WaitQueues.getElem?_set_cases hc with ⟨rfl, rfl⟩ | ⟨hne, hc⟩
    · exact .inl ⟨hcfd.symm, hpc⟩
    · refine .inr ⟨fun he => hne ?_, c', k', hc, hcfd, hpc⟩
      have h₁ := hnum c k hk
      have h₂ := hnum c' k' hc
      omega
  · rintro (⟨rfl, hpc⟩ | ⟨hne, c', k', hc, hcfd, hpc⟩)
    · exact ⟨c, _, List.getElem?_set_self hlt, rfl, hpc⟩
    · refine ⟨c', k', ?_, hcfd, hpc⟩
      rw [List.getElem?_set_ne]
      · exact hc
      · rintro rfl
        rw [hk] at hc
        cases hc
        exact hne hcfd.symm

theorem sessionsServed_step {s t : ServerState DB} {a : ServerAction} (hnum : s.Numbered)
    (hs : SessionsServed s) (hstep : serverStep sql s a = some t) :
    SessionsServed t ↔ ¬ AbandonsSession s a := by
  obtain ⟨rfl, rfl⟩ | ⟨c, inp, k, srv, pc, rfl, hk, hr, rfl⟩ := serverStep_cases hstep
  · refine iff_of_true (fun e he => ?_) ?_
    · obtain ⟨c, k, hc, hcfd, hpc⟩ := hs e he
      refine ⟨c, k, ?_, hcfd, hpc⟩
      exact (List.getElem?_append_left (List.getElem?_eq_some_iff.mp hc).1).trans hc
    · rintro ⟨c, inp, k, ha, -⟩
      cases ha
  · have habandons : AbandonsSession s (.serve c inp) ↔
        pc = .exited ∧ ∃ e ∈ s.srv.online, e.cfd = k.cfd := by
      rw [show pc = .exited ↔ EndsThread k.pc inp from threadReadPc_exited_iff hr]
      constructor
      · rintro ⟨c', inp', k', ha, hk', h⟩
        cases ha
        obtain rfl := Option.some.inj (hk.symm.trans hk')
        exact h
      · intro h
        exact ⟨c, inp, k, rfl, hk, h⟩
    rw [habandons]
    -- an entry other than a new one was served before
    have hold (e : Online) (he : e.session ∈ s.srv.online.map Online.session) :
        (pc = .exited → e.cfd ≠ k.cfd) → ServerState.Serving
          { srv := srv, handlers := s.handlers.set c { k with pc := pc },
            history := s.history ++ [served sql s.srv srv k inp] } e.cfd := by
      intro hne
      obtain ⟨e', he', hsess⟩ := List.mem_map.mp he
      obtain ⟨hcfd, -⟩ := Prod.mk.inj hsess
      rw [serving_set hnum hk]
      by_cases hc : e.cfd = k.cfd
      · exact .inl ⟨hc, fun hpc => hne hpc hc⟩
      · exact .inr ⟨hc, hcfd ▸ hs e' he'⟩
    by_cases hpc : pc = .exited
    · have hkept : srv.online.map Online.session = s.srv.online.map Online.session := by
        refine sessions_kept (fun m junk hm => ?_) hr
        have := congrArg Prod.snd (eq_dispatch hm hr)
        exact absurd (this.symm.trans hpc) dispatch_ne_exited
      constructor
      · rintro ht ⟨-, e, he, hcfd⟩
        have hmem : e.session ∈ srv.online.map Online.session := by
          rw [hkept]
          exact List.mem_map_of_mem he
        obtain ⟨e', he', hsess⟩ := List.mem_map.mp hmem
        obtain ⟨hcfd', -⟩ := Prod.mk.inj hsess
        have hserving := ht e' he'
        rw [serving_set hnum hk] at hserving
        rcases hserving with ⟨-, h⟩ | ⟨h, -⟩
        · exact h hpc
        · exact h (hcfd'.trans hcfd)
      · intro hn e he
        have hmem : e.session ∈ s.srv.online.map Online.session := by
          rw [← hkept]
          exact List.mem_map_of_mem he
        refine hold e hmem fun _ hcfd => hn ⟨hpc, ?_⟩
        obtain ⟨e', he', hsess⟩ := List.mem_map.mp hmem
        exact ⟨e', he', (Prod.mk.inj hsess).1.trans hcfd⟩
    · refine iff_of_true (fun e he => ?_) (fun h => hpc h.1)
      cases sessionStep hr with
      | kept hsess => exact hold e (hsess ▸ List.mem_map_of_mem he) (fun h => absurd h hpc)
      | entered m junk hrq hlogin hon =>
        rcases List.mem_cons.mp (hon ▸ he : e ∈ (⟨k.cfd, 0, m.name.str⟩ :: s.srv.online)) with rfl | he
        · rw [serving_set hnum hk]
          exact .inl ⟨rfl, hpc⟩
        · exact hold e (List.mem_map_of_mem he) (fun h => absurd h hpc)
      | left m junk hrq hact hon =>
        have he : e ∈ unlink s.srv.online m.name.str := hon ▸ he
        exact hold e (List.mem_map_of_mem ((unlink_sublist _ _).subset he)) (fun h => absurd h hpc)

theorem getOnline_of_disconnected {s : ServerState DB} {name : Bytes} (hs : SessionsServed s)
    (h : s.Disconnected name) : getOnline s.srv.online name = none := by
  rw [getOnline_eq_none_iff]
  rintro hmem
  obtain ⟨e, he, hname⟩ := List.mem_map.mp hmem
  exact h e he hname (hs e he)

/-- Wherever `find_fd` leads, somebody is served there. -/
theorem serving_findFd {s : ServerState DB} {name : Bytes} (hs : SessionsServed s)
    (h : findFd s.srv.online name ≠ -1) : s.Serving (findFd s.srv.online name) := by
  rw [findFd_eq] at h ⊢
  cases hon : getOnline s.srv.online name with
  | none => simp [hon] at h
  | some e => exact hs e (getOnline_mem hon).1

theorem answersForUser_of_served {s : ServerState DB} (hs : SessionsServed s) (a : ServerAction) :
    AnswersForUser sql s a := by
  rintro c inp k m junk t rfl hk hreq hact hstep
  have hself : s.Serving k.cfd := by
    refine ⟨c, k, hk, rfl, ?_⟩
    rw [recv_of_requested hreq]
    simp
  obtain ⟨ha, -⟩ | ⟨c', inp', k', srv, pc, ha, hk', hr, rfl⟩ := serverStep_cases hstep
  · cases ha
  · cases ha
    obtain rfl := Option.some.inj (hk.symm.trans hk')
    have hdispatch := eq_dispatch hreq hr
    have hfd (hdis : s.Disconnected m.toname.str) : findFd s.srv.online m.toname.str = -1 := by
      rw [findFd_eq, getOnline_of_disconnected hs hdis]
      rfl
    have hone (fd : ℤ) (o : Out) (hfd : s.Serving fd) : ∀ w ∈ [(fd, o)], s.Serving w.1 := by
      intro w hw
      rwa [List.mem_singleton.mp hw]
    rcases hact with h2 | h3
    · have heq := hdispatch.trans (dispatch_eq_case2 h2)
      simp only [case2] at heq
      split_ifs at heq with hoff
      · cases heq
        exact ⟨_, rfl, hone _ _ hself, fun _ => rfl⟩
      · cases heq
        exact ⟨_, rfl, hone _ _ (serving_findFd hs hoff), fun hdis => absurd (hfd hdis) hoff⟩
    · have heq := hdispatch.trans (dispatch_eq_case3 h3)
      simp only [case3] at heq
      split_ifs at heq with hoff
      · cases heq
        exact ⟨_, rfl, hone _ _ hself, fun _ => rfl⟩
      · split at heq
        · cases heq
          exact ⟨[], by simp [Appends], by simp, fun hdis => absurd (hfd hdis) hoff⟩
        · cases heq
          exact ⟨_, rfl, hone _ _ hself, fun hdis => absurd (hfd hdis) hoff⟩

/-- The list names connections that are served, and requests for users who are gone are
answered with -2, exactly if every connection leaves the list before it ends. -/
theorem sessionsServed_iff_none_abandoned (sql : Sqlite DB) (db : DB) (as : List ServerAction)
    (t : ServerState DB)
    (h : (serverMachine sql).run (ServerState.start (Server.start db)) as = some t) :
    ((serverMachine sql).EachState SessionsServed (ServerState.start (Server.start db)) as ∧
        (serverMachine sql).EachStep (AnswersForUser sql) (ServerState.start (Server.start db)) as) ↔
      (serverMachine sql).EachStep (fun s a => ¬ AbandonsSession s a)
        (ServerState.start (Server.start db)) as := by
  have hiff := eachState_iff_eachStep (M := serverMachine sql) (I := ServerState.Numbered)
    (P := SessionsServed) (Q := fun s a => ¬ AbandonsSession s a) (t := t)
    (fun _ _ _ hs hstep => numbered_step hs hstep)
    (fun _ _ _ hnum hs hstep => sessionsServed_step hnum hs hstep)
    (s := ServerState.start (Server.start db)) (fun c k hc => by simp [ServerState.start] at hc)
    (fun e he => by simp [ServerState.start, Server.start] at he) h
  rw [← hiff]
  refine ⟨fun hall => hall.1, fun hall => ⟨hall, hall.eachStep.mono fun s a hs => ?_⟩⟩
  exact answersForUser_of_served hs.1 a

theorem not_sessionsServed_of_ended {s : ServerState DB} {e : Online} (he : e ∈ s.srv.online)
    (h : ∀ k ∈ s.handlers, k.cfd = e.cfd → k.pc = .exited) : ¬ SessionsServed s := by
  intro hs
  obtain ⟨c, k, hk, hcfd, hpc⟩ := hs e he
  exact hpc (h k (List.mem_of_getElem? hk) hcfd)

/-- `r` logs in, its client disconnects, and then somebody writes to `r`. -/
def messageToTheGone : List ServerAction :=
  [.accept, .serve 0 (.record loginR (.zero 20)), .serve 0 .closed, .accept,
    .serve 1 (.record { Msg.zero with action := 2, toname := .ofBytes 20 [114] } (.zero 20))]

theorem messageToTheGone_written :
    ∃ t, (serverMachine passwordFortyTwo).run (ServerState.start (Server.start ()))
        messageToTheGone = some t ∧
      t.srv.online = [⟨0, 0, [114]⟩] ∧ t.handlers.map Handler.pc = [.exited, .recv] ∧
      t.srv.written.map Prod.fst = [0, 0] ∧
      ¬ (serverMachine passwordFortyTwo).EachState SessionsServed
        (ServerState.start (Server.start ())) messageToTheGone := by
  refine ⟨_, rfl, by decide, rfl, by decide, fun hall => ?_⟩
  exact not_sessionsServed_of_ended (e := ⟨0, 0, [114]⟩) (by decide) (by decide) (hall.last rfl)

theorem messageToTheGone_abandons :
    ¬ (serverMachine passwordFortyTwo).EachStep (fun s a => ¬ AbandonsSession s a)
      (ServerState.start (Server.start ())) messageToTheGone := by
  rw [← sessionsServed_iff_none_abandoned passwordFortyTwo () messageToTheGone _ rfl]
  rintro ⟨hall, -⟩
  exact not_sessionsServed_of_ended (e := ⟨0, 0, [114]⟩) (by decide) (by decide) (hall.last rfl)

end LinuxCat.ServerModel
