import LinuxCat.HandlerEffects

/-! # Who gets into the online list

Action 1 stops behind a failed check; action 7 only changes `action` and goes on. The
history of a run shows the first gate kept by every handler, and the second broken by
exactly the manager logins that fail. -/
namespace LinuxCat.ServerModel
open LabelledMachines LabelledMachines.Machine ByteLayouts Messages

variable {DB : Type} {sql : Sqlite DB}

/-- The step was caused by a login whose check returned 1. -/
def Served.Verified (i : Served) : Prop := i.check = some 1

/-- The step is a manager login whose check returned 0. -/
def Served.failedManager (i : Served) : Bool :=
  i.check = some 0 ∧ i.request.any (fun m => m.action = 7)

/-- What the login gate asks of one step. -/
structure Served.Gated (i : Served) : Prop where
  entries : ¬ i.Verified → (i.after.map Online.session).Sublist (i.before.map Online.session)
  replies : ∀ fd m, (fd, Out.record m) ∈ i.writes → m.action = 1 → i.Verified
  refusal : i.check = some 0 → i.after = i.before ∧
    ∃ m, i.request = some m ∧ i.writes = [(i.cfd, Out.record { m with action := -1 })]

theorem queryEquals_zero_or_one (sql : Sqlite DB) (db : DB) (junk : CharArray 20) (query : Bytes)
    (wanted : CharArray 20) :
    (queryEquals sql db junk query wanted).2 = 0 ∨ (queryEquals sql db junk query wanted).2 = 1 := by
  simp only [queryEquals]
  split <;> simp

theorem querypassword_zero_or_one (sql : Sqlite DB) (db : DB) (junk : CharArray 20) (m : Msg) :
    (querypassword sql db junk m).2 = 0 ∨ (querypassword sql db junk m).2 = 1 :=
  queryEquals_zero_or_one sql db junk _ m.password

theorem queryManagerPassword_zero_or_one (sql : Sqlite DB) (db : DB) (junk : CharArray 20) (m : Msg) :
    (queryManagerPassword sql db junk m).2 = 0 ∨ (queryManagerPassword sql db junk m).2 = 1 :=
  queryEquals_zero_or_one sql db junk _ m.password

/-- What one step of a handler can be to the gate. -/
inductive Served.Kind (i : Served) : Prop
  | quiet (hcheck : i.check = none)
      (hon : (i.after.map Online.session).Sublist (i.before.map Online.session))
      (hws : ∀ fd m, (fd, Out.record m) ∈ i.writes → m.action ≠ 1)
  | verified (m : Msg) (hcheck : i.check = some 1) (hreq : i.request = some m)
      (hon : i.after = ⟨i.cfd, 0, m.name.str⟩ :: i.before)
  | refused (m : Msg) (hcheck : i.check = some 0) (hreq : i.request = some m)
      (hact : m.action = 1) (hon : i.after = i.before)
      (hws : i.writes = [(i.cfd, .record { m with action := -1 })])
  | letIn (m : Msg) (hcheck : i.check = some 0) (hreq : i.request = some m)
      (hact : m.action = 7) (hon : i.after = ⟨i.cfd, 0, m.name.str⟩ :: i.before)
      (hws : i.writes = [(i.cfd, .record { m with action := 1 })])

theorem quiet_kind {srv srv' : Server DB} {k : Handler} {inp : Input} (ws : List (ℤ × Out))
    (hcheck : (served sql srv srv' k inp).check = none)
    (hon : (srv'.online.map Online.session).Sublist (srv.online.map Online.session))
    (hws : Appends srv srv' ws) (hact : ∀ fd m, (fd, Out.record m) ∈ ws → m.action ≠ 1) :
    Appends srv srv' (served sql srv srv' k inp).writes ∧ (served sql srv srv' k inp).Kind := by
  have hdrop : (served sql srv srv' k inp).writes = ws := hws.drop
  rw [hdrop]
  refine ⟨hws, .quiet hcheck hon ?_⟩
  rw [hdrop]
  exact hact

/-- Action 1 either writes -1 and nothing else, or enters the user and echoes the request. -/
theorem case1_cases (sql : Sqlite DB) (junk : CharArray 20) (srv : Server DB) (cfd : ℤ) (m : Msg) :
    (querypassword sql srv.db junk m).2 = 0 ∧ case1 sql junk srv cfd m =
        ({ srv with db := (querypassword sql srv.db junk m).1 }.write cfd
          (.record { m with action := -1 }), .recv) ∨
      (querypassword sql srv.db junk m).2 = 1 ∧ case1 sql junk srv cfd m =
        ({ srv with
          db := (querypassword sql srv.db junk m).1
          online := insertLink srv.online ⟨cfd, 0, m.name.str⟩ }.write cfd (.record m), .recv) := by
  rcases querypassword_zero_or_one sql srv.db junk m with hq | hq
  · exact .inl ⟨hq, by simp only [case1, hq, if_true]⟩
  · exact .inr ⟨hq, by simp only [case1, hq, zero_ne_one, if_false]⟩

/-- Action 7 enters the user and answers with 1, whatever the check returned. -/
theorem case7_eq (sql : Sqlite DB) (junk : CharArray 20) (srv : Server DB) (cfd : ℤ) (m : Msg) :
    case7 sql junk srv cfd m =
      ({ srv with
        db := (queryManagerPassword sql srv.db junk m).1
        online := insertLink srv.online ⟨cfd, 0, m.name.str⟩ }.write cfd
          (.record { m with action := 1 }), .recv) := by
  simp only [case7]
  split_ifs <;> rfl

theorem login_kind {srv srv' : Server DB} {k : Handler} {inp : Input} {pc : Pc} {m : Msg}
    {junk : CharArray 20} (hreq : requested k.pc inp = some (m, junk))
    (hlogin : m.action = 1 ∨ m.action = 7) (hdispatch : (srv', pc) = dispatch sql junk srv k.cfd m) :
    Appends srv srv' (served sql srv srv' k inp).writes ∧ (served sql srv srv' k inp).Kind := by
  have hrequest : (served sql srv srv' k inp).request = some m := by simp [served, hreq]
  have hchecked : (served sql srv srv' k inp).check = credentialCheck sql junk srv.db m := by
    simp [served, hreq]
  have hwrites {m' : Msg} (hws : Appends srv srv' [(k.cfd, .record m')]) :
      (served sql srv srv' k inp).writes = [(k.cfd, .record m')] := hws.drop
  rcases hlogin with h1 | h7
  · simp only [credentialCheck, if_pos h1] at hchecked
    have hcase : (srv', pc) = case1 sql junk srv k.cfd m := by simpa [dispatch, h1] using hdispatch
    rcases case1_cases sql junk srv k.cfd m with ⟨hq, heq⟩ | ⟨hq, heq⟩
    · obtain ⟨rfl, rfl⟩ := Prod.mk.inj (hcase.trans heq)
      have hdrop := hwrites rfl
      exact ⟨by rw [hdrop]; rfl, .refused m (hchecked.trans (congrArg some hq)) hrequest h1 rfl hdrop⟩
    · obtain ⟨rfl, rfl⟩ := Prod.mk.inj (hcase.trans heq)
      have hdrop := hwrites rfl
      exact ⟨by rw [hdrop]; rfl, .verified m (hchecked.trans (congrArg some hq)) hrequest rfl⟩
  · simp only [credentialCheck, h7, if_true] at hchecked
    have hcase : (srv', pc) = case7 sql junk srv k.cfd m := by simpa [dispatch, h7] using hdispatch
    obtain ⟨rfl, rfl⟩ := Prod.mk.inj (hcase.trans (case7_eq sql junk srv k.cfd m))
    have hdrop := hwrites rfl
    refine ⟨by rw [hdrop]; rfl, ?_⟩
    rcases queryManagerPassword_zero_or_one sql srv.db junk m with hq | hq
    · exact .letIn m (hchecked.trans (congrArg some hq)) hrequest h7 rfl hdrop
    · exact .verified m (hchecked.trans (congrArg some hq)) hrequest rfl

theorem served_kind {srv srv' : Server DB} {k : Handler} {inp : Input} {pc : Pc}
    (h : threadReadPc sql srv k.cfd k.pc inp = some (srv', pc)) :
    Appends srv srv' (served sql srv srv' k inp).writes ∧ (served sql srv srv' k inp).Kind := by
  have hunchecked {m : Msg} {junk : CharArray 20} (hreq : requested k.pc inp = some (m, junk))
      (h1 : m.action ≠ 1) (h7 : m.action ≠ 7) : (served sql srv srv' k inp).check = none := by
    simp [served, hreq, credentialCheck, h1, h7]
  have hunasked (hreq : requested k.pc inp = none) : (served sql srv srv' k inp).check = none := by
    simp [served, hreq]
  cases handlerStep h with
  | plain hplain hpc hreq =>
    obtain ⟨ws, hws, hact⟩ := hplain.writes
    refine quiet_kind ws ?_ (hplain.sessions ▸ .refl _) hws fun fd m hm h1 => hact fd m hm (by simp [h1])
    cases hrq : requested k.pc inp with
    | none => exact hunasked hrq
    | some r =>
      have hne := (hreq r.1 r.2 hrq).1
      simp only [List.mem_cons, List.not_mem_nil, or_false, not_or] at hne
      exact hunchecked hrq hne.1 hne.2
  | login m junk hreq hact hr hfind hpc => exact login_kind hreq hact hr
  | logout m junk hreq hact hr =>
    cases hr
    exact quiet_kind [] (hunchecked hreq (by simp [hact]) (by simp [hact]))
      ((unlink_sublist srv.online m.name.str).map Online.session) (by simp [Appends]) (by simp)
  | reply m junk i hreq hact hon hi hr =>
    cases hr
    refine quiet_kind _ (hunchecked hreq (by simp [hact]) (by simp [hact])) (.refl _) rfl ?_
    simp [hact]
  | noId m junk hreq hact hr =>
    cases hr
    exact quiet_kind [] (hunchecked hreq (by simp [hact]) (by simp [hact])) (.refl _)
      (by simp [Appends]) (by simp)
  | header m junk hreq hact hon hr =>
    cases hr
    refine quiet_kind _ (hunchecked hreq (by simp [hact]) (by simp [hact])) (.refl _) rfl ?_
    simp [hact]
  | registration m junk hreq hact hr =>
    cases hr
    exact quiet_kind [] (hunchecked hreq (by simp [hact]) (by simp [hact])) (.refl _)
      (by simp [Appends]) (by simp)
  | notice m fd hpc hr =>
    cases hr
    refine quiet_kind _ (hunasked (by simp [hpc, requested])) (.refl _) rfl ?_
    simp
  | found m i slot hpc hslot huse hoff hr =>
    have hplain := Plain.of_sendFile hr
    obtain ⟨ws, hws, hact⟩ := hplain.writes
    exact quiet_kind ws (hunasked (by simp [hpc, requested])) (hplain.sessions ▸ .refl _) hws
      fun fd m hm h1 => hact fd m hm (by simp [h1])
  | passed m i hpc hr =>
    cases hr
    exact quiet_kind [] (hunasked (by simp [hpc, requested])) (.refl _) (by simp [Appends]) (by simp)
  | entered m i slot hpc hslot huse hr =>
    cases hr
    exact quiet_kind [] (hunasked (by simp [hpc, requested])) (.refl _) (by simp [Appends]) (by simp)
  | occupied m i hpc hr =>
    cases hr
    exact quiet_kind [] (hunasked (by simp [hpc, requested])) (.refl _) (by simp [Appends]) (by simp)

/-- A handler's step keeps the gate unless it is a manager login that failed. -/
theorem Served.Kind.gated_iff {i : Served} (h : i.Kind) : i.Gated ↔ i.failedManager = false := by
  cases h with
  | quiet hcheck hon hws =>
    simp only [Served.failedManager, hcheck, reduceCtorEq, false_and, decide_false, iff_true]
    exact ⟨fun _ => hon, fun fd m hm hact => absurd hact (hws fd m hm),
      fun h0 => by simp [hcheck] at h0⟩
  | verified m hcheck hreq hon =>
    simp only [Served.failedManager, hcheck, Option.some.injEq, one_ne_zero, false_and,
      decide_false, iff_true]
    exact ⟨fun hv => absurd hcheck hv, fun _ _ _ _ => hcheck, fun h0 => by simp [hcheck] at h0⟩
  | refused m hcheck hreq hact hon hws =>
    refine iff_of_true ⟨fun _ => by rw [hon], fun fd m' hm hact' => ?_,
      fun _ => ⟨hon, m, hreq, hws⟩⟩ (by simp [Served.failedManager, hreq, hact])
    simp only [hws, List.mem_singleton, Prod.mk.injEq, Out.record.injEq] at hm
    simp [hm.2] at hact'
  | letIn m hcheck hreq hact hon hws =>
    refine iff_of_false (fun hg => ?_) (by simp [Served.failedManager, hcheck, hreq, hact])
    obtain ⟨-, m', -, hws'⟩ := hg.refusal hcheck
    simp [hws] at hws'

/-! ## Runs -/

/-- Entries, replies and refusals of the run so far are those of verified logins. -/
structure VerifiedRun (t : ServerState DB) : Prop where
  sessions : ∀ e ∈ t.srv.online, ∃ i ∈ t.history, i.Verified ∧ i.cfd = e.cfd ∧
    i.request.map (fun m => m.name.str) = some e.name
  replies : ∀ fd m, (fd, Out.record m) ∈ t.srv.written → m.action = 1 →
    ∃ i ∈ t.history, i.Verified ∧ (fd, Out.record m) ∈ i.writes
  gated : ∀ i ∈ t.history, i.Gated

/-- The step handles a manager login, and `query_manager_password` returns 0 for it. -/
def FailedManagerLogin (sql : Sqlite DB) (s : ServerState DB) (a : ServerAction) : Prop :=
  ∃ c inp k m junk, a = .serve c inp ∧ s.handlers[c]? = some k ∧
    requested k.pc inp = some (m, junk) ∧ m.action = 7 ∧
    (queryManagerPassword sql s.srv.db junk m).2 = 0

theorem failedManager_served_iff {s : ServerState DB} (srv' : Server DB) {c : ℕ} {inp : Input}
    {k : Handler} (hk : s.handlers[c]? = some k) :
    (served sql s.srv srv' k inp).failedManager = true ↔
      FailedManagerLogin sql s (.serve c inp) := by
  constructor
  · intro h
    simp only [Served.failedManager, served, Option.any_map, Option.bind_eq_some_iff,
      decide_eq_true_eq] at h
    obtain ⟨⟨⟨m, junk⟩, hreq, hcheck⟩, hact⟩ := h
    simp only [hreq, Option.any_some, decide_eq_true_eq] at hact
    refine ⟨c, inp, k, m, junk, rfl, hk, hreq, hact, ?_⟩
    simpa [credentialCheck, hact] using hcheck
  · rintro ⟨c', inp', k', m, junk, ha, hk', hreq, hact, hq⟩
    cases ha
    obtain rfl := Option.some.inj (hk.symm.trans hk')
    simp [Served.failedManager, served, hreq, hact, credentialCheck, hq]

theorem verifiedRun_step {s t : ServerState DB} {a : ServerAction} (hs : VerifiedRun s)
    (hstep : serverStep sql s a = some t) : VerifiedRun t ↔ ¬ FailedManagerLogin sql s a := by
  obtain ⟨rfl, rfl⟩ | ⟨c, inp, k, srv, pc, rfl, hk, hr, rfl⟩ := serverStep_cases hstep
  · refine iff_of_true ⟨hs.sessions, hs.replies, hs.gated⟩ ?_
    rintro ⟨c, inp, k, m, junk, ha, -⟩
    cases ha
  · obtain ⟨hws, hkind⟩ := served_kind hr
    rw [← failedManager_served_iff srv hk, Bool.not_eq_true, ← hkind.gated_iff]
    refine ⟨fun ht => ht.gated _ (by simp), fun hg => ?_⟩
    constructor
    · intro e he
      by_cases hv : (served sql s.srv srv k inp).Verified
      · cases hkind with
        | verified m hcheck hreq hon =>
          have he : e ∈ (⟨k.cfd, 0, m.name.str⟩ :: s.srv.online : List Online) := hon ▸ he
          rcases List.mem_cons.mp he with rfl | he
          · exact ⟨_, by simp, hv, rfl, by rw [hreq]; rfl⟩
          · obtain ⟨i, hi, h⟩ := hs.sessions e he
            exact ⟨i, by simp [hi], h⟩
        | quiet hcheck => simp [Served.Verified, hcheck] at hv
        | refused m hcheck => simp [Served.Verified, hcheck] at hv
        | letIn m hcheck => simp [Served.Verified, hcheck] at hv
      · have hold : e.session ∈ s.srv.online.map Online.session :=
          (hg.entries hv).subset (List.mem_map_of_mem he)
        obtain ⟨e', he', hsess⟩ := List.mem_map.mp hold
        obtain ⟨i, hi, hver, hcfd, hname⟩ := hs.sessions e' he'
        simp only [Online.session, Prod.mk.injEq] at hsess
        exact ⟨i, by simp [hi], hver, hcfd.trans hsess.1, hname.trans (congrArg some hsess.2)⟩
    · intro fd m hm hact
      have hm : (fd, Out.record m) ∈ s.srv.written ++ (served sql s.srv srv k inp).writes :=
        hws ▸ hm
      rcases List.mem_append.mp hm with hm | hm
      · obtain ⟨i, hi, h⟩ := hs.replies fd m hm hact
        exact ⟨i, by simp [hi], h⟩
      · exact ⟨_, by simp, hg.replies fd m hm hact, hm⟩
    · intro i hi
      rcases List.mem_append.mp hi with hi | hi
      · exact hs.gated i hi
      · rwa [List.mem_singleton.mp hi]

theorem verifiedRun_start (db : DB) : VerifiedRun (ServerState.start (Server.start db)) :=
  ⟨by simp [ServerState.start, Server.start], by simp [ServerState.start, Server.start],
    by simp [ServerState.start]⟩

/-- Only verified logins get a session or a reply with action 1, and every refused login is
answered with -1, exactly if no manager login of the run fails its check. -/
theorem sessions_verified_iff (sql : Sqlite DB) (db : DB) (as : List ServerAction)
    (t : ServerState DB)
    (h : (serverMachine sql).run (ServerState.start (Server.start db)) as = some t) :
    (serverMachine sql).EachState VerifiedRun (ServerState.start (Server.start db)) as ↔
      (serverMachine sql).EachStep (fun s a => ¬ FailedManagerLogin sql s a)
        (ServerState.start (Server.start db)) as :=
  eachState_iff_eachStep (M := serverMachine sql) (I := fun _ => True) (fun _ _ _ _ _ => trivial)
    (fun _ _ _ _ hs hstep => verifiedRun_step hs hstep) trivial (verifiedRun_start db) h

/-- Without a verified login nobody is in the list. -/
theorem not_verifiedRun_of_checks {t : ServerState DB} {e : Online} (he : e ∈ t.srv.online)
    (h : ∀ i ∈ t.history, i.check ≠ some 1) : ¬ VerifiedRun t := by
  intro hv
  obtain ⟨i, hi, hver, -⟩ := hv.sessions e he
  exact h i hi hver

/-- A database whose every answer is the password `42`. -/
def passwordFortyTwo : Sqlite Unit := ⟨fun _ _ => ((), [[[52, 50]]])⟩

/-- A manager login with the password `41`. -/
def guessedLogin : Msg :=
  { Msg.zero with action := 7, name := .ofBytes 20 [114], password := .ofBytes 20 [52, 49] }

/-- The guess makes its connection a session and is answered with action 1. -/
theorem guessedLogin_enters :
    ∃ t, (serverMachine passwordFortyTwo).run (ServerState.start (Server.start ()))
        [.accept, .serve 0 (.record guessedLogin (.zero 20))] = some t ∧
      t.srv.online = [⟨0, 0, [114]⟩] ∧ t.history.map Served.check = [some 0] ∧
      ¬ VerifiedRun t := by
  refine ⟨_, rfl, rfl, rfl, not_verifiedRun_of_checks (List.mem_singleton_self _) fun i hi => ?_⟩
  rw [List.mem_singleton.mp hi]
  decide

theorem guessedLogin_fails :
    ¬ (serverMachine passwordFortyTwo).EachStep
      (fun s a => ¬ FailedManagerLogin passwordFortyTwo s a) (ServerState.start (Server.start ()))
      [.accept, .serve 0 (.record guessedLogin (.zero 20))] := by
  have hrun : (serverMachine passwordFortyTwo).run (ServerState.start (Server.start ()))
      [.accept, .serve 0 (.record guessedLogin (.zero 20))] = some _ := rfl
  rw [← sessions_verified_iff passwordFortyTwo () _ _ hrun]
  intro hall
  refine not_verifiedRun_of_checks (List.mem_singleton_self _) (fun i hi => ?_) (hall.last hrun)
  rw [List.mem_singleton.mp hi]
  decide

end LinuxCat.ServerModel
