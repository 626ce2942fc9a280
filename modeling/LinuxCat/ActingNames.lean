import LinuxCat.SayFlags

/-! # In whose name the server acts

A session is known by its descriptor, and a request carries whatever name its client put there.
No handler compares the two: what is relayed, sent or changed is what was asked for, by whom ever. -/
namespace LinuxCat.ServerModel
open LabelledMachines LabelledMachines.Machine ByteLayouts Messages

variable {DB : Type} {sql : Sqlite DB}

/-- No flag of the list changes: entries stay, leave, or come in unmuted. -/
def FlagsKept (before after : List Online) : Prop :=
  after.Sublist before ∨ ∃ e : Online, e.say = 0 ∧ after = e :: before

/-- What a step does is what its request asks for. -/
structure Served.AsAsked (i : Served) : Prop where
  /-- a message is the request itself -/
  relayed : ∀ fd m, (fd, Out.record m) ∈ i.writes → m.action = 2 ∨ m.action = 4 → i.request = some m
  /-- a piece of a history goes to the connection that asked, for the name that it gave -/
  history : ∀ fd m, (fd, Out.record m) ∈ i.writes → m.action = 9 →
    fd = i.cfd ∧ ∃ r, i.request = some r ∧ r.action = 9 ∧ m.name = r.name
  /-- a flag changes as the request says, and that of no other entry -/
  flags : FlagsKept i.before i.after ∨ ∃ r, i.request = some r ∧
    (r.action = 8 ∧ i.after = setSay i.before r.toname.str 1 ∨
      r.action = -8 ∧ i.after = setSay i.before r.name.str 0)

/-- What the request `m` on connection `cfd` asks for, of a record written to `fd`. -/
def Asked (cfd : ℤ) (m : Msg) (fd : ℤ) (m' : Msg) : Prop :=
  (m'.action = 2 ∨ m'.action = 4 → m' = m) ∧
    (m'.action = 9 → fd = cfd ∧ m.action = 9 ∧ m'.name = m.name)

theorem asked_self {cfd fd : ℤ} {m : Msg} (h : m.action ≠ 9) : Asked cfd m fd m :=
  ⟨fun _ => rfl, fun h9 => absurd h9 h⟩

theorem asked_of_action {cfd fd : ℤ} {m m' : Msg} (h : m'.action ∉ [2, 4, 9]) :
    Asked cfd m fd m' := by
  simp only [List.mem_cons, List.not_mem_nil, or_false, not_or] at h
  refine ⟨fun hact => ?_, fun hact => absurd hact h.2.2⟩
  rcases hact with hact | hact
  · exact absurd hact h.1
  · exact absurd hact h.2.1

theorem dispatch_writes_asked (sql : Sqlite DB) (junk : CharArray 20) (srv : Server DB) (cfd : ℤ)
    (m : Msg) : ∃ ws, Appends srv (dispatch sql junk srv cfd m).1 ws ∧
      ∀ fd m', (fd, Out.record m') ∈ ws → Asked cfd m fd m' := by
  have hone {fd : ℤ} {m' : Msg} (hm' : Asked cfd m fd m') :
      ∀ fd' m'', (fd', Out.record m'') ∈ [(fd, Out.record m')] → Asked cfd m fd' m'' := by
    intro fd' m'' hm
    simp only [List.mem_singleton, Prod.mk.injEq, Out.record.injEq] at hm
    obtain ⟨rfl, rfl⟩ := hm
    exact hm'
  by_cases h2 : m.action = 2
  · rw [dispatch_eq_case2 h2]
    simp only [case2]
    split_ifs
    · exact ⟨_, rfl, hone (asked_of_action (by simp))⟩
    · exact ⟨_, rfl, hone (asked_self (by omega))⟩
  by_cases h4 : m.action = 4
  · rw [dispatch_eq_case4 h4]
    simp only [case4]
    split
    · exact ⟨[], by simp [Appends], by simp⟩
    · split_ifs
      · refine ⟨_, rfl, fun fd m' hm => ?_⟩
        simp only [List.mem_map, Prod.mk.injEq, Out.record.injEq] at hm
        obtain ⟨e, -, -, rfl⟩ := hm
        exact asked_self (by omega)
      · exact ⟨_, rfl, hone (asked_of_action (by simp))⟩
      · exact ⟨[], by simp [Appends], by simp⟩
  by_cases h9 : m.action = 9
  · rw [dispatch_eq_case9 h9]
    refine ⟨_, rfl, fun fd m' hm => ?_⟩
    simp only [List.mem_mapIdx, Prod.mk.injEq, Out.record.injEq] at hm
    obtain ⟨i, hi, rfl, rfl⟩ := hm
    exact ⟨fun hact => by simp only at hact; omega, fun _ => ⟨rfl, h9, rfl⟩⟩
  · obtain ⟨ws, hws, hact⟩ : Writes _ srv (dispatch sql junk srv cfd m) := Writes.dispatch
    refine ⟨ws, hws, fun fd m' hm => asked_of_action ?_⟩
    have := hact fd m' hm
    simp only [List.mem_cons, List.not_mem_nil, or_false, not_or] at this ⊢
    omega

theorem served_asAsked {srv srv' : Server DB} {k : Handler} {inp : Input} {pc : Pc}
    (h : threadReadPc sql srv k.cfd k.pc inp = some (srv', pc)) :
    (served sql srv srv' k inp).AsAsked := by
  have hmem {ws : List (ℤ × Out)} (hws : Appends srv srv' ws) {fd : ℤ} {m : Msg}
      (hm : (fd, Out.record m) ∈ (served sql srv srv' k inp).writes) : (fd, Out.record m) ∈ ws := by
    have hdrop : (served sql srv srv' k inp).writes = ws := hws.drop
    exact hdrop ▸ hm
  cases hreq : requested k.pc inp with
  | none =>
    obtain ⟨ws, hws, hact⟩ := Writes.of_unrequested h hreq
    have hon : srv'.online = srv.online := unrequested_online h hreq
    refine ⟨fun fd m hm h24 => ?_, fun fd m hm h9 => ?_, .inl (.inl ?_)⟩
    · have := hact fd m (hmem hws hm)
      omega
    · have := hact fd m (hmem hws hm)
      omega
    · simp [served, hon]
  | some q =>
    obtain ⟨m, junk⟩ := q
    obtain rfl : srv' = (dispatch sql junk srv k.cfd m).1 :=
      congrArg Prod.fst (eq_dispatch hreq h)
    have hrequest : (served sql srv (dispatch sql junk srv k.cfd m).1 k inp).request = some m := by
      simp [served, hreq]
    obtain ⟨ws, hws, hasked⟩ := dispatch_writes_asked sql junk srv k.cfd m
    refine ⟨fun fd m' hm h24 => ?_, fun fd m' hm h9 => ?_, ?_⟩
    · rw [(hasked fd m' (hmem hws hm)).1 h24]
      exact hrequest
    · obtain ⟨hfd, hact, hname⟩ := (hasked fd m' (hmem hws hm)).2 h9
      exact ⟨hfd, m, hrequest, hact, hname⟩
    · cases dispatch_listEffect sql junk srv k.cfd m with
      | same _ _ hon => exact .inl (.inl (by simp [served, hon]))
      | entered _ hon => exact .inl (.inr ⟨_, rfl, hon⟩)
      | left _ hon =>
        exact .inl (.inl (by simpa [served, hon] using unlink_sublist srv.online m.name.str))
      | muted hact hon => exact .inr ⟨m, hrequest, .inl ⟨hact, hon⟩⟩
      | unmuted hact hon => exact .inr ⟨m, hrequest, .inr ⟨hact, hon⟩⟩

/-! ## Sessions and managers -/

/-- The connection has a verified login under the name in its past, and no logout since. -/
def LoggedInAs (history : List Served) (cfd : ℤ) (name : Bytes) : Prop :=
  ∃ pre i post, history = pre ++ i :: post ∧ i.Verified ∧ i.cfd = cfd ∧
    i.request.map (fun m => m.name.str) = some name ∧
    ∀ j ∈ post, j.cfd = cfd → ∀ m, j.request = some m → m.action = 10 → m.name.str ≠ name

/-- The connection has a verified manager login in its past. -/
def IsManager (history : List Served) (cfd : ℤ) : Prop :=
  ∃ i ∈ history, i.Verified ∧ i.cfd = cfd ∧ ∃ m, i.request = some m ∧ m.action = 7

/-- Behind this history, the step acts for the session it belongs to. -/
structure Served.Bound (past : List Served) (i : Served) : Prop where
  relayed : ∀ fd m, (fd, Out.record m) ∈ i.writes → m.action = 2 ∨ m.action = 4 →
    LoggedInAs past i.cfd m.name.str
  history : ∀ fd m, (fd, Out.record m) ∈ i.writes → m.action = 9 → LoggedInAs past fd m.name.str
  flags : ¬ FlagsKept i.before i.after →
    (∃ m, i.request = some m ∧ (m.action = 8 ∨ m.action = -8)) ∧ IsManager past i.cfd

/-- The request of the step carries a name of its own connection, or is that of a manager. -/
structure Served.Honest (past : List Served) (i : Served) : Prop where
  name : ∀ m, i.request = some m → m.action ∈ [2, 4, 9] → LoggedInAs past i.cfd m.name.str
  manager : ∀ m, i.request = some m → m.action ∈ [8, -8] → IsManager past i.cfd

/-- A step that does what is asked binds its effects as far as its request does. -/
theorem Served.AsAsked.bound {past : List Served} {i : Served} (h : i.AsAsked)
    (hhonest : i.Honest past) : i.Bound past := by
  constructor
  · intro fd m hm hact
    exact hhonest.name m (h.relayed fd m hm hact) (by simp; omega)
  · intro fd m hm hact
    obtain ⟨rfl, r, hr, hract, hname⟩ := h.history fd m hm hact
    rw [hname]
    exact hhonest.name r hr (by simp [hract])
  · intro hchanged
    rcases h.flags with hkept | ⟨r, hr, ⟨hact, -⟩ | ⟨hact, -⟩⟩
    · exact absurd hkept hchanged
    · exact ⟨⟨r, hr, .inl hact⟩, hhonest.manager r hr (by simp [hact])⟩
    · exact ⟨⟨r, hr, .inr hact⟩, hhonest.manager r hr (by simp [hact])⟩

theorem asAsked_step {s t : ServerState DB} {a : ServerAction} (hs : ∀ i ∈ s.history, i.AsAsked)
    (hstep : serverStep sql s a = some t) : ∀ i ∈ t.history, i.AsAsked := by
  obtain ⟨rfl, rfl⟩ | ⟨c, inp, k, srv, pc, rfl, hk, hr, rfl⟩ := serverStep_cases hstep
  · exact hs
  · exact WaitQueues.forall_mem_concat hs (served_asAsked hr)

/-- In every run, what a step relays, sends or changes is what its request asks for, whoever sent
it; so it is bound to the session of its connection wherever the request is honest. -/
theorem steps_as_asked (sql : Sqlite DB) (db : DB) (as : List ServerAction) (t : ServerState DB)
    (h : (serverMachine sql).run (ServerState.start (Server.start db)) as = some t) :
    (∀ i ∈ t.history, i.AsAsked) ∧
      ∀ past i rest, t.history = past ++ i :: rest → i.Honest past → i.Bound past := by
  have hasked : ∀ i ∈ t.history, i.AsAsked :=
    run_invariant (I := fun s => ∀ i ∈ s.history, i.AsAsked)
      (fun _ _ _ hs hstep => asAsked_step hs hstep) (by simp [ServerState.start]) h
  refine ⟨hasked, fun past i rest hsplit hhonest => ?_⟩
  exact (hasked i (by simp [hsplit])).bound hhonest

/-- A connection without a verified login has no session, and is no manager's. -/
theorem not_loggedInAs {history : List Served} (cfd : ℤ)
    (h : ∀ i ∈ history, i.cfd = cfd → i.check ≠ some 1) (name : Bytes) :
    ¬ LoggedInAs history cfd name := by
  rintro ⟨pre, i, post, hsplit, hver, hcfd, -⟩
  exact h i (by simp [hsplit]) hcfd hver

theorem not_isManager {history : List Served} (cfd : ℤ)
    (h : ∀ i ∈ history, i.cfd = cfd → i.check ≠ some 1) : ¬ IsManager history cfd := by
  rintro ⟨i, hi, hver, hcfd, -⟩
  exact h i hi hcfd hver

theorem not_flagsKept {before after : List Online} (hlen : after.length = before.length)
    (hne : after ≠ before) : ¬ FlagsKept before after := by
  rintro (hsub | ⟨e, -, rfl⟩)
  · exact hne (hsub.eq_of_length hlen)
  · simp at hlen

/-- The user `42` with the password `42`, to whom `b` has written `s`. -/
def sqlite42 : Sqlite Unit := ⟨fun _ _ => ((), [[[52, 50], [98], [115], [49]]])⟩

/-- A record with this action under the name `42`, and for it. -/
def as42 (action : ℤ) : Msg :=
  { Msg.zero with
    action := action
    name := .ofBytes 20 [52, 50]
    password := .ofBytes 20 [52, 50]
    toname := .ofBytes 20 [52, 50] }

/-- `42` logs in on connection 0. Connection 1, on which nobody has, writes to `42` under that
name, reads the history of `42`, and mutes `42`. -/
def stranger : List ServerAction :=
  [.accept, .accept, .serve 0 (.record (as42 1) (.zero 20)),
    .serve 1 (.record (as42 2) (.zero 20)), .serve 1 (.record (as42 9) (.zero 20)),
    .serve 1 (.record (as42 8) (.zero 20))]

/-- None of the three steps of the stranger is bound to a session. -/
theorem stranger_unbound :
    ∃ t i₀ i₁ i₂ i₃, (serverMachine sqlite42).run (ServerState.start (Server.start ())) stranger =
        some t ∧ t.history = [i₀, i₁, i₂, i₃] ∧ t.srv.online = [⟨0, 1, [52, 50]⟩] ∧
      ¬ i₁.Bound [i₀] ∧ ¬ i₂.Bound [i₀, i₁] ∧ ¬ i₃.Bound [i₀, i₁, i₂] := by
  refine ⟨_, _, _, _, _, rfl, rfl, by decide +kernel, fun h => ?_, fun h => ?_, fun h => ?_⟩
  · have hlogged := h.relayed 0 (as42 2) (by decide +kernel) (.inl rfl)
    exact not_loggedInAs 1 (by decide +kernel) _ hlogged
  · have hlogged := h.history 1 { as42 9 with message := .ofBytes 1024 (text "s:我，时间:1\n") }
      (by decide +kernel) rfl
    exact not_loggedInAs 1 (by decide +kernel) _ hlogged
  · have hmanager := (h.flags (not_flagsKept (by decide +kernel) (by decide +kernel))).2
    exact not_isManager 1 (by decide +kernel) hmanager

/-- The same message on the connection of `42`. -/
def ownMessage : List ServerAction :=
  [.accept, .serve 0 (.record (as42 1) (.zero 20)), .serve 0 (.record (as42 2) (.zero 20))]

theorem ownMessage_bound :
    ∃ t i₀ i₁, (serverMachine sqlite42).run (ServerState.start (Server.start ())) ownMessage =
        some t ∧ t.history = [i₀, i₁] ∧ i₁.writes = [(0, .record (as42 2))] ∧ i₁.Bound [i₀] := by
  have hrun : (serverMachine sqlite42).run (ServerState.start (Server.start ())) ownMessage =
      some _ := rfl
  refine ⟨_, _, _, hrun, rfl, by decide +kernel,
    (steps_as_asked sqlite42 () ownMessage _ hrun).2 [_] _ [] rfl ⟨fun m hm _ => ?_, fun m hm hact => ?_⟩⟩
  · cases hm
    exact ⟨[], _, [], rfl, by unfold Served.Verified; decide +kernel, rfl, by decide +kernel, by simp⟩
  · cases hm
    simp [as42] at hact

end LinuxCat.ServerModel
