import LinuxCat.ClientModel
import LinuxCat.Histories
import LinuxCat.ServerFraming

/-! # The protocol of the client

A client registers and logs in as often as it likes; behind a login it asks for the users, then it
opens conversations and writes to them, and it logs out. Everything in between carries the name and
the password of the login, whatever else was typed and however long it was. -/
namespace LinuxCat.ClientModel
open LabelledMachines LabelledMachines.Machine ByteLayouts Messages FileBlocks Histories
open ServerModel (text Record oneLogin)

/-! ## One user from a login to the next -/

/-- What the client meets next: `main` goes on, `thread_read` gets a record, or the connection
ends. -/
inductive ClientAction
  | main (file : Option Bytes)
  | read (r : Round) (m : Record)
  | serverExit
  /-- the process ends: by a `write` that fails, by the `exit` of a thread, or by a signal -/
  | kill

def clientStep (c : Client) : ClientAction → Option Client
  | .main file => mainStep c file
  | .read r m => if c.running ∧ c.reading then some (threadRead c r m.1) else none
  | .serverExit => if c.running ∧ c.reading then some (serverExit c) else none
  | .kill => if c.running then some (c.goto .exited) else none

theorem clientStep_read {c t : Client} {r : Round} {m : Record}
    (h : clientStep c (.read r m) = some t) : ReadStep c r m.1 t := by
  simp only [clientStep] at h
  split_ifs at h
  exact Option.some.inj h ▸ threadRead_cases c r m.1

theorem clientStep_serverExit {c t : Client} (h : clientStep c .serverExit = some t) :
    t = serverExit c := by
  simp only [clientStep] at h
  split_ifs at h
  exact (Option.some.inj h).symm

theorem clientStep_kill {c t : Client} (h : clientStep c .kill = some t) : t = c.goto .exited := by
  simp only [clientStep] at h
  split_ifs at h
  exact (Option.some.inj h).symm

/-- The client with whatever server. -/
def clientMachine : Machine Client ClientAction where
  step := clientStep

/-- The last registration or login of the records is a login with the name and the password of
`m`. -/
def LastLogin (written : List Msg) (m : Msg) : Prop :=
  ∃ before login between, written = before ++ login :: between ∧ login.action = 1 ∧
    (∀ x ∈ between, x.action ∉ [0, 1]) ∧ login.name = m.name ∧ login.password = m.password

/-- Every record is a registration, a login, or a request of the user who has logged in last. -/
def OneUser (written : List Msg) : Prop :=
  EachGiven (fun before m =>
    m.action ∈ [0, 1] ∨ m.action ∈ [2, 3, 4, 6, 9, 10] ∧ LastLogin before m) written

theorem LastLogin.congr {written : List Msg} {m m' : Msg} (h : LastLogin written m)
    (hname : m'.name = m.name) (hpassword : m'.password = m.password) : LastLogin written m' := by
  obtain ⟨before, login, between, hw, hact, hbetween, hn, hp⟩ := h
  exact ⟨before, login, between, hw, hact, hbetween, hn.trans hname.symm, hp.trans hpassword.symm⟩

theorem LastLogin.concat {written : List Msg} {m x : Msg} (h : LastLogin written m)
    (hx : x.action ∉ [0, 1]) : LastLogin (written ++ [x]) m := by
  obtain ⟨before, login, between, rfl, hact, hbetween, hn, hp⟩ := h
  refine ⟨before, login, between ++ [x], by simp, hact, ?_, hn, hp⟩
  exact List.forall_mem_append.mpr ⟨hbetween, List.forall_mem_singleton.mpr hx⟩

theorem lastLogin_concat {m : Msg} (written : List Msg) (h : m.action = 1) :
    LastLogin (written ++ [m]) m :=
  ⟨written, m, [], rfl, h, fun _ hx => absurd hx List.not_mem_nil, rfl, rfl⟩

/-- What is kept of `pmsg` and of what was written. -/
structure Bound (c : Client) : Prop where
  reg : c.pc = .regName ∨ c.pc = .regPassword → c.pmsg.action = 0
  log : c.pc = .logName ∨ c.pc = .logPassword → c.pmsg.action = 1
  user : c.pc.loggingIn ∨ c.pc.atHome → LastLogin c.written c.pmsg
  written : OneUser c.written

/-- The fields before that of a `scanf` stay. -/
theorem Scans.get {f : Field} {m m' : Msg} (h : Scans f m m') {g : Field}
    (hg : g.offset + g.width ≤ f.offset) : m'.get g = m.get g := by
  rcases h with rfl | ⟨word, h⟩
  · rfl
  · exact Msg.get_scanned h hg

theorem Scans.action {f : Field} {m m' : Msg} (h : Scans f m m') (hm : IsInt m.action) :
    m'.action = m.action := by
  rcases h with rfl | ⟨word, h⟩
  · rfl
  · exact Msg.action_scanned hm h

/-- What is scanned behind the password leaves the user alone. -/
theorem LastLogin.scans {written : List Msg} {f : Field} {m m' : Msg} (h : LastLogin written m)
    (hscan : Scans f m m') (hf : 72 ≤ f.offset) : LastLogin written m' :=
  h.congr (hscan.get (g := .name) ((by decide : 52 ≤ 72).trans hf)) (hscan.get (g := .password) hf)

theorem bound_of_user {c : Client} (hpc : c.pc.loggingIn ∨ c.pc.atHome)
    (huser : LastLogin c.written c.pmsg) (hwritten : OneUser c.written) : Bound c := by
  refine ⟨fun h => ?_, fun h => ?_, fun _ => huser, hwritten⟩ <;>
    · rcases h with h | h <;> simp [h, Pc.loggingIn, Pc.atHome] at hpc

theorem bound_of_idle {c : Client} (hreg : c.pc ≠ .regName ∧ c.pc ≠ .regPassword)
    (hlog : c.pc ≠ .logName ∧ c.pc ≠ .logPassword) (hpc : ¬ (c.pc.loggingIn ∨ c.pc.atHome))
    (hwritten : OneUser c.written) : Bound c :=
  ⟨fun h => absurd h (by simp [hreg]), fun h => absurd h (by simp [hlog]), fun h => absurd h hpc,
    hwritten⟩

theorem bound_of_ended {c : Client} (hrunning : c.running = false) (hwritten : OneUser c.written) :
    Bound c := by
  have hpc : c.pc = .exited ∨ c.pc = .fault := by
    simpa [Client.running, or_iff_not_imp_left] using hrunning
  rcases hpc with hpc | hpc <;>
    exact bound_of_idle (by simp [hpc]) (by simp [hpc]) (by simp [hpc, Pc.loggingIn, Pc.atHome])
      hwritten

/-- A request of the user, and on in the session. -/
theorem Bound.request {c : Client} (huser : LastLogin c.written c.pmsg) (hwritten : OneUser c.written)
    {action : ℤ} (hact : action ∈ [2, 3, 4, 6, 9, 10]) {pc : Pc}
    (hpc : pc.loggingIn ∨ pc.atHome) : Bound (c.request action pc) := by
  have huser' : LastLogin c.written { c.pmsg with action := action } := huser.congr rfl rfl
  refine bound_of_user hpc (huser'.concat ?_) (hwritten.concat (.inr ⟨hact, huser'⟩))
  simp only [List.mem_cons, List.not_mem_nil, or_false, not_or] at hact ⊢
  omega

theorem afterSendFile_eq (pmsg : Msg) (sfileId : ℤ) : ∃ offset,
    afterSendFile pmsg sfileId = { pmsg with sfileId := sfileId, offset := offset } :=
  ⟨_, newFbHeads_snd _ _⟩

theorem bound_entry {c t : Client} (h : Bound c) (hstep : EntryStep c t) :
    Bound t := by
  have hwritten := h.written
  cases hstep with
  | clear hpc => exact bound_of_idle (by simp) (by simp) (by simp [Pc.loggingIn, Pc.atHome]) hwritten
  | again num stdin hpc =>
    exact bound_of_idle (by simp) (by simp) (by simp [Pc.loggingIn, Pc.atHome]) hwritten
  | leave num stdin hpc =>
    exact bound_of_idle (by simp) (by simp) (by simp [Pc.loggingIn, Pc.atHome]) hwritten
  | regUser num stdin hpc =>
    exact ⟨fun _ => rfl, by simp [regUser], by simp [regUser, Pc.loggingIn, Pc.atHome], hwritten⟩
  | logUser num stdin hpc =>
    exact ⟨by simp [logUser], fun _ => rfl, by simp [logUser, Pc.loggingIn, Pc.atHome], hwritten⟩
  | named stdin pmsg pc hscan hpc =>
    rcases hpc with ⟨hpc, rfl⟩ | ⟨hpc, rfl⟩
    · have hact := h.reg (.inl hpc)
      exact ⟨fun _ => (hscan.action (by rw [hact]; decide)).trans hact, by simp,
        by simp [Pc.loggingIn, Pc.atHome], hwritten⟩
    · have hact := h.log (.inl hpc)
      exact ⟨by simp, fun _ => (hscan.action (by rw [hact]; decide)).trans hact,
        by simp [Pc.loggingIn, Pc.atHome], hwritten⟩
  | registered stdin pmsg hscan hpc =>
    have hact := h.reg (.inr hpc)
    have hact' : pmsg.action = 0 := (hscan.action (by rw [hact]; decide)).trans hact
    exact bound_of_idle (by simp [Client.write]) (by simp [Client.write])
      (by simp [Client.write, Pc.loggingIn, Pc.atHome])
      (hwritten.concat (.inl (by simp [hact'])))
  | asked stdin pmsg hscan hpc =>
    have hact := h.log (.inr hpc)
    have hact' : pmsg.action = 1 := (hscan.action (by rw [hact]; decide)).trans hact
    exact bound_of_user (.inl rfl) (lastLogin_concat c.written hact')
      (hwritten.concat (.inl (by simp [hact'])))

theorem bound_waiting {c t : Client} (h : Bound c) (hstep : WaitStep c t) :
    Bound t := by
  have hwritten := h.written
  cases hstep with
  | finished hpc => exact bound_of_idle (by simp) (by simp) (by simp [Pc.loggingIn, Pc.atHome]) hwritten
  | wait pc hpc =>
    rcases hpc with ⟨hpc, -, rfl⟩ | ⟨hpc, -, rfl⟩ | ⟨hpc, -, rfl⟩ <;>
      exact bound_of_user (.inl rfl) (h.user (.inl (by rw [hpc]; rfl))) hwritten
  | viewUser hpc hlognum =>
    exact .request (h.user (.inl (by rw [hpc]; rfl))) hwritten (by simp) (.inr rfl)

theorem bound_home {c t : Client} (h : Bound c) (hstep : HomeStep c t) :
    Bound t := by
  have hwritten := h.written
  cases hstep with
  | choose lognum stdin hpc =>
    exact bound_of_user (.inr rfl) (h.user (.inr (by rw [hpc]; rfl))) hwritten
  | tested pc hpc hto =>
    have huser : LastLogin c.written c.pmsg :=
      h.user (.inr (by rcases hpc with hpc | hpc | hpc <;> rw [hpc] <;> rfl))
    exact bound_of_user (.inr (by rcases hto with rfl | rfl | rfl | rfl <;> rfl)) huser hwritten
  | allUser hpc hlognum =>
    have huser : LastLogin c.written c.pmsg := h.user (.inr (by rw [hpc]; rfl))
    exact bound_of_user (.inr rfl) (huser.congr rfl rfl) hwritten
  | quiteUser hpc hlognum =>
    exact .request (h.user (.inr (by rw [hpc]; rfl))) hwritten (by simp) (.inl rfl)
  | chatUser stdin pmsg hscan hpc =>
    have huser : LastLogin c.written c.pmsg := h.user (.inr (by rw [hpc]; rfl))
    have huser' : LastLogin c.written pmsg := huser.scans hscan (by decide)
    exact Bound.request (c := { c with stdin := stdin, pmsg := pmsg }) huser' hwritten (by simp)
      (.inr rfl)

theorem bound_talking {c t : Client} (h : Bound c) (hstep : TalkStep c t) :
    Bound t := by
  have hwritten := h.written
  cases hstep with
  | chatWord stdin pmsg hscan hpc =>
    have huser : LastLogin c.written c.pmsg := h.user (.inr (by rw [hpc]; rfl))
    have hzero : LastLogin c.written { c.pmsg with message := .zero 1024 } := huser.congr rfl rfl
    have huser' : LastLogin c.written pmsg := hzero.scans hscan (by decide)
    unfold chatWord
    split_ifs
    · exact bound_of_user (.inr rfl) huser' hwritten
    · exact bound_of_user (.inr rfl) huser' hwritten
    · exact Bound.request (c := { c with stdin := stdin, pmsg := pmsg }) huser' hwritten (by simp)
        (.inr rfl)
  | filename stdin pmsg hscan hpc =>
    have huser : LastLogin c.written c.pmsg := h.user (.inr (by rw [hpc]; rfl))
    exact bound_of_user (.inr rfl) (huser.scans hscan (by decide)) hwritten
  | noFile hpc => exact bound_of_idle (by simp) (by simp) (by simp [Pc.loggingIn, Pc.atHome]) hwritten
  | askFile file hpc =>
    have huser : LastLogin c.written c.pmsg := h.user (.inr (by rw [hpc]; rfl))
    have huser' : LastLogin c.written (fileRequest c.pmsg (SenderModel.stSize file)) :=
      huser.congr rfl rfl
    have hact : (fileRequest c.pmsg (SenderModel.stSize file)).action = 3 := rfl
    exact bound_of_user (.inr rfl) (huser'.concat (by simp [hact]))
      (hwritten.concat (.inr ⟨by simp [hact], huser'⟩))
  | sentFile hpc =>
    have huser : LastLogin c.written c.pmsg := h.user (.inr (by rw [hpc]; rfl))
    obtain ⟨offset, heq⟩ := afterSendFile_eq c.pmsg c.sfileId
    rw [heq]
    exact bound_of_user (.inr rfl) (huser.congr rfl rfl) hwritten
  | allWord stdin pmsg hscan hpc =>
    have huser : LastLogin c.written c.pmsg := h.user (.inr (by rw [hpc]; rfl))
    have hzero : LastLogin c.written { c.pmsg with message := .zero 1024 } := huser.congr rfl rfl
    have huser' : LastLogin c.written pmsg := hzero.scans hscan (by decide)
    unfold allWord
    split_ifs
    · exact bound_of_user (.inr rfl) huser' hwritten
    · exact Bound.request (c := { c with stdin := stdin, pmsg := pmsg }) huser' hwritten (by simp)
        (.inr rfl)

theorem bound_main {c t : Client} (h : Bound c) (hstep : MainStep c t) :
    Bound t := by
  cases hstep with
  | entry hstep => exact bound_entry h hstep
  | waiting hstep => exact bound_waiting h hstep
  | home hstep => exact bound_home h hstep
  | talking hstep => exact bound_talking h hstep
  | overrun stdin pmsg hpc =>
    exact bound_of_idle (by simp) (by simp) (by simp [Pc.loggingIn, Pc.atHome]) h.written

theorem bound_step {c t : Client} {a : ClientAction} (h : Bound c) (hstep : clientStep c a = some t) :
    Bound t := by
  cases a with
  | main file => exact bound_main h (mainStep_cases hstep)
  | read r m =>
    cases clientStep_read hstep with
    | goes sfileId shown hid => exact ⟨h.reg, h.log, h.user, h.written⟩
    | leaves hnot => exact bound_of_ended rfl h.written
  | serverExit =>
    rw [clientStep_serverExit hstep]
    exact ⟨h.reg, h.log, h.user, h.written⟩
  | kill =>
    rw [clientStep_kill hstep]
    exact bound_of_ended rfl h.written

theorem bound_run {stdin : Bytes} {num : ℤ} {pmsg : Msg} {as : List ClientAction} {c : Client}
    (h : clientMachine.run (.start stdin num pmsg) as = some c) : Bound c := by
  have hstart : Bound (.start stdin num pmsg) :=
    bound_of_idle (by simp [Client.start]) (by simp [Client.start])
      (by simp [Client.start, Pc.loggingIn, Pc.atHome])
      eachGiven_nil
  exact run_invariant (M := clientMachine) (fun _ _ _ hs hstep => bound_step hs hstep) hstart h

/-- Whatever is typed, however long the words are, and whatever the server sends and when: each
record that `main` of a client writes on its connection is a registration, a login, or a request in
the name and with the password of the login that was its last one. -/
theorem requests_of_one_user (stdin : Bytes) (num : ℤ) (pmsg : Msg) (as : List ClientAction)
    (c : Client) (h : clientMachine.run (.start stdin num pmsg) as = some c) : OneUser c.written :=
  (bound_run h).written

/-- A round that finds zeros, and a newline wherever `ch` is not read. -/
def Round.calm : Round := ⟨[], .zero 100, fun _ => HistoryLines.newline⟩

/-- The login is answered, and `main` asks for the users. -/
def loginActions : List ClientAction :=
  List.replicate 4 (.main none) ++ [.read .calm oneLogin] ++ List.replicate 3 (.main none)

theorem loginActions_run :
    ∃ c, clientMachine.run (.start (text "1 r 4") 0 .zero) loginActions = some c ∧
      c.written = [oneLogin.1, { oneLogin.1 with action := 6 }] := by
  have hrun : (clientMachine.run (.start (text "1 r 4") 0 .zero) loginActions).any
      (fun c => c.written = [oneLogin.1, { oneLogin.1 with action := 6 }]) = true := by
    decide +kernel
  obtain ⟨c, hc, hwritten⟩ := (Option.any_eq_true ..).mp hrun
  exact ⟨c, hc, of_decide_eq_true hwritten⟩

theorem loginActions_one_user :
    ∃ c, clientMachine.run (.start (text "1 r 4") 0 .zero) loginActions = some c ∧
      c.written.length = 2 ∧ OneUser c.written := by
  obtain ⟨c, hrun, hwritten⟩ := loginActions_run
  exact ⟨c, hrun, by rw [hwritten]; rfl, requests_of_one_user _ _ _ _ c hrun⟩

end LinuxCat.ClientModel
