import LinuxCat.ClientProtocol

/-! # What a client writes, record by record

The records of a client walk through the phases of a session. Where it is in `main` says in which
phase it is, as long as `lognum` is only changed by `thread_read` when `main` waits for it. -/
namespace LinuxCat.ClientModel
open ByteLayouts Messages FileBlocks
open ServerModel (text)

/-- Behind a registration or a logout; behind a login, which was not refused perhaps; behind a
request for the users, with the addressee of the conversation. -/
inductive Phase
  | outside
  | asked (name password : CharArray 20)
  | inside (name password : CharArray 20) (toname : Option (CharArray 20))
  deriving DecidableEq, Repr

namespace Phase

/-- The user of the phase is that of the record. -/
def IsOf (m : Msg) (name password : CharArray 20) : Prop := m.name = name ∧ m.password = password

instance (m : Msg) (name password : CharArray 20) : Decidable (IsOf m name password) :=
  inferInstanceAs (Decidable (_ ∧ _))

/-- A record of somebody who is not logged in. -/
def enter (m : Msg) : Option Phase :=
  if m.action = 0 then some .outside
  else if m.action = 1 then some (.asked m.name m.password)
  else none

/-- The phase behind a record, if the record may come in this phase: a conversation begins with the
request for its history, and its messages and files go to the addressee of this request. -/
def next : Phase → Msg → Option Phase
  | .outside, m => enter m
  | .asked name password, m =>
    if m.action = 6 ∧ IsOf m name password then some (.inside name password none) else enter m
  | .inside name password toname, m =>
    if ¬ IsOf m name password then none
    else if m.action = 9 then some (.inside name password (some m.toname))
    else if (m.action = 2 ∨ m.action = 3) ∧ toname = some m.toname then
      some (.inside name password toname)
    else if m.action = 4 ∧ m.toname.str = text "all" then some (.inside name password none)
    else if m.action = 10 then some .outside
    else none

/-- Nobody is logged in. -/
def Out (p : Phase) : Prop := p = .outside ∨ ∃ name password, p = .asked name password

/-- The user of the record is. -/
def In (p : Phase) (m : Msg) : Prop := ∃ toname, p = .inside m.name m.password toname

theorem In.congr {p : Phase} {m m' : Msg} (h : p.In m) (hname : m'.name = m.name)
    (hpassword : m'.password = m.password) : p.In m' := by
  obtain ⟨toname, rfl⟩ := h
  exact ⟨toname, by rw [hname, hpassword]⟩

theorem Out.next_reg {p : Phase} {m : Msg} (h : p.Out) (hact : m.action = 0) :
    p.next m = some .outside := by
  rcases h with rfl | ⟨name, password, rfl⟩ <;> simp [next, enter, hact]

theorem Out.next_log {p : Phase} {m : Msg} (h : p.Out) (hact : m.action = 1) :
    p.next m = some (.asked m.name m.password) := by
  rcases h with rfl | ⟨name, password, rfl⟩ <;> simp [next, enter, hact]

theorem next_view {m : Msg} (hact : m.action = 6) :
    next (.asked m.name m.password) m = some (.inside m.name m.password none) := by
  simp [next, hact, IsOf]

section
variable {p : Phase} {m : Msg}

theorem In.next_history (h : p.In m) (hact : m.action = 9) :
    p.next m = some (.inside m.name m.password (some m.toname)) := by
  obtain ⟨toname, rfl⟩ := h
  simp [next, hact, IsOf]

theorem next_message (hact : m.action = 2 ∨ m.action = 3) :
    next (.inside m.name m.password (some m.toname)) m =
      some (.inside m.name m.password (some m.toname)) := by
  have h9 : m.action ≠ 9 := by omega
  simp [next, hact, h9, IsOf]

theorem In.next_all (h : p.In m) (hact : m.action = 4) (hto : m.toname.str = text "all") :
    p.next m = some (.inside m.name m.password none) := by
  obtain ⟨toname, rfl⟩ := h
  simp [next, hact, hto, IsOf]

theorem In.next_quite (h : p.In m) (hact : m.action = 10) : p.next m = some .outside := by
  obtain ⟨toname, rfl⟩ := h
  simp [next, hact, IsOf]

end

end Phase

/-- The phase behind the records of a client, if each of them may come where it does. -/
def phaseOf (written : List Msg) : Option Phase := written.foldlM Phase.next .outside

theorem phaseOf_concat (written : List Msg) (m : Msg) :
    phaseOf (written ++ [m]) = (phaseOf written).bind (fun p => p.next m) := by
  simp [phaseOf, List.foldlM_append]

theorem Phase.next_action {p p' : Phase} {m : Msg} (h : p.next m = some p') :
    m.action ∈ [0, 1, 2, 3, 4, 6, 9, 10] := by
  have henter (h : Phase.enter m = some p') : m.action ∈ [0, 1, 2, 3, 4, 6, 9, 10] := by
    simp only [Phase.enter] at h
    split_ifs at h with h0 h1
    · simp [h0]
    · simp [h1]
  cases p with
  | outside => exact henter h
  | asked name password =>
    simp only [Phase.next] at h
    split_ifs at h with h6
    · simp [h6.1]
    · exact henter h
  | inside name password toname =>
    simp only [Phase.next] at h
    split_ifs at h with _ h9 h23 h4 h10
    · simp [h9]
    · rcases h23.1 with h2 | h3
      · simp [h2]
      · simp [h3]
    · simp [h4.1]
    · simp [h10]

theorem action_of_phaseOf {written : List Msg} {p : Phase} (h : phaseOf written = some p) :
    ∀ m ∈ written, m.action ∈ [0, 1, 2, 3, 4, 6, 9, 10] := by
  induction written using List.reverseRecOn generalizing p with
  | nil => simp
  | append_singleton written m ih =>
    rw [phaseOf_concat] at h
    obtain ⟨q, hq, hnext⟩ := Option.bind_eq_some_iff.mp h
    exact List.forall_mem_append.mpr ⟨ih hq, List.forall_mem_singleton.mpr (Phase.next_action hnext)⟩

/-- What the place of `main` says of the phase and of `lognum`. -/
def Session (c : Client) (p : Phase) : Prop :=
  match c.pc with
  | .top => p.Out
  | .menu => p.Out ∧ c.lognum = 0
  | .regName | .regPassword => p.Out ∧ c.lognum = 0 ∧ c.pmsg.action = 0
  | .logName | .logPassword => p.Out ∧ c.lognum = 0 ∧ c.pmsg.action = 1
  -- `quite_user` has left 3 in `lognum`
  | .test3 => c.lognum = 3 ∧ p = .outside ∨
      c.lognum ∈ [0, 1, -1] ∧ p = .asked c.pmsg.name c.pmsg.password
  | .testMinus1 | .test1 => c.lognum ∈ [0, 1, -1] ∧ p = .asked c.pmsg.name c.pmsg.password
  | .home | .home1 | .home2 | .home3 | .toname => p.In c.pmsg
  | .chat | .filename | .openFile | .waitId =>
    p = .inside c.pmsg.name c.pmsg.password (some c.pmsg.toname)
  | .all => p.In c.pmsg ∧ c.pmsg.toname.str = text "all"
  | .exited | .fault => True

/-- The phases a step of `main` passes, with the record it writes. -/
inductive Advances (c t : Client) (p : Phase) : Prop
  | silent (hwritten : t.written = c.written) (hsession : Session t p)
  | wrote (p' : Phase) (hwritten : t.written = c.written ++ [t.pmsg]) (hnext : p.next t.pmsg = some p')
      (hsession : Session t p')

theorem length_all : (text "all").length ≤ 20 := by decide

theorem zero_notMem_all : 0 ∉ text "all" := by decide

/-- A request of the user from where `main` is in its session. -/
theorem advances_request {c : Client} {p p' : Phase} {action : ℤ} {pc : Pc}
    (hnext : p.next { c.pmsg with action := action } = some p') (hsession : Session (c.request action pc) p') :
    Advances c (c.request action pc) p :=
  .wrote p' rfl hnext hsession

/-- What is typed behind the addressee leaves it, and the user, as they are. -/
theorem Scans.addressed {f : Field} {m m' : Msg} (h : Scans f m m') (hf : 92 ≤ f.offset) :
    m'.name = m.name ∧ m'.password = m.password ∧ m'.toname = m.toname :=
  ⟨h.get (g := .name) ((by decide : 52 ≤ 92).trans hf),
    h.get (g := .password) ((by decide : 72 ≤ 92).trans hf), h.get (g := .toname) hf⟩

theorem session_entry {c t : Client} {p : Phase} (h : Session c p) (hstep : EntryStep c t) :
    Advances c t p := by
  cases hstep with
  | clear hpc =>
    have hout : p.Out := by simpa [Session, hpc] using h
    exact .silent rfl ⟨hout, rfl⟩
  | again num stdin hpc =>
    obtain ⟨hout, -⟩ : p.Out ∧ c.lognum = 0 := by simpa [Session, hpc] using h
    exact .silent rfl hout
  | leave num stdin hpc => exact .silent rfl trivial
  | regUser num stdin hpc =>
    obtain ⟨hout, hlognum⟩ : p.Out ∧ c.lognum = 0 := by simpa [Session, hpc] using h
    exact .silent rfl ⟨hout, hlognum, rfl⟩
  | logUser num stdin hpc =>
    obtain ⟨hout, hlognum⟩ : p.Out ∧ c.lognum = 0 := by simpa [Session, hpc] using h
    exact .silent rfl ⟨hout, hlognum, rfl⟩
  | named stdin pmsg pc hscan hpc =>
    rcases hpc with ⟨hpc, rfl⟩ | ⟨hpc, rfl⟩
    · obtain ⟨hout, hlognum, hact⟩ : p.Out ∧ c.lognum = 0 ∧ c.pmsg.action = 0 := by
        simpa [Session, hpc] using h
      exact .silent rfl ⟨hout, hlognum, (hscan.action (by rw [hact]; decide)).trans hact⟩
    · obtain ⟨hout, hlognum, hact⟩ : p.Out ∧ c.lognum = 0 ∧ c.pmsg.action = 1 := by
        simpa [Session, hpc] using h
      exact .silent rfl ⟨hout, hlognum, (hscan.action (by rw [hact]; decide)).trans hact⟩
  | registered stdin pmsg hscan hpc =>
    obtain ⟨hout, hlognum, hact⟩ : p.Out ∧ c.lognum = 0 ∧ c.pmsg.action = 0 := by
      simpa [Session, hpc] using h
    have hact' : pmsg.action = 0 := (hscan.action (by rw [hact]; decide)).trans hact
    exact .wrote .outside rfl (hout.next_reg hact') (.inl rfl)
  | asked stdin pmsg hscan hpc =>
    obtain ⟨hout, hlognum, hact⟩ : p.Out ∧ c.lognum = 0 ∧ c.pmsg.action = 1 := by
      simpa [Session, hpc] using h
    have hact' : pmsg.action = 1 := (hscan.action (by rw [hact]; decide)).trans hact
    exact .wrote _ rfl (hout.next_log hact') (.inr ⟨by simp [Client.write, hlognum], rfl⟩)

theorem session_waiting {c t : Client} {p : Phase} (h : Session c p) (hstep : WaitStep c t) :
    Advances c t p := by
  cases hstep with
  | finished hpc =>
    rcases hpc with ⟨hpc, hlognum⟩ | ⟨hpc, hlognum⟩
    · have hsession : c.lognum = 3 ∧ p = .outside ∨
          c.lognum ∈ [0, 1, -1] ∧ p = .asked c.pmsg.name c.pmsg.password := by
        simpa only [Session, hpc] using h
      rcases hsession with ⟨-, rfl⟩ | ⟨hmem, -⟩
      · exact .silent rfl (.inl rfl)
      · simp [hlognum] at hmem
    · have hsession : c.lognum ∈ [0, 1, -1] ∧ p = .asked c.pmsg.name c.pmsg.password := by
        simpa only [Session, hpc] using h
      exact .silent rfl (.inr ⟨_, _, hsession.2⟩)
  | wait pc hpc =>
    rcases hpc with ⟨hpc, hlognum, rfl⟩ | ⟨hpc, -, rfl⟩ | ⟨hpc, -, rfl⟩
    · have hsession : c.lognum = 3 ∧ p = .outside ∨
          c.lognum ∈ [0, 1, -1] ∧ p = .asked c.pmsg.name c.pmsg.password := by
        simpa only [Session, hpc] using h
      exact .silent rfl (hsession.resolve_left fun h3 => hlognum h3.1)
    · have hsession : c.lognum ∈ [0, 1, -1] ∧ p = .asked c.pmsg.name c.pmsg.password := by
        simpa only [Session, hpc] using h
      exact .silent rfl hsession
    · have hsession : c.lognum ∈ [0, 1, -1] ∧ p = .asked c.pmsg.name c.pmsg.password := by
        simpa only [Session, hpc] using h
      exact .silent rfl (.inr hsession)
  | viewUser hpc hlognum =>
    obtain ⟨-, rfl⟩ : c.lognum ∈ [0, 1, -1] ∧ p = .asked c.pmsg.name c.pmsg.password := by
      simpa only [Session, hpc] using h
    exact advances_request (Phase.next_view rfl) ⟨none, rfl⟩

theorem session_home {c t : Client} {p : Phase} (h : Session c p) (hstep : HomeStep c t) :
    Advances c t p := by
  cases hstep with
  | choose lognum stdin hpc =>
    have hin : p.In c.pmsg := by simpa only [Session, hpc] using h
    exact .silent rfl hin
  | tested pc hpc hto =>
    have hin : p.In c.pmsg := by
      rcases hpc with hpc | hpc | hpc <;> simpa only [Session, hpc] using h
    refine .silent rfl ?_
    rcases hto with rfl | rfl | rfl | rfl <;> exact hin
  | allUser hpc hlognum =>
    have hin : p.In c.pmsg := by simpa only [Session, hpc] using h
    exact .silent rfl ⟨hin.congr rfl rfl,
      c.pmsg.toname.str_strcpy_of length_all zero_notMem_all⟩
  | quiteUser hpc hlognum =>
    have hin : p.In c.pmsg := by simpa only [Session, hpc] using h
    have hin' : p.In { c.pmsg with action := 10 } := hin.congr rfl rfl
    exact advances_request (hin'.next_quite rfl) (.inl ⟨hlognum, rfl⟩)
  | chatUser stdin pmsg hscan hpc =>
    have hin : p.In c.pmsg := by simpa only [Session, hpc] using h
    have hin' : p.In { pmsg with action := 9 } :=
      hin.congr (hscan.get (g := .name) (by decide)) (hscan.get (g := .password) (by decide))
    exact .wrote _ rfl (hin'.next_history rfl) rfl

theorem session_talking {c t : Client} {p : Phase} (h : Session c p) (hstep : TalkStep c t) :
    Advances c t p := by
  cases hstep with
  | chatWord stdin pmsg hscan hpc =>
    obtain rfl : p = .inside c.pmsg.name c.pmsg.password (some c.pmsg.toname) := by
      simpa only [Session, hpc] using h
    obtain ⟨hname, hpassword, htoname⟩ := hscan.addressed (by decide)
    rw [← hname, ← hpassword, ← htoname]
    unfold chatWord
    split_ifs
    · exact .silent rfl rfl
    · exact .silent rfl ⟨_, rfl⟩
    · exact .wrote _ rfl (Phase.next_message (.inl rfl)) rfl
  | filename stdin pmsg hscan hpc =>
    obtain rfl : p = .inside c.pmsg.name c.pmsg.password (some c.pmsg.toname) := by
      simpa only [Session, hpc] using h
    obtain ⟨hname, hpassword, htoname⟩ := hscan.addressed (by decide)
    rw [← hname, ← hpassword, ← htoname]
    exact .silent rfl rfl
  | noFile hpc => exact .silent rfl trivial
  | askFile file hpc =>
    obtain rfl : p = .inside c.pmsg.name c.pmsg.password (some c.pmsg.toname) := by
      simpa only [Session, hpc] using h
    have hnext := Phase.next_message (m := fileRequest c.pmsg (SenderModel.stSize file)) (.inr rfl)
    exact .wrote _ rfl hnext rfl
  | sentFile hpc =>
    obtain rfl : p = .inside c.pmsg.name c.pmsg.password (some c.pmsg.toname) := by
      simpa only [Session, hpc] using h
    obtain ⟨offset, heq⟩ := afterSendFile_eq c.pmsg c.sfileId
    rw [heq]
    exact .silent rfl rfl
  | allWord stdin pmsg hscan hpc =>
    obtain ⟨hin, hto⟩ : p.In c.pmsg ∧ c.pmsg.toname.str = text "all" := by
      simpa only [Session, hpc] using h
    obtain ⟨hname, hpassword, htoname⟩ := hscan.addressed (by decide)
    have hin' : p.In pmsg := hin.congr hname hpassword
    have hto' : pmsg.toname.str = text "all" := by rw [htoname, hto]
    unfold allWord
    split_ifs
    · exact .silent rfl hin'
    · have hin4 : p.In { pmsg with action := 4 } := hin'.congr rfl rfl
      exact .wrote _ rfl (hin4.next_all rfl hto') ⟨⟨none, rfl⟩, hto'⟩

theorem session_main {c t : Client} {p : Phase} (h : Session c p) (hstep : MainStep c t) :
    Advances c t p := by
  cases hstep with
  | entry hstep => exact session_entry h hstep
  | waiting hstep => exact session_waiting h hstep
  | home hstep => exact session_home h hstep
  | talking hstep => exact session_talking h hstep
  | overrun stdin pmsg hpc => exact .silent rfl trivial

/-! ## The pace of a session -/

/-- `main` waits for the answer to its login. -/
def Client.waits (c : Client) : Bool := c.pc.loggingIn ∧ c.lognum = 0

/-- `main` is in the session of its user, or about to enter it. -/
def Client.inSession (c : Client) : Bool := c.pc.atHome ∨ c.pc.loggingIn ∧ c.lognum = 1

/-- What a step of `main` is to the session. -/
inductive Pace (c t : Client) : Prop
  | waiting (hc : c.waits = true) (ht : t.waits = true) (hpmsg : t.pmsg = c.pmsg)
      (hwritten : t.written = c.written)
  | asks (hc : c.waits = false) (ht : t.waits = true) (hsession : c.inSession = false)
      (hwritten : t.written = c.written ++ [t.pmsg]) (hact : t.pmsg.action = 1)
  | outside (hc : c.waits = false) (ht : t.waits = false) (hsession : t.inSession = false)
      (hleft : t.running = true → c.inSession = false)
      (hwritten : t.written = c.written ∨
        t.written = c.written ++ [t.pmsg] ∧ t.pmsg.action = 0)
  | inside (hc : c.waits = false) (ht : t.waits = false) (hsession : c.inSession = true)
      (hsession' : t.inSession = true) (hname : t.pmsg.name = c.pmsg.name)
      (hwritten : t.written = c.written ∨
        t.written = c.written ++ [t.pmsg] ∧ t.pmsg.action ∈ [2, 3, 4, 6, 9])
  | quits (hc : c.waits = false) (ht : t.waits = false) (hsession : c.inSession = true)
      (hsession' : t.inSession = false) (hname : t.pmsg.name = c.pmsg.name)
      (hwritten : t.written = c.written ++ [t.pmsg]) (hact : t.pmsg.action = 10)

theorem atHome_inSession {c : Client} (h : c.pc.atHome = true) :
    c.inSession = true ∧ c.waits = false := by
  cases hpc : c.pc <;> simp_all [Client.inSession, Client.waits, Pc.loggingIn, Pc.atHome]

theorem not_inSession {c : Client} (hpc : ¬ (c.pc.loggingIn ∨ c.pc.atHome)) :
    c.inSession = false ∧ c.waits = false := by
  push Not at hpc
  simp [Client.inSession, Client.waits, hpc.1, hpc.2]

theorem pace_outside {c t : Client} (hc : ¬ (c.pc.loggingIn ∨ c.pc.atHome))
    (ht : ¬ (t.pc.loggingIn ∨ t.pc.atHome))
    (hwritten : t.written = c.written ∨ t.written = c.written ++ [t.pmsg] ∧ t.pmsg.action = 0) :
    Pace c t :=
  .outside (not_inSession hc).2 (not_inSession ht).2 (not_inSession ht).1
    (fun _ => (not_inSession hc).1) hwritten

theorem pace_inside {c t : Client} (hc : c.pc.atHome = true) (ht : t.pc.atHome = true)
    (hname : t.pmsg.name = c.pmsg.name)
    (hwritten : t.written = c.written ∨
      t.written = c.written ++ [t.pmsg] ∧ t.pmsg.action ∈ [2, 3, 4, 6, 9]) : Pace c t :=
  .inside (atHome_inSession hc).2 (atHome_inSession ht).2 (atHome_inSession hc).1
    (atHome_inSession ht).1 hname hwritten

theorem pace_entry {c t : Client} {p : Phase} (h : Session c p) (hstep : EntryStep c t) :
    Pace c t := by
  cases hstep with
  | clear hpc =>
    exact pace_outside (by simp [hpc, Pc.loggingIn, Pc.atHome]) (by simp [Pc.loggingIn, Pc.atHome])
      (.inl rfl)
  | again num stdin hpc =>
    exact pace_outside (by simp [hpc, Pc.loggingIn, Pc.atHome]) (by simp [Pc.loggingIn, Pc.atHome])
      (.inl rfl)
  | leave num stdin hpc =>
    exact pace_outside (by simp [hpc, Pc.loggingIn, Pc.atHome]) (by simp [Pc.loggingIn, Pc.atHome])
      (.inl rfl)
  | regUser num stdin hpc =>
    exact pace_outside (by simp [hpc, Pc.loggingIn, Pc.atHome])
      (by simp [regUser, Pc.loggingIn, Pc.atHome]) (.inl rfl)
  | logUser num stdin hpc =>
    exact pace_outside (by simp [hpc, Pc.loggingIn, Pc.atHome])
      (by simp [logUser, Pc.loggingIn, Pc.atHome]) (.inl rfl)
  | named stdin pmsg pc hscan hpc =>
    rcases hpc with ⟨hpc, rfl⟩ | ⟨hpc, rfl⟩ <;>
      exact pace_outside (by simp [hpc, Pc.loggingIn, Pc.atHome])
        (by simp [Pc.loggingIn, Pc.atHome]) (.inl rfl)
  | registered stdin pmsg hscan hpc =>
    obtain ⟨-, -, hact⟩ : p.Out ∧ c.lognum = 0 ∧ c.pmsg.action = 0 := by
      simpa [Session, hpc] using h
    exact pace_outside (by simp [hpc, Pc.loggingIn, Pc.atHome])
      (by simp [Client.write, Pc.loggingIn, Pc.atHome])
      (.inr ⟨rfl, (hscan.action (by rw [hact]; decide)).trans hact⟩)
  | asked stdin pmsg hscan hpc =>
    obtain ⟨-, hlognum, hact⟩ : p.Out ∧ c.lognum = 0 ∧ c.pmsg.action = 1 := by
      simpa [Session, hpc] using h
    have hc := not_inSession (c := c) (by simp [hpc, Pc.loggingIn, Pc.atHome])
    exact .asks hc.2 (by simp [Client.waits, Client.write, Pc.loggingIn, hlognum]) hc.1 rfl
      ((hscan.action (by rw [hact]; decide)).trans hact)

theorem pace_waiting {c t : Client} (hstep : WaitStep c t) :
    Pace c t := by
  cases hstep with
  | finished hpc =>
    have ht := not_inSession (c := { c with pc := .top }) (by simp [Pc.loggingIn, Pc.atHome])
    refine .outside ?_ ht.2 ht.1 (fun _ => ?_) (.inl rfl)
    · rcases hpc with ⟨-, hlognum⟩ | ⟨-, hlognum⟩ <;> simp [Client.waits, hlognum]
    · rcases hpc with ⟨hpc, hlognum⟩ | ⟨hpc, hlognum⟩ <;>
        simp [Client.inSession, hpc, hlognum, Pc.atHome]
  | wait pc hpc =>
    have hpcs : c.pc.loggingIn = true ∧ pc.loggingIn = true ∧ pc.atHome = false := by
      rcases hpc with ⟨hpc, -, rfl⟩ | ⟨hpc, -, rfl⟩ | ⟨hpc, -, rfl⟩ <;>
        simp [hpc, Pc.loggingIn, Pc.atHome]
    by_cases h0 : c.lognum = 0
    · exact .waiting (by simp [Client.waits, hpcs, h0]) (by simp [Client.waits, hpcs, h0]) rfl rfl
    · by_cases h1 : c.lognum = 1
      · exact .inside (by simp [Client.waits, h0]) (by simp [Client.waits, h0])
          (by simp [Client.inSession, hpcs, h1]) (by simp [Client.inSession, hpcs, h1]) rfl (.inl rfl)
      · have hhome : c.pc.atHome = false := by
          cases hc : c.pc <;> simp_all [Pc.loggingIn, Pc.atHome]
        exact .outside (by simp [Client.waits, h0]) (by simp [Client.waits, h0])
          (by simp [Client.inSession, hpcs, h1]) (by simp [Client.inSession, hhome, h1]) (.inl rfl)
  | viewUser hpc hlognum =>
    have ht := atHome_inSession (c := viewUser c) rfl
    exact .inside (by simp [Client.waits, hlognum]) ht.2
      (by simp [Client.inSession, hpc, Pc.loggingIn, hlognum]) ht.1 rfl
      (.inr ⟨rfl, by simp [viewUser]⟩)

theorem pace_home {c t : Client} (hstep : HomeStep c t) :
    Pace c t := by
  cases hstep with
  | choose lognum stdin hpc => exact pace_inside (by rw [hpc]; rfl) rfl rfl (.inl rfl)
  | tested pc hpc hto =>
    refine pace_inside (by rcases hpc with hpc | hpc | hpc <;> rw [hpc] <;> rfl) ?_ rfl (.inl rfl)
    rcases hto with rfl | rfl | rfl | rfl <;> rfl
  | allUser hpc hlognum => exact pace_inside (by rw [hpc]; rfl) rfl rfl (.inl rfl)
  | quiteUser hpc hlognum =>
    have hc := atHome_inSession (c := c) (by rw [hpc]; rfl)
    exact .quits hc.2 (by simp [Client.waits, quiteUser, Client.request, Client.write, hlognum]) hc.1
      (by simp [Client.inSession, quiteUser, Client.request, Client.write, hlognum, Pc.atHome]) rfl
      rfl rfl
  | chatUser stdin pmsg hscan hpc =>
    exact pace_inside (by rw [hpc]; rfl) rfl (hscan.get (g := .name) (by decide))
      (.inr ⟨rfl, by simp⟩)

theorem pace_talking {c t : Client} (hstep : TalkStep c t) :
    Pace c t := by
  cases hstep with
  | chatWord stdin pmsg hscan hpc =>
    have hname : pmsg.name = c.pmsg.name := hscan.get (g := .name) (by decide)
    unfold chatWord
    split_ifs
    · exact pace_inside (by rw [hpc]; rfl) rfl hname (.inl rfl)
    · exact pace_inside (by rw [hpc]; rfl) rfl hname (.inl rfl)
    · exact pace_inside (by rw [hpc]; rfl) rfl hname (.inr ⟨rfl, by simp⟩)
  | filename stdin pmsg hscan hpc =>
    exact pace_inside (by rw [hpc]; rfl) rfl (hscan.get (g := .name) (by decide)) (.inl rfl)
  | noFile hpc =>
    have hc := atHome_inSession (c := c) (by rw [hpc]; rfl)
    have ht := not_inSession (c := { c with pc := .exited }) (by simp [Pc.loggingIn, Pc.atHome])
    exact .outside hc.2 ht.2 ht.1 (by simp [Client.running]) (.inl rfl)
  | askFile file hpc =>
    exact pace_inside (by rw [hpc]; rfl) rfl rfl
      (.inr ⟨rfl, by simp [askFile, Client.write, fileRequest]⟩)
  | sentFile hpc =>
    obtain ⟨offset, heq⟩ := afterSendFile_eq c.pmsg c.sfileId
    rw [heq]
    exact pace_inside (by rw [hpc]; rfl) rfl rfl (.inl rfl)
  | allWord stdin pmsg hscan hpc =>
    have hname : pmsg.name = c.pmsg.name := hscan.get (g := .name) (by decide)
    unfold allWord
    split_ifs
    · exact pace_inside (by rw [hpc]; rfl) rfl hname (.inl rfl)
    · exact pace_inside (by rw [hpc]; rfl) rfl hname (.inr ⟨rfl, by simp⟩)

theorem pace_main {c t : Client} {p : Phase} (h : Session c p) (hstep : MainStep c t) :
    Pace c t := by
  cases hstep with
  | entry hstep => exact pace_entry h hstep
  | waiting hstep => exact pace_waiting hstep
  | home hstep => exact pace_home hstep
  | talking hstep => exact pace_talking hstep
  | overrun stdin pmsg hpc =>
    have ht := not_inSession (c := { c with stdin := stdin, pmsg := pmsg, pc := .fault })
      (by simp [Pc.loggingIn, Pc.atHome])
    exact .outside (by simp [Client.waits, hpc]) ht.2 ht.1 (by simp [Client.running]) (.inl rfl)

end LinuxCat.ClientModel
