import LinuxCat.OnlineSessions

/-! # Private messages

Action 2 goes to the first entry of its addressee or back to its sender, and no other request
writes a record with action 2. What a connection gets of one sender is therefore what this
sender asked for, as long as the entry stays the first one. -/
namespace LinuxCat.ServerModel
open LabelledMachines LabelledMachines.Machine ByteLayouts Messages

variable {DB : Type} {sql : Sqlite DB}

/-- A private message for `name`. -/
def Msg.isTo (name : Bytes) (m : Msg) : Bool := m.action = 2 ∧ m.toname.str = name

/-- The private messages for `name` that the step wrote to `fd`. -/
def Served.messagesTo (fd : ℤ) (name : Bytes) (i : Served) : List Msg :=
  i.writes.filterMap (fun w =>
    match w.2 with
    | .record m => if w.1 = fd ∧ Msg.isTo name m then some m else none
    | _ => none)

/-- The request of the step, if it is a private message for `name`. -/
def Served.messageFor (name : Bytes) (i : Served) : List Msg := i.request.toList.filter (Msg.isTo name)

/-- The answer to a private message: itself, to the first entry of its addressee, or -2. -/
def Served.Delivers (i : Served) (m : Msg) : Prop :=
  (∃ e, getOnline i.before m.toname.str = some e ∧ i.writes = [(e.cfd, .record m)]) ∨
    (getOnline i.before m.toname.str = none ∧
      i.writes = [(i.cfd, .record { m with action := -2 })])

/-- No entry has the descriptor that `find_fd` returns for nobody. -/
def Valid (online : List Online) : Prop := ∀ e ∈ online, e.cfd ≠ -1

/-- What a step of the history has to do with private messages. -/
structure Served.Faithful (i : Served) : Prop where
  delivers : ∀ m, i.request = some m → m.action = 2 → i.Delivers m
  only : (∀ m, i.request = some m → m.action ≠ 2) →
    ∀ fd m, (fd, Out.record m) ∈ i.writes → m.action ≠ 2

theorem case2_delivers {srv srv' : Server DB} {k : Handler} {inp : Input} {pc : Pc} {m : Msg}
    {junk : CharArray 20} (hvalid : Valid srv.online) (hreq : requested k.pc inp = some (m, junk))
    (hact : m.action = 2) (h : threadReadPc sql srv k.cfd k.pc inp = some (srv', pc)) :
    (served sql srv srv' k inp).Delivers m := by
  have heq : (srv', pc) = case2 sql srv k.cfd m :=
    (eq_dispatch hreq h).trans (dispatch_eq_case2 hact)
  have hwrites {o : ℤ × Out} (hws : Appends srv srv' [o]) :
      (served sql srv srv' k inp).writes = [o] := hws.drop
  simp only [case2] at heq
  rw [findFd_eq] at heq
  cases hon : getOnline srv.online m.toname.str with
  | none =>
    simp only [hon, Option.map_none, Option.getD_none, if_true] at heq
    cases heq
    exact .inr ⟨hon, hwrites rfl⟩
  | some e =>
    simp only [hon, Option.map_some, Option.getD_some, if_neg (hvalid e (getOnline_mem hon).1)] at heq
    cases heq
    exact .inl ⟨e, hon, hwrites rfl⟩

theorem served_faithful {srv srv' : Server DB} {k : Handler} {inp : Input} {pc : Pc}
    (hvalid : Valid srv.online) (h : threadReadPc sql srv k.cfd k.pc inp = some (srv', pc)) :
    (served sql srv srv' k inp).Faithful := by
  have hwrites {P : Msg → Prop} (hw : Writes P srv (srv', pc)) (fd : ℤ) (m : Msg)
      (hm : (fd, Out.record m) ∈ (served sql srv srv' k inp).writes) : P m := by
    obtain ⟨ws, hws, hp⟩ := hw
    have hdrop : (served sql srv srv' k inp).writes = ws := Appends.drop hws
    exact hp fd m (hdrop ▸ hm)
  constructor
  · intro m hm hact
    obtain ⟨⟨m', junk⟩, hreq, rfl⟩ := Option.map_eq_some_iff.mp hm
    exact case2_delivers hvalid hreq hact h
  · intro hno fd m hm
    cases hreq : requested k.pc inp with
    | none =>
      have hact := hwrites (Writes.of_unrequested h hreq) fd m hm
      omega
    | some q =>
      obtain ⟨m', junk⟩ := q
      have hact' : m'.action ≠ 2 := hno m' (by simp [served, hreq])
      have heq := eq_dispatch hreq h
      have hact := hwrites (heq ▸ Writes.dispatch) fd m hm
      simp only [List.mem_cons, List.not_mem_nil, or_false] at hact
      omega

/-- In a step, what is written to the first entry of `name` is what was asked for. -/
theorem Served.Faithful.messagesTo_eq {i : Served} (h : i.Faithful) {name : Bytes} {e : Online}
    (he : getOnline i.before name = some e) : i.messagesTo e.cfd name = i.messageFor name := by
  by_cases hreq : ∃ m, i.request = some m ∧ m.action = 2
  · obtain ⟨m, hreq, hact⟩ := hreq
    rcases h.delivers m hreq hact with ⟨e', hon, hws⟩ | ⟨hon, hws⟩
    · by_cases hto : m.toname.str = name
      · obtain rfl : e' = e := by
          rw [hto, he] at hon
          exact (Option.some.inj hon).symm
        simp [messagesTo, messageFor, Msg.isTo, hreq, hws, hact, hto]
      · simp [messagesTo, messageFor, Msg.isTo, hreq, hws, hto]
    · have hto : m.toname.str ≠ name := by
        rintro rfl
        simp [hon] at he
      simp [messagesTo, messageFor, Msg.isTo, hreq, hws, hto]
  · push Not at hreq
    have hnone : i.messageFor name = [] := by
      cases hr : i.request with
      | none => simp [messageFor, hr]
      | some m => simp [messageFor, hr, Msg.isTo, hreq m hr]
    rw [hnone, messagesTo, List.filterMap_eq_nil_iff]
    rintro ⟨fd, o⟩ hw
    cases o with
    | record m => simp [Msg.isTo, h.only hreq fd m hw]
    | raw bs => rfl
    | close => rfl

/-! ## Runs -/

theorem valid_step {s t : ServerState DB} {a : ServerAction} (hnum : s.Numbered)
    (hs : Valid s.srv.online) (hstep : serverStep sql s a = some t) : Valid t.srv.online := by
  obtain ⟨rfl, rfl⟩ | ⟨c, inp, k, srv, pc, rfl, hk, hr, rfl⟩ := serverStep_cases hstep
  · exact hs
  · intro e he
    cases sessionStep hr with
    | kept hsess =>
      have hmem : e.session ∈ s.srv.online.map Online.session := hsess ▸ List.mem_map_of_mem he
      obtain ⟨e', he', hsess'⟩ := List.mem_map.mp hmem
      exact (Prod.mk.inj hsess').1 ▸ hs e' he'
    | entered m junk hrq hlogin hon =>
      rcases List.mem_cons.mp (hon ▸ he : e ∈ (⟨k.cfd, 0, m.name.str⟩ :: s.srv.online)) with rfl | he
      · have hcfd := hnum c k hk
        dsimp only
        omega
      · exact hs e he
    | left m junk hrq hact hon =>
      have he : e ∈ unlink s.srv.online m.name.str := hon ▸ he
      exact hs e ((unlink_sublist _ _).subset he)

/-- What a run adds to the history are faithful steps, each made where the run passed. -/
theorem run_history {P : List Online → Prop} {s t : ServerState DB} {as : List ServerAction}
    (hnum : s.Numbered) (hs : Valid s.srv.online)
    (hp : (serverMachine sql).EachState (fun u => P u.srv.online) s as)
    (h : (serverMachine sql).run s as = some t) :
    ∃ is, t.history = s.history ++ is ∧ ∀ i ∈ is, i.Faithful ∧ P i.before := by
  induction as generalizing s with
  | nil =>
    obtain rfl := Option.some.inj h
    exact ⟨[], by simp, by simp⟩
  | cons a as ih =>
    obtain ⟨u, hu, hrun⟩ := run_cons_eq_some.mp h
    obtain ⟨is, hhistory, his⟩ := ih (numbered_step hnum hu) (valid_step hnum hs hu) (hp.2 u hu) hrun
    obtain ⟨rfl, rfl⟩ | ⟨c, inp, k, srv, pc, rfl, hk, hr, rfl⟩ := serverStep_cases hu
    · exact ⟨is, hhistory, his⟩
    · refine ⟨served sql s.srv srv k inp :: is, by simpa using hhistory, fun i hi => ?_⟩
      rcases List.mem_cons.mp hi with rfl | hi
      · exact ⟨served_faithful hs hr, hp.first⟩
      · exact his i hi

/-- Every private message is answered once, by itself to the first entry of its addressee or
by -2 to its sender. While this entry stays the first one, what a connection has written to it
are its private messages for the name, in their order. -/
theorem privateMessages_delivered (sql : Sqlite DB) (db : DB) (as : List ServerAction)
    (t : ServerState DB)
    (h : (serverMachine sql).run (ServerState.start (Server.start db)) as = some t) :
    (∀ i ∈ t.history, ∀ m, i.request = some m → m.action = 2 → i.Delivers m) ∧
      ∀ (before stretch : List ServerAction) (s : ServerState DB) (name : Bytes) (fd a : ℤ),
        as = before ++ stretch →
        (serverMachine sql).run (ServerState.start (Server.start db)) before = some s →
        (serverMachine sql).EachState
          (fun u => (getOnline u.srv.online name).map Online.cfd = some fd) s stretch →
        ((t.history.drop s.history.length).filter (fun i => i.cfd = a)).flatMap
            (Served.messagesTo fd name) =
          ((t.history.drop s.history.length).filter (fun i => i.cfd = a)).flatMap
            (Served.messageFor name) := by
  have hnum : (ServerState.start (Server.start db)).Numbered :=
    fun c k hk => by simp [ServerState.start] at hk
  have hvalid : Valid (ServerState.start (Server.start db)).srv.online :=
    fun e he => by simp [ServerState.start, Server.start] at he
  constructor
  · obtain ⟨is, hhistory, his⟩ := run_history (P := fun _ => True) hnum hvalid
      (eachState_of_forall fun _ => trivial) h
    intro i hi
    rw [hhistory] at hi
    exact (his i (by simpa [ServerState.start] using hi)).1.delivers
  · rintro before stretch s name fd a rfl hs hfirst
    have hinv := run_invariant (I := fun u : ServerState DB => u.Numbered ∧ Valid u.srv.online)
      (fun u b v hu hstep => ⟨numbered_step hu.1 hstep, valid_step hu.1 hu.2 hstep⟩)
      ⟨hnum, hvalid⟩ hs
    have hrest : (serverMachine sql).run s stretch = some t := by
      rwa [run_append, hs] at h
    obtain ⟨is, hhistory, his⟩ := run_history
      (P := fun online => (getOnline online name).map Online.cfd = some fd) hinv.1 hinv.2 hfirst hrest
    rw [hhistory, List.drop_left]
    refine List.flatMap_congr fun i hi => ?_
    obtain ⟨hfaithful, hon⟩ := his i (List.mem_of_mem_filter hi)
    obtain ⟨e, he, rfl⟩ := Option.map_eq_some_iff.mp hon
    exact hfaithful.messagesTo_eq he

def messageToR (bs : Bytes) : Msg :=
  { Msg.zero with action := 2, toname := .ofBytes 20 [114], message := .ofBytes 1024 bs }

/-- Two messages of one connection for `r`, one of `r` for itself in between, one for nobody. -/
def fourMessages : List ServerAction :=
  [.serve 1 (.record (messageToR [49]) (.zero 20)), .serve 0 (.record (messageToR [50]) (.zero 20)),
    .serve 1 (.record { messageToR [51] with toname := .ofBytes 20 [115] } (.zero 20)),
    .serve 1 (.record (messageToR [52]) (.zero 20))]

/-- In the stretch behind the login of `r`, connection 1 has its two messages written, in order. -/
theorem fourMessages_delivered :
    ∃ s t, (serverMachine passwordFortyTwo).run (ServerState.start (Server.start ()))
        [.accept, .accept, .serve 0 (.record loginR (.zero 20))] = some s ∧
      (serverMachine passwordFortyTwo).run s fourMessages = some t ∧
      ((t.history.drop s.history.length).filter (fun i => i.cfd = 1)).flatMap
        (Served.messagesTo 0 [114]) = [messageToR [49], messageToR [52]] := by
  refine ⟨_, _, rfl, rfl, ?_⟩
  refine ((privateMessages_delivered passwordFortyTwo ()
    ([.accept, .accept, .serve 0 (.record loginR (.zero 20))] ++ fourMessages) _ rfl).2
    [.accept, .accept, .serve 0 (.record loginR (.zero 20))] fourMessages _ [114] 0 1 rfl rfl
    ?_).trans ?_
  · decide +kernel
  · decide +kernel

end LinuxCat.ServerModel
