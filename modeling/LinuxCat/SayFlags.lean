import LinuxCat.OnlineSessions

/-! # What a step does to the list as a whole

The sessions say who is in the list; here are the `say` flags as well. Only actions 8 and -8
touch a flag, each of the first entry of one name. -/
namespace LinuxCat.ServerModel
open LabelledMachines LabelledMachines.Machine ByteLayouts Messages

variable {DB : Type} {sql : Sqlite DB}

/-! ## Reading the list after a change -/

theorem getOnline_setSay_self (online : List Online) (name : Bytes) (say : ℤ) :
    getOnline (setSay online name say) name =
      (getOnline online name).map (fun e => { e with say := say }) := by
  induction online with
  | nil => rfl
  | cons e online ih =>
    by_cases he : e.name = name
    · simp [setSay, getOnline, he]
    · simp [setSay, getOnline, he, ih]

theorem getOnline_setSay_of_ne {name name' : Bytes} (h : name ≠ name') (online : List Online)
    (say : ℤ) : getOnline (setSay online name say) name' = getOnline online name' := by
  induction online with
  | nil => rfl
  | cons e online ih =>
    simp only [setSay]
    split_ifs with he
    · simp [getOnline, he, h]
    · simp only [getOnline, ih]

theorem getOnline_unlink_of_ne {name name' : Bytes} (h : name ≠ name') (online : List Online) :
    getOnline (unlink online name) name' = getOnline online name' := by
  induction online with
  | nil => rfl
  | cons e online ih =>
    simp only [unlink]
    split_ifs with he
    · simp [getOnline, he, h]
    · simp only [getOnline, ih]

theorem setSay_of_none {online : List Online} {name : Bytes} (h : getOnline online name = none)
    (say : ℤ) : setSay online name say = online := by
  induction online with
  | nil => rfl
  | cons e online ih =>
    simp only [getOnline] at h
    split_ifs at h with he
    simp [setSay, he, ih h]

/-- The flag is set to what it is. -/
theorem setSay_eq_self_iff {online : List Online} {name : Bytes} {say : ℤ} :
    setSay online name say = online ↔ ∀ e, getOnline online name = some e → e.say = say := by
  induction online with
  | nil => simp [setSay, getOnline]
  | cons e online ih =>
    by_cases he : e.name = name
    · simp only [setSay, getOnline, he, if_true, List.cons.injEq, and_true, Option.some.injEq,
        forall_eq']
      constructor
      · intro h
        exact (congrArg Online.say h).symm
      · intro h
        cases e
        simp_all
    · simp [setSay, getOnline, he, ih]

theorem setSay_setSay (online : List Online) (name : Bytes) (say say' : ℤ) :
    setSay (setSay online name say) name say' = setSay online name say' := by
  induction online with
  | nil => rfl
  | cons e online ih =>
    by_cases he : e.name = name
    · simp [setSay, he]
    · simp [setSay, he, ih]

/-! ## The effect of a step -/

/-- What the `switch` on `m` makes of the list. -/
inductive ListEffect (sql : Sqlite DB) (junk : CharArray 20) (srv : Server DB) (cfd : ℤ) (m : Msg)
    (online : List Online) : Prop
  | same (hact : m.action ∉ [8, -8, 10]) (hlogin : ¬ LogsIn sql junk srv.db m)
      (hon : online = srv.online)
  | muted (hact : m.action = 8) (hon : online = setSay srv.online m.toname.str 1)
  | unmuted (hact : m.action = -8) (hon : online = setSay srv.online m.name.str 0)
  | entered (hlogin : LogsIn sql junk srv.db m)
      (hon : online = ⟨cfd, 0, m.name.str⟩ :: srv.online)
  | left (hact : m.action = 10) (hon : online = unlink srv.online m.name.str)

theorem caseSay_online (srv : Server DB) (cfd : ℤ) (m : Msg) (target : Bytes) (say : ℤ) :
    (caseSay srv cfd m target say).1.online = setSay srv.online target say := by
  unfold caseSay
  split
  next h => exact (setSay_of_none h say).symm
  next => rfl

theorem dispatch_online {junk : CharArray 20} {srv : Server DB} {cfd : ℤ} {m : Msg}
    (h : m.action ∉ [1, 7, 8, -8, 10]) : (dispatch sql junk srv cfd m).1.online = srv.online := by
  simp only [List.mem_cons, List.not_mem_nil, or_false, not_or] at h
  obtain ⟨h1, h7, h8, hm8, h10⟩ := h
  refine dispatch_cases (P := fun r => r.1.online = srv.online) sql junk srv cfd m (fun _ => ?_)
    (fun h => absurd h h1) (fun _ => ?_) (fun _ => ?_) (fun _ => ?_) (fun _ => ?_) (fun _ => rfl)
    (fun _ => ?_) (fun h => absurd h h7) (fun h => absurd h h8) (fun h => absurd h hm8)
    (fun _ => rfl) (fun h => absurd h h10) rfl
  · simp only [case0]
    split <;> rfl
  · simp only [case2]
    split <;> rfl
  · simp only [case3]
    split
    · rfl
    · split <;> rfl
  · simp only [case4]
    split
    · rfl
    · split_ifs <;> rfl
  · simp only [case5]
    split <;> rfl
  · unfold case6
    split <;> rfl

theorem dispatch_listEffect (sql : Sqlite DB) (junk : CharArray 20) (srv : Server DB) (cfd : ℤ)
    (m : Msg) : ListEffect sql junk srv cfd m (dispatch sql junk srv cfd m).1.online := by
  by_cases hother : m.action ∈ [1, 7, 8, -8, 10]
  · simp only [List.mem_cons, List.not_mem_nil, or_false] at hother
    rcases hother with h | h | h | h | h
    · rw [dispatch_eq_case1 h]
      rcases case1_cases sql junk srv cfd m with ⟨hq, heq⟩ | ⟨hq, heq⟩
      · rw [heq]
        exact .same (by simp [h]) (by simp [LogsIn, h, hq]) rfl
      · rw [heq]
        exact .entered (.inl ⟨h, hq⟩) rfl
    · rw [dispatch_eq_case7 h, case7_eq]
      exact .entered (.inr h) rfl
    · rw [dispatch_eq_case8 h]
      exact .muted h (caseSay_online srv cfd m m.toname.str 1)
    · rw [dispatch_eq_caseMinus8 h]
      exact .unmuted h (caseSay_online srv cfd m m.name.str 0)
    · rw [dispatch_eq_case10 h]
      exact .left h rfl
  · have hon : (dispatch sql junk srv cfd m).1.online = srv.online := dispatch_online hother
    simp only [List.mem_cons, List.not_mem_nil, or_false, not_or] at hother
    exact .same (by simp [hother]) (by simp [LogsIn, hother]) hon

theorem relayLoop_online (srv : Server DB) (cfd : ℤ) (m : Msg) (tofd n : ℤ) :
    (relayLoop srv cfd m tofd n).1.online = srv.online := by
  unfold relayLoop
  split <;> rfl

theorem relayTest_online (srv : Server DB) (cfd : ℤ) (m : Msg) (tofd n : ℤ) :
    (relayTest srv cfd m tofd n).1.online = srv.online := by
  unfold relayTest
  split
  · rfl
  · exact relayLoop_online srv cfd m tofd n

/-- A step that reads no request leaves the list alone. -/
theorem unrequested_online {srv : Server DB} {cfd : ℤ} {pc : Pc} {inp : Input}
    {r : Server DB × Pc} (h : threadReadPc sql srv cfd pc inp = some r)
    (hreq : requested pc inp = none) : r.1.online = srv.online := by
  cases pc with
  | recv =>
    obtain ⟨-, rfl⟩ := threadReadPc_unrequested h hreq
    rfl
  | relay m tofd n =>
    simp only [threadReadPc, relayFirst] at h
    split at h
    · split_ifs at h <;> cases h
      · exact relayTest_online _ cfd m tofd _
      · exact relayTest_online srv cfd m tofd n
    · cases h
      exact relayTest_online srv cfd m tofd n
    · cases h
  | relayRest m tofd n =>
    simp only [threadReadPc, relaySecond] at h
    split at h
    · split_ifs at h <;> cases h
      · exact relayLoop_online _ cfd m tofd _
      · rfl
    · cases h
      exact relayLoop_online srv cfd m tofd _
    · cases h
  | search m i =>
    simp only [threadReadPc] at h
    split_ifs at h
    obtain ⟨slot, -, rfl⟩ := Option.map_eq_some_iff.mp h
    split_ifs
    · unfold sendFile
      split <;> rfl
    · rfl
  | register m i =>
    simp only [threadReadPc] at h
    split_ifs at h
    obtain ⟨slot, -, rfl⟩ := Option.map_eq_some_iff.mp h
    split_ifs <;> rfl
  | notify m fd =>
    simp only [threadReadPc] at h
    split_ifs at h
    cases h
    rfl
  | insertPerson m =>
    simp only [threadReadPc] at h
    split_ifs at h
    cases h
    rfl
  | cancelled =>
    simp only [threadReadPc] at h
    split_ifs at h
    cases h
    rfl
  | spinning =>
    simp only [threadReadPc] at h
    split_ifs at h
    cases h
    rfl
  | fault => cases h
  | exited => cases h

/-- What a step of the server does to the list. -/
inductive ListStep (sql : Sqlite DB) (s t : ServerState DB) (a : ServerAction) : Prop
  | unrequested (hreq : s.requestOf a = none) (hon : t.srv.online = s.srv.online)
  | requested (c : ℕ) (inp : Input) (k : Handler) (m : Msg) (junk : CharArray 20)
      (ha : a = .serve c inp) (hk : s.handlers[c]? = some k)
      (hreq : requested k.pc inp = some (m, junk))
      (heffect : ListEffect sql junk s.srv k.cfd m t.srv.online)

theorem listStep {s t : ServerState DB} {a : ServerAction} (h : serverStep sql s a = some t) :
    ListStep sql s t a := by
  obtain ⟨rfl, rfl⟩ | ⟨c, inp, k, srv, pc, rfl, hk, hr, rfl⟩ := serverStep_cases h
  · exact .unrequested rfl rfl
  · cases hreq : requested k.pc inp with
    | none => exact .unrequested (by rw [requestOf_serve inp hk, hreq]; rfl) (unrequested_online hr hreq)
    | some q =>
      obtain ⟨m, junk⟩ := q
      obtain rfl : srv = (dispatch sql junk s.srv k.cfd m).1 :=
        congrArg Prod.fst (eq_dispatch hreq hr)
      exact .requested c inp k m junk rfl hk hreq (dispatch_listEffect sql junk s.srv k.cfd m)

end LinuxCat.ServerModel
