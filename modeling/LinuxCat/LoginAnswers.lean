import LinuxCat.VerifiedSessions

/-! # The answers to logins

A record with action 1 or -1 is what a client waits for behind its login. The server writes one for
each action 1, to the connection it has the request from, and none for another request, as long as
nobody logs in as a manager. -/
namespace LinuxCat.ServerModel
open ByteLayouts Messages

variable {DB : Type} {sql : Sqlite DB}

/-- An answer to a login. -/
def Msg.isAnswer (m : Msg) : Bool := m.action = 1 ∨ m.action = -1

/-- A login of a user. -/
def Msg.isLogin (m : Msg) : Bool := m.action = 1

theorem not_isAnswer {m : Msg} : Msg.isAnswer m = false ↔ m.action ≠ 1 ∧ m.action ≠ -1 := by
  simp [Msg.isAnswer]

theorem Writes.unanswered {srv : Server DB} {cfd : ℤ} {m : Msg} {junk : CharArray 20}
    (h1 : m.action ≠ 1) (h7 : m.action ≠ 7) :
    Writes (fun m' => Msg.isAnswer m' = false) srv (ServerModel.dispatch sql junk srv cfd m) :=
  Writes.replies.mono fun m' hreplies => by
    rw [not_isAnswer]
    rcases hreplies with ⟨h, hm⟩ | ⟨h, -⟩ | ⟨-, h⟩ | ⟨h, -⟩ | ⟨-, h⟩ | ⟨h, -⟩
    · simp only [List.mem_cons, List.not_mem_nil, or_false] at hm
      omega
    all_goals omega

/-- A step as the connections of clients see it. -/
inductive Served.Answers (i : Served) : Prop
  | other (hreq : ∀ m, i.request = some m → Msg.isLogin m = false) (hverified : ¬ i.Verified)
      (hws : ∀ fd m, (fd, Out.record m) ∈ i.writes → Msg.isAnswer m = false)
  | refused (m : Msg) (hreq : i.request = some m) (hact : m.action = 1) (hverified : ¬ i.Verified)
      (hws : i.writes = [(i.cfd, .record { m with action := -1 })])
  | letIn (m : Msg) (hreq : i.request = some m) (hact : m.action = 1) (hverified : i.Verified)
      (hws : i.writes = [(i.cfd, .record m)])

theorem served_appends {srv srv' : Server DB} {k : Handler} {inp : Input} {pc : Pc}
    (h : threadReadPc sql srv k.cfd k.pc inp = some (srv', pc)) :
    Appends srv srv' (served sql srv srv' k inp).writes := by
  have hwrites {P : Msg → Prop} (hw : Writes P srv (srv', pc)) :
      Appends srv srv' (served sql srv srv' k inp).writes := by
    obtain ⟨ws, hws, -⟩ := hw
    have hdrop : (served sql srv srv' k inp).writes = ws := Appends.drop hws
    exact hdrop ▸ hws
  cases hreq : requested k.pc inp with
  | none => exact hwrites (Writes.of_unrequested h hreq)
  | some q =>
    obtain ⟨m, junk⟩ := q
    have heq := eq_dispatch hreq h
    exact hwrites (heq ▸ Writes.replies)

theorem served_answers {srv srv' : Server DB} {k : Handler} {inp : Input} {pc : Pc}
    (h : threadReadPc sql srv k.cfd k.pc inp = some (srv', pc))
    (h7 : ∀ m junk, requested k.pc inp = some (m, junk) → m.action ≠ 7) :
    (served sql srv srv' k inp).Answers := by
  have hother (hreq : ∀ m, (served sql srv srv' k inp).request = some m → Msg.isLogin m = false)
      (hverified : ¬ (served sql srv srv' k inp).Verified)
      (hw : Writes (fun m => Msg.isAnswer m = false) srv (srv', pc)) :
      (served sql srv srv' k inp).Answers := by
    obtain ⟨ws, hws, hall⟩ := hw
    have hdrop : (served sql srv srv' k inp).writes = ws := Appends.drop hws
    exact .other hreq hverified fun fd m hm => hall fd m (hdrop ▸ hm)
  cases hreq : requested k.pc inp with
  | none =>
    refine hother (fun m hm => by simp [served, hreq] at hm)
      (by simp [Served.Verified, served, hreq]) ?_
    exact (Writes.of_unrequested h hreq).mono fun m hm => not_isAnswer.mpr (by omega)
  | some q =>
    obtain ⟨m, junk⟩ := q
    have hrequest : (served sql srv srv' k inp).request = some m := by simp [served, hreq]
    have hdispatch := eq_dispatch hreq h
    by_cases h1 : m.action = 1
    · have hcheck : (served sql srv srv' k inp).check =
          some (querypassword sql srv.db junk m).2 := by
        simp [served, hreq, credentialCheck, h1]
      have hwrites {m' : Msg} (hws : Appends srv srv' [(k.cfd, .record m')]) :
          (served sql srv srv' k inp).writes = [(k.cfd, .record m')] := hws.drop
      rw [dispatch_eq_case1 h1] at hdispatch
      rcases case1_cases sql junk srv k.cfd m with ⟨hq, heq⟩ | ⟨hq, heq⟩
      · obtain ⟨rfl, rfl⟩ := Prod.mk.inj (hdispatch.trans heq)
        exact .refused m hrequest h1 (by simp [Served.Verified, hcheck, hq]) (hwrites rfl)
      · obtain ⟨rfl, rfl⟩ := Prod.mk.inj (hdispatch.trans heq)
        exact .letIn m hrequest h1 (hcheck.trans (congrArg some hq)) (hwrites rfl)
    · have hverified : ¬ (served sql srv srv' k inp).Verified := by
        simp [Served.Verified, served, hreq, credentialCheck, h1, h7 m junk hreq]
      refine hother (fun m' hm' => ?_) hverified
        (hdispatch ▸ Writes.unanswered h1 (h7 m junk hreq))
      obtain rfl := Option.some.inj (hrequest.symm.trans hm')
      simp [Msg.isLogin, h1]

/-- All that was written is in the history. -/
def ServerState.InHistory (s : ServerState DB) : Prop :=
  s.srv.written = s.history.flatMap Served.writes

theorem inHistory_step {s t : ServerState DB} {a : ServerAction} (h : s.InHistory)
    (hstep : serverStep sql s a = some t) : t.InHistory := by
  obtain ⟨rfl, rfl⟩ | ⟨c, inp, k, srv, pc, rfl, hk, hr, rfl⟩ := serverStep_cases hstep
  · exact h
  · have happends := served_appends hr
    simp only [ServerState.InHistory] at h ⊢
    rw [happends, List.flatMap_append, h, List.flatMap_singleton]

end LinuxCat.ServerModel
