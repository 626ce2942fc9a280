import LinuxCat.ServerRuns

/-! # Messages to everybody

Action 4 looks for its sender in the list and stops at the first entry: the pointer is never
moved on, so the loop ends only where the search needs no step. -/
namespace LinuxCat.ServerModel
open LabelledMachines LabelledMachines.Machine ByteLayouts Messages

variable {DB : Type} {sql : Sqlite DB}

/-- One handler alone, with what it meets as labels. -/
def threadMachine (sql : Sqlite DB) (cfd : ℤ) : Machine (Server DB × Pc) Input where
  step s inp := threadReadPc sql s.1 cfd s.2 inp

/-- What a message to everybody has to write: itself to every entry, or to a muted sender the
notice that he is. -/
def groupWrites (online : List Online) (cfd : ℤ) (m : Msg) : List (ℤ × Out) :=
  match getOnline online m.name.str with
  | none => []
  | some e =>
    if e.say = 1 then [(cfd, .record { m with action := 7 })]
    else online.map (fun e => (e.cfd, .record m))

/-- The handler comes back to its `recv`, and has written this. -/
def Answers (sql : Sqlite DB) (srv : Server DB) (cfd : ℤ) (m : Msg) (junk : CharArray 20)
    (ws : List (ℤ × Out)) : Prop :=
  ∃ n srv', (threadMachine sql cfd).run (srv, .recv) (.record m junk :: List.replicate n .go) =
    some (srv', .recv) ∧ Appends srv srv' ws

theorem run_spinning {srv : Server DB} {cfd : ℤ} {as : List Input} {r : Server DB × Pc}
    (h : (threadMachine sql cfd).run (srv, .spinning) as = some r) : r = (srv, .spinning) := by
  refine run_invariant (I := fun r : Server DB × Pc => r = (srv, .spinning)) ?_ rfl h
  rintro s inp t rfl hstep
  simp only [threadMachine, threadReadPc] at hstep
  split_ifs at hstep
  exact (Option.some.inj hstep).symm

/-- A handler that spins answers nothing. -/
theorem not_answers_of_spinning {srv srv' : Server DB} {cfd : ℤ} {m : Msg} {junk : CharArray 20}
    (h : dispatch sql junk srv cfd m = (srv', .spinning)) (ws : List (ℤ × Out)) :
    ¬ Answers sql srv cfd m junk ws := by
  rintro ⟨n, srv'', hrun, -⟩
  obtain ⟨r, hr, hrest⟩ := run_cons_eq_some.mp hrun
  have hr : some (dispatch sql junk srv cfd m) = some r := hr
  rw [h] at hr
  rw [← Option.some.inj hr] at hrest
  cases run_spinning hrest

/-- A handler that is back at its `recv` at once. -/
theorem answers_of_recv {srv srv' : Server DB} {cfd : ℤ} {m : Msg} {junk : CharArray 20}
    {ws : List (ℤ × Out)} (h : dispatch sql junk srv cfd m = (srv', .recv))
    (hws : Appends srv srv' ws) : Answers sql srv cfd m junk ws := by
  refine ⟨0, srv', run_cons_eq_some.mpr ⟨(srv', .recv), ?_, rfl⟩, hws⟩
  simp [threadMachine, threadReadPc, h]

theorem case4_nil {srv : Server DB} {cfd : ℤ} {m : Msg} (hon : srv.online = []) :
    case4 sql srv cfd m = ({ srv with db := insertDataMessage sql srv.db m }, .recv) := by
  simp [case4, hon]

/-- The first entry is the sender's. -/
theorem case4_found (sql : Sqlite DB) {srv : Server DB} (cfd : ℤ) {m : Msg} {e : Online} {online : List Online}
    (hon : srv.online = e :: online) (he : e.name = m.name.str) :
    ∃ srv', case4 sql srv cfd m = (srv', .recv) ∧
      Appends srv srv' (groupWrites srv.online cfd m) := by
  have hget : getOnline srv.online m.name.str = some e := by simp [hon, getOnline, he]
  let stored := { srv with db := insertDataMessage sql srv.db m }
  by_cases hsay : e.say = 1
  · refine ⟨stored.write cfd (.record { m with action := 7 }), ?_, ?_⟩
    · simp [case4, hon, he, hsay, stored]
    · simp [groupWrites, hget, hsay, Appends, Server.write, stored]
  · refine ⟨stored.toAll m, ?_, ?_⟩
    · simp [case4, hon, he, hsay, stored]
    · simp [groupWrites, hget, hsay, Appends, Server.toAll, stored]

/-- The first entry is somebody else's. -/
theorem case4_spins (sql : Sqlite DB) {srv : Server DB} (cfd : ℤ) {m : Msg} {e : Online} {online : List Online}
    (hon : srv.online = e :: online) (he : e.name ≠ m.name.str) :
    case4 sql srv cfd m = ({ srv with db := insertDataMessage sql srv.db m }, .spinning) := by
  simp [case4, hon, he]

/-- A message to everybody is answered as it should be exactly if its sender's is the first
entry of the list, or the list has none. -/
theorem groupMessage_answered_iff (sql : Sqlite DB) (srv : Server DB) (cfd : ℤ) (m : Msg)
    (junk : CharArray 20) (h : m.action = 4) :
    Answers sql srv cfd m junk (groupWrites srv.online cfd m) ↔
      ∀ e, srv.online.head? = some e → e.name = m.name.str := by
  cases hon : srv.online with
  | nil =>
    refine iff_of_true (answers_of_recv ((dispatch_eq_case4 h).trans (case4_nil hon)) ?_) (by simp)
    simp [groupWrites, getOnline, Appends]
  | cons e online =>
    rw [← hon]
    by_cases he : e.name = m.name.str
    · obtain ⟨srv', hcase, hws⟩ := case4_found sql cfd hon he
      exact iff_of_true (answers_of_recv ((dispatch_eq_case4 h).trans hcase) hws) (by simp [hon, he])
    · refine iff_of_false (not_answers_of_spinning ((dispatch_eq_case4 h).trans (case4_spins sql cfd hon he)) _) ?_
      simpa [hon] using he

/-- `a` was in the list before `b`, so `b` stands first. -/
def twoOnline : Server Unit := { Server.start () with online := [⟨1, 0, [98]⟩, ⟨0, 0, [97]⟩] }

/-- A message of the user with this one-byte name to everybody. -/
def groupMessage (name : UInt8) : Msg := { Msg.zero with action := 4, name := .ofBytes 20 [name] }

/-- The message of `a` is never sent. -/
theorem groupMessage_of_second_spins :
    groupWrites twoOnline.online 0 (groupMessage 97) =
        [(1, .record (groupMessage 97)), (0, .record (groupMessage 97))] ∧
      ¬ Answers Sqlite.silent twoOnline 0 (groupMessage 97) (.zero 20)
        (groupWrites twoOnline.online 0 (groupMessage 97)) := by
  have hfirst : (⟨1, 0, [98]⟩ : Online).name ≠ (groupMessage 97).name.str := by decide +kernel
  have hlist : twoOnline.online = ⟨1, 0, [98]⟩ :: [⟨0, 0, [97]⟩] := rfl
  have hspins := case4_spins Sqlite.silent 0 hlist hfirst
  exact ⟨by decide +kernel, not_answers_of_spinning ((dispatch_eq_case4 rfl).trans hspins) _⟩

/-- That of `b` is. -/
theorem groupMessage_of_first_answered :
    (groupMessage 98).action = 4 ∧
      Answers Sqlite.silent twoOnline 1 (groupMessage 98) (.zero 20)
        (groupWrites twoOnline.online 1 (groupMessage 98)) := by
  refine ⟨rfl, (groupMessage_answered_iff Sqlite.silent twoOnline 1 _ (.zero 20) rfl).mpr ?_⟩
  rintro e he
  cases he
  decide +kernel

end LinuxCat.ServerModel
