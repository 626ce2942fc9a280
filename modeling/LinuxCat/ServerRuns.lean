import LinuxCat.LabelledMachines
import LinuxCat.ServerModel
import LinuxCat.WaitQueues

/-! # Runs of the server

Any number of connections are served at once, their handlers interleaved piece by piece.
A descriptor is the number of its connection in the order of `accept`; no number is used
twice. -/
namespace LinuxCat.ServerModel
open LabelledMachines ByteLayouts Messages

variable {DB : Type}

/-- What `querypassword` or `query_manager_password` returned for a login request. -/
def credentialCheck (sql : Sqlite DB) (junk : CharArray 20) (db : DB) (pmsg : Msg) : Option ℤ :=
  if pmsg.action = 1 then some (querypassword sql db junk pmsg).2
  else if pmsg.action = 7 then some (queryManagerPassword sql db junk pmsg).2
  else none

/-- One step of a handler, as the history keeps it. -/
structure Served where
  cfd : ℤ
  /-- the record `thread_read` switched on, if the step was a `recv` -/
  request : Option Msg
  check : Option ℤ
  before : List Online
  after : List Online
  writes : List (ℤ × Out)
  deriving DecidableEq, Repr

structure ServerState (DB : Type) where
  srv : Server DB
  handlers : List Handler
  history : List Served
  deriving DecidableEq, Repr

inductive ServerAction
  | accept
  | serve (c : ℕ) (inp : Input)
  deriving DecidableEq, Repr

/-- The record on which `thread_read` switches in this step, and the junk of its buffer. -/
def requested (pc : Pc) (inp : Input) : Option (Msg × CharArray 20) :=
  match pc, inp with
  | .recv, .record m junk => some (m, junk)
  | .recv, .failed junk => some (.zero, junk)
  | _, _ => none

theorem recv_of_requested {pc : Pc} {inp : Input} {r : Msg × CharArray 20}
    (h : requested pc inp = some r) : pc = .recv := by
  cases pc <;> simp_all [requested]

/-- A step with a request is the `switch` on it. -/
theorem threadReadPc_requested {sql : Sqlite DB} {srv : Server DB} {cfd : ℤ} {pc : Pc} {inp : Input}
    {m : Msg} {junk : CharArray 20} (h : requested pc inp = some (m, junk)) :
    threadReadPc sql srv cfd pc inp = some (dispatch sql junk srv cfd m) := by
  obtain rfl := recv_of_requested h
  cases inp <;> simp_all [requested, threadReadPc]

theorem eq_dispatch {sql : Sqlite DB} {srv : Server DB} {cfd : ℤ} {pc : Pc} {inp : Input}
    {m : Msg} {junk : CharArray 20} {r : Server DB × Pc} (hm : requested pc inp = some (m, junk))
    (h : threadReadPc sql srv cfd pc inp = some r) : r = dispatch sql junk srv cfd m :=
  Option.some.inj (h.symm.trans (threadReadPc_requested hm))

/-- A `recv` that brings no request is the end of the connection. -/
theorem threadReadPc_unrequested {sql : Sqlite DB} {srv : Server DB} {cfd : ℤ} {inp : Input}
    {r : Server DB × Pc} (h : threadReadPc sql srv cfd .recv inp = some r)
    (hreq : requested .recv inp = none) : inp = .closed ∧ r = (srv, .exited) := by
  cases inp with
  | closed => exact ⟨rfl, (Option.some.inj h).symm⟩
  | failed junk => cases hreq
  | record m junk => cases hreq
  | go => cases h
  | data bs => cases h
  | dataFailed => cases h

def served (sql : Sqlite DB) (srv srv' : Server DB) (h : Handler) (inp : Input) : Served where
  cfd := h.cfd
  request := (requested h.pc inp).map Prod.fst
  check := (requested h.pc inp).bind (fun r => credentialCheck sql r.2 srv.db r.1)
  before := srv.online
  after := srv'.online
  writes := srv'.written.drop srv.written.length

def ServerState.faulted (s : ServerState DB) : Bool := s.handlers.any (fun h => h.pc = .fault)

def serverStep (sql : Sqlite DB) (s : ServerState DB) : ServerAction → Option (ServerState DB)
  | .accept =>
    if s.faulted then none
    else some { s with handlers := s.handlers ++ [⟨s.handlers.length, .recv⟩] }
  | .serve c inp =>
    if s.faulted then none
    else
      (s.handlers[c]?).bind (fun h => (threadRead sql s.srv h inp).map (fun r =>
        { srv := r.1
          handlers := s.handlers.set c r.2
          history := s.history ++ [served sql s.srv r.1 h inp] }))

def serverMachine (sql : Sqlite DB) : Machine (ServerState DB) ServerAction where
  step := serverStep sql

def ServerState.start (srv : Server DB) : ServerState DB := ⟨srv, [], []⟩

/-- `n` sessions, of which `online` are logged in. -/
def ServerState.sessions (db : DB) (online : List Online) (n : ℕ) : ServerState DB where
  srv := { Server.start db with online := online }
  handlers := (List.range n).map (fun i : ℕ => ⟨i, .recv⟩)
  history := []

/-- The record a step switches on. -/
def ServerState.requestOf (s : ServerState DB) : ServerAction → Option Msg
  | .accept => none
  | .serve c inp => (s.handlers[c]?).bind (fun k => (requested k.pc inp).map Prod.fst)

theorem requestOf_serve {s : ServerState DB} {c : ℕ} {k : Handler} (inp : Input)
    (hk : s.handlers[c]? = some k) :
    s.requestOf (.serve c inp) = (requested k.pc inp).map Prod.fst := by
  simp [ServerState.requestOf, hk]

theorem requestOf_of_requested {s : ServerState DB} {c : ℕ} {k : Handler} {inp : Input} {m : Msg}
    {junk : CharArray 20} (hk : s.handlers[c]? = some k) (hm : requested k.pc inp = some (m, junk)) :
    s.requestOf (.serve c inp) = some m := by
  rw [requestOf_serve inp hk, hm]
  rfl

/-- The two kinds of step. -/
theorem serverStep_cases {sql : Sqlite DB} {s t : ServerState DB} {a : ServerAction}
    (h : serverStep sql s a = some t) :
    (a = .accept ∧ t = { s with handlers := s.handlers ++ [⟨s.handlers.length, .recv⟩] }) ∨
      ∃ c inp k srv pc, a = .serve c inp ∧ s.handlers[c]? = some k ∧
        threadReadPc sql s.srv k.cfd k.pc inp = some (srv, pc) ∧
        t = { srv := srv
              handlers := s.handlers.set c { k with pc := pc }
              history := s.history ++ [served sql s.srv srv k inp] } := by
  cases a with
  | accept =>
    simp only [serverStep] at h
    split_ifs at h
    exact .inl ⟨rfl, (Option.some.inj h).symm⟩
  | serve c inp =>
    simp only [serverStep] at h
    split_ifs at h
    obtain ⟨k, hk, hstep⟩ := Option.bind_eq_some_iff.mp h
    simp only [threadRead, Option.map_map, Option.map_eq_some_iff] at hstep
    obtain ⟨⟨srv, pc⟩, hr, rfl⟩ := hstep
    exact .inr ⟨c, inp, k, srv, pc, rfl, hk, hr, rfl⟩

/-- Nothing is behind a fault. -/
theorem not_faulted_of_step {sql : Sqlite DB} {s t : ServerState DB} {a : ServerAction}
    (h : serverStep sql s a = some t) : s.faulted = false := by
  by_contra hfault
  cases a <;> simp [serverStep, hfault] at h

/-- The same two, where a step writes down more than the server does. -/
theorem notedStep_cases {sql : Sqlite DB} {σ : Type} {s : ServerState DB} {u : σ}
    {a : ServerAction} (accepted : ServerState DB → σ)
    (note : ServerState DB → ℕ → Handler → Handler → σ)
    (h : (serverStep sql s a).bind (fun t =>
      match a with
      | .accept => some (accepted t)
      | .serve c _ => (s.handlers[c]?).bind (fun k => (t.handlers[c]?).map (fun k' =>
        note t c k k'))) = some u) :
    (a = .accept ∧
        u = accepted { s with handlers := s.handlers ++ [⟨s.handlers.length, .recv⟩] }) ∨
      ∃ c inp k srv pc, a = .serve c inp ∧ s.handlers[c]? = some k ∧
        threadReadPc sql s.srv k.cfd k.pc inp = some (srv, pc) ∧
        u = note { srv := srv
                   handlers := s.handlers.set c { k with pc := pc }
                   history := s.history ++ [served sql s.srv srv k inp] } c k { k with pc := pc } := by
  obtain ⟨t, hstep, h⟩ := Option.bind_eq_some_iff.mp h
  obtain ⟨rfl, rfl⟩ | ⟨c, inp, k, srv, pc, rfl, hk, hr, rfl⟩ := serverStep_cases hstep
  · exact .inl ⟨rfl, (Option.some.inj h).symm⟩
  · have hlt := (List.getElem?_eq_some_iff.mp hk).1
    simp only [hk, List.getElem?_set_self hlt, Option.bind_some, Option.map_some,
      Option.some.injEq] at h
    exact .inr ⟨c, inp, k, srv, pc, rfl, hk, hr, h.symm⟩

/-! ## What a handler's step does to the history of writes -/

/-- The step appends `ws` to what was written. -/
def Appends (srv srv' : Server DB) (ws : List (ℤ × Out)) : Prop :=
  srv'.written = srv.written ++ ws

theorem Appends.drop {srv srv' : Server DB} {ws : List (ℤ × Out)} (h : Appends srv srv' ws) :
    srv'.written.drop srv.written.length = ws := by
  rw [h, List.drop_left]

end LinuxCat.ServerModel
