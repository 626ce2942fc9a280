import LinuxCat.SayFlags
import Mathlib.Data.List.Nodup

/-! # The ids of transfers

Action 3 marks the first free place of `addr`, and nothing ever frees one. The ids of a run are
0, 1, 2 and so on: they are told apart, but soon they leave the table of the receiver, and at
last `addr` itself. -/
namespace LinuxCat.ServerModel
open LabelledMachines LabelledMachines.Machine ByteLayouts Messages

variable {DB : Type} {sql : Sqlite DB}

/-- The step handles an action 3 for a user who is online. -/
def Served.accepts (i : Served) : Bool :=
  i.request.any (fun m => m.action = 3 ∧ findFd i.before m.toname.str ≠ -1)

/-- The ids in the replies of the step. -/
def Served.ids (i : Served) : List ℤ :=
  i.writes.filterMap (fun w =>
    match w.2 with
    | .record r => if r.action = 3 then some r.sfileId else none
    | _ => none)

def ServerState.accepted (s : ServerState DB) : ℕ := s.history.countP Served.accepts

def ServerState.ids (s : ServerState DB) : List ℤ := s.history.flatMap Served.ids

/-- What the two programs need of the ids: every request gets one, it is a place of `addr`, which
has 100, and of `gconn`, which has 20, and no two requests share one. No id is given back, so
this is said of all transfers, whether their blocks are relayed or not. -/
structure IdsValid (s : ServerState DB) : Prop where
  stops : ∀ i ∈ s.history, i.accepts = true → i.ids ≠ []
  inside : ∀ id ∈ s.ids, 0 ≤ id ∧ id < 100 ∧ id < 20
  distinct : s.ids.Nodup

theorem findIdx_free (n k : ℕ) : (List.replicate n (1 : ℤ) ++ List.replicate k 0).findIdx?
    (fun a => decide (a ≠ 1)) = if k = 0 then none else some n := by
  cases k with
  | zero => simp
  | succ k =>
    rw [if_neg (by omega), List.findIdx?_eq_some_iff_getElem]
    refine ⟨by simp, by simp, fun j hj => ?_⟩
    simp [List.getElem_append_left, hj]

theorem set_free (n k : ℕ) (x : ℤ) : (List.replicate n x ++ List.replicate (k + 1) 0).set n x =
    List.replicate (n + 1) x ++ List.replicate k 0 := by
  induction n with
  | zero => rfl
  | succ n ih => simpa [List.replicate_succ] using ih

theorem ids_of_writes {P : Msg → Prop} {srv srv' : Server DB} {k : Handler} {inp : Input} {pc : Pc}
    (h : Writes P srv (srv', pc)) (hp : ∀ m, P m → m.action ≠ 3) :
    (served sql srv srv' k inp).ids = [] := by
  obtain ⟨ws, hws, hact⟩ := h
  have hdrop : (served sql srv srv' k inp).writes = ws := Appends.drop hws
  rw [Served.ids, hdrop, List.filterMap_eq_nil_iff]
  rintro ⟨fd, o⟩ hw
  cases o with
  | record m => simp [hp m (hact fd m hw)]
  | raw bs => rfl
  | close => rfl

/-- A step either gives away the first free id, or finds none, or has nothing to do with ids. -/
inductive IdStep (sql : Sqlite DB) (srv srv' : Server DB) (k : Handler) (inp : Input) : Prop
  | given (n : ℕ) (haccepts : (served sql srv srv' k inp).accepts = true)
      (hfree : srv.addr.findIdx? (fun a => a ≠ 1) = some n) (haddr : srv'.addr = srv.addr.set n 1)
      (hids : (served sql srv srv' k inp).ids = [(n : ℤ)])
  | exhausted (haccepts : (served sql srv srv' k inp).accepts = true)
      (hfree : srv.addr.findIdx? (fun a => a ≠ 1) = none) (haddr : srv'.addr = srv.addr)
      (hids : (served sql srv srv' k inp).ids = [])
  | other (haccepts : (served sql srv srv' k inp).accepts = false) (haddr : srv'.addr = srv.addr)
      (hids : (served sql srv srv' k inp).ids = [])

/-- Only an action 3 touches `addr`. -/
theorem addr_kept {srv : Server DB} {cfd : ℤ} {pc : Pc} {inp : Input} {r : Server DB × Pc}
    (h : threadReadPc sql srv cfd pc inp = some r)
    (hreq : ∀ m junk, requested pc inp = some (m, junk) → m.action ≠ 3) :
    r.1.addr = srv.addr := by
  cases handlerStep h with
  | plain hplain => exact hplain.addr
  | login m junk hrq hact hr =>
    rw [hr]
    rcases hact with h1 | h7
    · rw [dispatch_eq_case1 h1]
      simp only [case1]
      split_ifs <;> rfl
    · rw [dispatch_eq_case7 h7]
      rfl
  | reply m junk n hrq hact => exact absurd hact (hreq m junk hrq)
  | noId m junk hrq hact => exact absurd hact (hreq m junk hrq)
  | found m i slot hpc hslot huse hoff hr =>
    have hplain := Plain.of_sendFile hr
    exact hplain.addr
  | logout m junk hrq hact hr => rw [hr]
  | header m junk hrq hact hon hr => rw [hr]; rfl
  | registration m junk hrq hact hr => rw [hr]
  | notice m fd hpc hr => rw [hr]; rfl
  | passed m i hpc hr => rw [hr]
  | entered m i slot hpc hslot huse hr => rw [hr]
  | occupied m i hpc hr => rw [hr]

theorem idStep_accepting {srv srv' : Server DB} {k : Handler} {inp : Input} {pc : Pc} {m : Msg}
    {junk : CharArray 20} (hreq : requested k.pc inp = some (m, junk)) (hact : m.action = 3)
    (h : threadReadPc sql srv k.cfd k.pc inp = some (srv', pc)) : IdStep sql srv srv' k inp := by
  have heq := (eq_dispatch hreq h).trans (dispatch_eq_case3 hact)
  simp only [case3] at heq
  split_ifs at heq with hon
  · cases heq
    refine .other ?_ rfl ?_
    · simp [Served.accepts, served, hreq, hon]
    · simp [Served.ids, served, Server.write]
  · split at heq
    next hfree =>
      cases heq
      refine .exhausted ?_ hfree rfl ?_
      · simp [Served.accepts, served, hreq, hact, hon]
      · simp [Served.ids, served]
    next n hfree =>
      cases heq
      refine .given n ?_ hfree rfl ?_
      · simp [Served.accepts, served, hreq, hact, hon]
      · simp [Served.ids, served, Server.write, hact]

theorem idStep {srv srv' : Server DB} {k : Handler} {inp : Input} {pc : Pc}
    (h : threadReadPc sql srv k.cfd k.pc inp = some (srv', pc)) : IdStep sql srv srv' k inp := by
  cases hreq : requested k.pc inp with
  | none =>
    refine .other (by simp [Served.accepts, served, hreq]) (addr_kept h (by simp [hreq])) ?_
    exact ids_of_writes (Writes.of_unrequested h hreq) (fun m hm => by omega)
  | some q =>
    obtain ⟨m, junk⟩ := q
    by_cases h3 : m.action = 3
    · exact idStep_accepting hreq h3 h
    · refine .other (by simp [Served.accepts, served, hreq, h3]) (addr_kept h ?_) ?_
      · rintro m' junk' hm
        rw [hreq] at hm
        cases hm
        exact h3
      · have hwrites : Writes _ srv (dispatch sql junk srv k.cfd m) := Writes.dispatch
        rw [← eq_dispatch hreq h] at hwrites
        refine ids_of_writes hwrites fun m' hm' => ?_
        simp only [List.mem_cons, List.not_mem_nil, or_false] at hm'
        omega

/-! ## Runs -/

/-- The ids given so far, and the places that are taken. -/
structure IdsInOrder (s : ServerState DB) : Prop where
  addr : s.srv.addr = List.replicate (min s.accepted 100) 1 ++ List.replicate (100 - s.accepted) 0
  ids : s.ids = (List.range (min s.accepted 100)).map Nat.cast
  answered : s.accepted ≤ 100 → ∀ i ∈ s.history, i.accepts = true → i.ids ≠ []

theorem idsInOrder_start (db : DB) : IdsInOrder (ServerState.start (Server.start db)) :=
  ⟨rfl, rfl, by simp [ServerState.start]⟩

theorem idsInOrder_step {s t : ServerState DB} {a : ServerAction} (h : IdsInOrder s)
    (hstep : serverStep sql s a = some t) : IdsInOrder t := by
  obtain ⟨rfl, rfl⟩ | ⟨c, inp, k, srv, pc, rfl, hk, hr, rfl⟩ := serverStep_cases hstep
  · exact ⟨h.addr, h.ids, h.answered⟩
  let t : ServerState DB :=
    { srv := srv
      handlers := s.handlers.set c { k with pc := pc }
      history := s.history ++ [served sql s.srv srv k inp] }
  have hids : t.ids = s.ids ++ (served sql s.srv srv k inp).ids := by
    simp [t, ServerState.ids]
  have hanswered (hle : s.accepted ≤ 100) (hlast : (served sql s.srv srv k inp).accepts = true →
      (served sql s.srv srv k inp).ids ≠ []) : ∀ i ∈ t.history, i.accepts = true → i.ids ≠ [] :=
    WaitQueues.forall_mem_concat (h.answered hle) hlast
  change IdsInOrder t
  cases idStep hr with
  | given n haccepts hfree haddr hone =>
    have haccepted : t.accepted = s.accepted + 1 := by
      simp [t, ServerState.accepted, haccepts]
    rw [h.addr, findIdx_free] at hfree
    split_ifs at hfree with hfull
    obtain rfl : min s.accepted 100 = n := Option.some.inj hfree
    have hmin : min s.accepted 100 = s.accepted := by omega
    have hmin' : min (s.accepted + 1) 100 = s.accepted + 1 := by omega
    obtain ⟨k, hk⟩ : ∃ k, 100 - s.accepted = k + 1 := ⟨100 - s.accepted - 1, by omega⟩
    refine ⟨?_, ?_, fun hle => hanswered (by omega) fun _ => by simp [hone]⟩
    · have hk' : 100 - (s.accepted + 1) = k := by omega
      rw [haccepted, hmin', hk', ← set_free, ← hk, ← hmin]
      simpa [hmin, h.addr] using haddr
    · rw [hids, hone, h.ids, haccepted, hmin, hmin', List.range_succ, List.map_append]
      rfl
  | exhausted haccepts hfree haddr hnone =>
    have haccepted : t.accepted = s.accepted + 1 := by
      simp [t, ServerState.accepted, haccepts]
    rw [h.addr, findIdx_free] at hfree
    split_ifs at hfree with hfull
    have hmin : min (s.accepted + 1) 100 = min s.accepted 100 := by omega
    have hzero : 100 - (s.accepted + 1) = 100 - s.accepted := by omega
    refine ⟨?_, ?_, fun hle => by omega⟩
    · rw [haccepted, hmin, hzero, ← h.addr]
      exact haddr
    · rw [hids, hnone, List.append_nil, h.ids, haccepted, hmin]
  | other haccepts haddr hnone =>
    have haccepted : t.accepted = s.accepted := by
      simp [t, ServerState.accepted, haccepts]
    refine ⟨?_, ?_, fun hle => hanswered (by omega) fun hacc => ?_⟩
    · rw [haccepted, ← h.addr]
      exact haddr
    · rw [hids, hnone, List.append_nil, h.ids, haccepted]
    · simp [haccepts] at hacc

theorem idsValid_iff_accepted_le {s : ServerState DB} (h : IdsInOrder s) :
    IdsValid s ↔ s.accepted ≤ 20 := by
  constructor
  · intro hvalid
    by_contra hmore
    have hmem : (20 : ℤ) ∈ s.ids := by
      rw [h.ids]
      exact List.mem_map.mpr ⟨20, by simp; omega, rfl⟩
    have := hvalid.inside 20 hmem
    omega
  · intro hle
    refine ⟨h.answered (by omega), fun id hid => ?_, ?_⟩
    · rw [h.ids] at hid
      obtain ⟨n, hn, rfl⟩ := List.mem_map.mp hid
      rw [List.mem_range] at hn
      omega
    · rw [h.ids]
      exact List.Nodup.map Nat.cast_injective List.nodup_range

/-- The ids of a run are valid exactly as long as no more than 20 transfers were accepted. -/
theorem idsValid_iff (sql : Sqlite DB) (db : DB) (as : List ServerAction) (t : ServerState DB)
    (h : (serverMachine sql).run (ServerState.start (Server.start db)) as = some t) :
    IdsValid t ↔ t.accepted ≤ 20 :=
  idsValid_iff_accepted_le (run_invariant (fun _ _ _ hs hstep => idsInOrder_step hs hstep)
    (idsInOrder_start db) h)

/-- A request for a transfer to `r`. -/
def fileToR : Msg := { Msg.zero with action := 3, toname := .ofBytes 20 [114] }

/-- `r` logs in on connection 0, and connection 1 asks for `n` transfers to `r`, one by one. -/
def transfersToR (n : ℕ) : List ServerAction :=
  [.accept, .accept, .serve 0 (.record loginR (.zero 20))] ++
    (List.replicate n [.serve 1 (.record fileToR (.zero 20)), .serve 1 .go]).flatten

/-- The id of the 21st transfer is no place of `gconn`. -/
theorem transfersToR_leave_gconn :
    ∃ t, (serverMachine passwordFortyTwo).run (ServerState.start (Server.start ()))
        (transfersToR 21) = some t ∧ t.accepted = 21 ∧ t.ids.getLast? = some 20 ∧ ¬ IdsValid t := by
  refine ⟨_, rfl, by decide, by decide, fun h => ?_⟩
  have hinside := h.inside 20 (by decide)
  omega

theorem transfersToR_valid :
    ∃ t, (serverMachine passwordFortyTwo).run (ServerState.start (Server.start ()))
        (transfersToR 2) = some t ∧ t.ids = [0, 1] ∧ IdsValid t := by
  have hrun : (serverMachine passwordFortyTwo).run (ServerState.start (Server.start ()))
      (transfersToR 2) = some _ := rfl
  exact ⟨_, hrun, by decide,
    (idsValid_iff passwordFortyTwo () (transfersToR 2) _ hrun).mpr (by decide)⟩

end LinuxCat.ServerModel
