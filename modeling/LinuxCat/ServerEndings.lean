import LinuxCat.BlockRelays
import LinuxCat.LoneSessions
import LinuxCat.TransferIds

/-! # How the server ends

A handler that leaves an array or follows a null pointer ends the server for everybody. Three such
accesses are looked at here: the search for a free id, the list of users of nobody, and the buffer of
a relay. Among its clients only the first happens: nobody asks for an empty list, and a relay keeps
to its buffer as long as a block is not longer than it was announced. -/
namespace LinuxCat.ServerModel
open ByteLayouts Messages

variable {DB : Type} {sql : Sqlite DB}

/-- A handler that has made none of these accesses, and makes none at its next `recv` of a block. -/
def Pc.Bounded : Pc → Prop
  | .relay _ _ n => 0 ≤ n
  | .relayRest _ _ n => 0 ≤ n ∧ n < RECVBUF_SIZE
  | .fault => False
  | _ => True

theorem loopPc_bounded (m : Msg) (tofd n : ℤ) : (loopPc m tofd n).Bounded := by
  unfold loopPc
  split_ifs with h
  · exact h.le
  · trivial

theorem testPc_bounded {m : Msg} {n : ℤ} (tofd : ℤ) (h : 0 ≤ n) : (testPc m tofd n).Bounded := by
  unfold testPc
  split_ifs with hrest
  · exact ⟨h, hrest.trans_lt (Int.tmod_lt_of_pos _ (by decide))⟩
  · exact loopPc_bounded m tofd n

theorem sendFile_bounded (srv : Server DB) (m : Msg) (cofd tofd : ℤ) :
    (sendFile srv m cofd tofd).2.Bounded := by
  unfold sendFile
  split_ifs with h
  · exact h.le
  · trivial

theorem relayFirst_bounded {srv : Server DB} {cofd : ℤ} {m : Msg} {tofd n : ℤ} {inp : Input}
    {r : Server DB × Pc} (h : relayFirst srv cofd m tofd n inp = some r) (hn : 0 ≤ n)
    (hdata : ∀ bs, inp = .data bs → bs.length ≤ n) : r.2.Bounded := by
  cases inp with
  | data bs =>
    have hle := hdata bs rfl
    simp only [relayFirst] at h
    split_ifs at h
    · cases h
      rw [(relayTest_spec ..).1]
      exact testPc_bounded tofd (by omega)
    · cases h
      rw [(relayTest_spec ..).1]
      exact testPc_bounded tofd hn
  | dataFailed =>
    cases h
    rw [(relayTest_spec ..).1]
    exact testPc_bounded tofd hn
  | _ => cases h

theorem relaySecond_bounded {srv : Server DB} {cofd : ℤ} {m : Msg} {tofd n : ℤ} {inp : Input}
    {r : Server DB × Pc} (h : relaySecond srv cofd m tofd n inp = some r) (hn : 0 ≤ n)
    (hlt : n < RECVBUF_SIZE) : r.2.Bounded := by
  cases inp with
  | data bs =>
    simp only [relaySecond] at h
    split_ifs at h with hle hbuf
    · cases h
      rw [(relayLoop_spec ..).1]
      exact loopPc_bounded m tofd _
    · omega
  | dataFailed =>
    cases h
    rw [(relayLoop_spec ..).1]
    exact loopPc_bounded m tofd _
  | _ => cases h

/-- The `switch` makes one only in the search for an id, and for the empty list. -/
theorem dispatch_bounded {srv : Server DB} {cfd : ℤ} {m : Msg} {junk : CharArray 20}
    (hids : m.action = 3 → findFd srv.online m.toname.str ≠ -1 →
      srv.addr.findIdx? (fun a => a ≠ 1) ≠ none)
    (husers : m.action = 6 → srv.online ≠ []) : (dispatch sql junk srv cfd m).2.Bounded := by
  have hsay (target : Bytes) (say : ℤ) : (caseSay srv cfd m target say).2.Bounded := by
    unfold caseSay
    split <;> trivial
  refine dispatch_cases (P := fun r => r.2.Bounded) sql junk srv cfd m (fun _ => ?_) (fun _ => ?_)
    (fun _ => ?_) (fun h3 => ?_) (fun _ => ?_) (fun _ => ?_) (fun _ => trivial) (fun h6 => ?_)
    (fun _ => trivial) (fun _ => hsay _ _) (fun _ => hsay _ _) (fun _ => trivial) (fun _ => trivial)
    trivial
  · simp only [case0]
    split_ifs <;> trivial
  · simp only [case1]
    split_ifs <;> trivial
  · simp only [case2]
    split_ifs <;> trivial
  · simp only [case3]
    split_ifs with hon
    · trivial
    · split
      next hfull => exact absurd hfull (hids h3 hon)
      next => trivial
  · simp only [case4]
    split
    next => trivial
    next => split_ifs <;> trivial
  · simp only [case5]
    split_ifs <;> trivial
  · unfold case6
    split
    next hnil => exact absurd hnil (husers h6)
    next => trivial
    next => trivial

theorem threadRead_bounded {srv : Server DB} {cfd : ℤ} {pc : Pc} {inp : Input} {r : Server DB × Pc}
    (h : threadReadPc sql srv cfd pc inp = some r) (hpc : pc.Bounded)
    (hdata : ∀ m tofd n bs, pc = .relay m tofd n → inp = .data bs → bs.length ≤ n)
    (hids : ∀ m junk, requested pc inp = some (m, junk) → m.action = 3 →
      findFd srv.online m.toname.str ≠ -1 → srv.addr.findIdx? (fun a => a ≠ 1) ≠ none)
    (husers : ∀ m junk, requested pc inp = some (m, junk) → m.action = 6 → srv.online ≠ []) :
    r.2.Bounded := by
  cases pc with
  | recv =>
    cases hreq : requested .recv inp with
    | none =>
      obtain ⟨-, rfl⟩ := threadReadPc_unrequested h hreq
      trivial
    | some q =>
      obtain ⟨m, junk⟩ := q
      rw [eq_dispatch hreq h]
      exact dispatch_bounded (hids m junk hreq) (husers m junk hreq)
  | search m i =>
    simp only [threadReadPc] at h
    split_ifs at h
    obtain ⟨slot, -, rfl⟩ := Option.map_eq_some_iff.mp h
    split_ifs
    · exact sendFile_bounded _ m cfd slot.cfd
    · trivial
  | register m i =>
    simp only [threadReadPc] at h
    split_ifs at h
    obtain ⟨slot, -, rfl⟩ := Option.map_eq_some_iff.mp h
    split_ifs <;> trivial
  | relay m tofd n => exact relayFirst_bounded h hpc fun bs hinp => hdata m tofd n bs rfl hinp
  | relayRest m tofd n => exact relaySecond_bounded h hpc.1 hpc.2
  | insertPerson m | notify m fd | cancelled | spinning =>
    simp only [threadReadPc] at h
    split_ifs at h
    cases h
    trivial
  | fault => cases h
  | exited => cases h

/-- When no id is left the search for one leaves `addr`. -/
theorem fault_of_exhausted {srv srv' : Server DB} {k : Handler} {inp : Input} {pc : Pc}
    (h : threadReadPc sql srv k.cfd k.pc inp = some (srv', pc))
    (haccepts : (served sql srv srv' k inp).accepts = true)
    (hfree : srv.addr.findIdx? (fun a => a ≠ 1) = none) : pc = .fault := by
  obtain ⟨m, hm, hact⟩ := (Option.any_eq_true ..).mp haccepts
  obtain ⟨⟨m', junk⟩, hreq, rfl⟩ := Option.map_eq_some_iff.mp hm
  have hact : m'.action = 3 ∧ findFd srv.online m'.toname.str ≠ -1 := of_decide_eq_true hact
  have heq := (eq_dispatch hreq h).trans (dispatch_eq_case3 hact.1)
  simp only [case3, if_neg hact.2, hfree] at heq
  exact (Prod.mk.inj heq).2

end LinuxCat.ServerModel

namespace LinuxCat.ChatSystem
open LabelledMachines LabelledMachines.Machine ByteLayouts Messages ServerModel Histories

variable {DB : Type} {sql : Sqlite DB}

/-- A block that is relayed is not longer than its record says. -/
def Announced (s : System DB) : Label → Prop
  | .serve c (.data bs) =>
    ∀ n ∈ (s.server.handlers[c]?).bind (fun k => k.pc.remainSize), bs.length ≤ n
  | _ => True

instance (s : System DB) (a : Label) : Decidable (Announced s a) :=
  match a with
  | .serve c (.data bs) =>
    inferInstanceAs (Decidable (∀ n ∈ (s.server.handlers[c]?).bind (fun k => k.pc.remainSize),
      bs.length ≤ n))
  | .serve _ .closed | .serve _ (.failed _) | .serve _ (.record ..) | .serve _ .go
  | .serve _ .dataFailed => .isTrue trivial
  | .connect .. | .connectBlock | .main .. | .read .. | .serverExit _ | .kill _ => .isTrue trivial

/-- No such access was made, or a transfer was accepted without an id for it. -/
def Lasting (s : ServerState DB) : Prop :=
  (∀ k ∈ s.handlers, k.pc.Bounded) ∧ s.accepted ≤ 100 ∨ s.faulted = true ∧ s.accepted = 101

theorem not_faulted {s : ServerState DB} (h : ∀ k ∈ s.handlers, k.pc.Bounded) :
    s.faulted = false := by
  rw [ServerState.faulted, List.any_eq_false]
  intro k hk hfault
  have hbounded := h k hk
  rw [of_decide_eq_true hfault] at hbounded
  exact hbounded

/-- Whoever asks for the users is in the list itself. -/
theorem online_of_session {s : System DB} (hin : InOrder s) (hcounted : NamesCounted s.server)
    {c : ℕ} {p p' : Peer} {inp : Input} {pc : ServerModel.Pc} {m : Msg} {junk : CharArray 20}
    (hp : s.peers[c]? = some p) (hgives : Gives inp p p')
    (hreq : requested pc inp = some (m, junk)) (hof : OfSession m) : s.server.srv.online ≠ [] := by
  intro hnil
  obtain ⟨sessions, -, hmem, hperm⟩ := hcounted.now
  have hin' : ((c : ℤ), m.name.str) ∈ sessions :=
    (hmem _ _).mpr ((hin.request hp hgives hreq).2.1 hof)
  have hname := hperm.symm.subset (List.mem_map_of_mem (f := Prod.snd) hin')
  simp [hnil] at hname

theorem lasting_step {s t : System DB} {a : Label} (hin : InOrder s)
    (hcounted : NamesCounted s.server) (hids : IdsInOrder s.server) (h : Lasting s.server)
    (ha : Announced s a) (hstep : chatStep sql s a = some t) : Lasting t.server := by
  have hnow {a : ServerAction} {t : ServerState DB} (hstep : serverStep sql s.server a = some t) :
      (∀ k ∈ s.server.handlers, k.pc.Bounded) ∧ s.server.accepted ≤ 100 :=
    h.resolve_right fun hfault => by simp [not_faulted_of_step hstep] at hfault
  have haccept {t : ServerState DB} (ht : serverStep sql s.server .accept = some t) :
      Lasting t := by
    obtain ⟨hbounded, hle⟩ := hnow ht
    obtain ⟨-, rfl⟩ | ⟨c, inp, k, srv, pc, ha, -⟩ := serverStep_cases ht
    · exact .inl ⟨WaitQueues.forall_mem_concat hbounded trivial, hle⟩
    · cases ha
  cases chatStep_cases hstep with
  | connect stdin num pmsg t ht => exact haccept ht
  | connectBlock t ht => exact haccept ht
  | serve c inp p p' t hp hgive ht =>
    obtain ⟨hbounded, hle⟩ := hnow ht
    obtain ⟨ha', -⟩ | ⟨c', inp', k, srv, pc, ha', hk, hr, rfl⟩ := serverStep_cases ht
    · cases ha'
    cases ha'
    have hpc (hfree : ∀ m junk, requested k.pc inp = some (m, junk) → m.action = 3 →
        findFd s.server.srv.online m.toname.str ≠ -1 →
          s.server.srv.addr.findIdx? (fun a => a ≠ 1) ≠ none) : pc.Bounded := by
      refine threadRead_bounded hr (hbounded k (List.mem_of_getElem? hk))
        (fun m tofd n bs hpc hinp => ?_) hfree fun m junk hreq h6 => ?_
      · subst hinp
        exact ha n (by simp [hk, hpc, Pc.remainSize])
      · exact online_of_session hin hcounted hp (give_cases hgive) hreq (by simp [OfSession, h6])
    have hset (hpc : pc.Bounded) :
        ∀ k' ∈ s.server.handlers.set c { k with pc := pc }, k'.pc.Bounded :=
      WaitQueues.forall_mem_set hbounded hpc
    have hcount : ServerState.accepted
        { srv := srv
          handlers := s.server.handlers.set c { k with pc := pc }
          history := s.server.history ++ [served sql s.server.srv srv k inp] } =
        s.server.accepted + if (served sql s.server.srv srv k inp).accepts then 1 else 0 := by
      simp [ServerState.accepted, List.countP_singleton]
    cases idStep hr with
    | given n haccepts hfree haddr hids' =>
      refine .inl ⟨hset (hpc fun m junk _ _ _ => by rw [hfree]; exact Option.some_ne_none n), ?_⟩
      rw [hids.addr, findIdx_free] at hfree
      split_ifs at hfree with hfull
      rw [hcount, if_pos haccepts]
      omega
    | exhausted haccepts hfree haddr hids' =>
      have hfault := fault_of_exhausted hr haccepts hfree
      rw [hids.addr, findIdx_free] at hfree
      split_ifs at hfree with hfull
      refine .inr ⟨?_, ?_⟩
      · exact List.any_eq_true.mpr ⟨{ k with pc := pc },
          List.mem_set (List.getElem?_eq_some_iff.mp hk).1 _, decide_eq_true hfault⟩
      · rw [hcount, if_pos haccepts]
        omega
    | other haccepts haddr hids' =>
      refine .inl ⟨hset (hpc fun m junk hreq h3 hon => ?_), ?_⟩
      · simp [Served.accepts, served, hreq, h3, hon] at haccepts
      · rw [hcount, haccepts]
        exact hle
  | _ => exact h

/-- In every framed run in which no block is longer than announced, of these accesses exactly the
search for an id is made, with the 101st transfer that is accepted: no request of a client meets an
empty list of users, and every `recv` of a relay fits its buffer. -/
theorem server_ends_iff (sql : Sqlite DB) (db : DB) (as : List Event) (s : Network DB)
    (hblocks : (networkMachine sql).EachStep
      (fun s a => Framed s a ∧ Announced s.system (s.label a)) (.start db) as)
    (h : (networkMachine sql).run (.start db) as = some s) :
    s.server.faulted = true ↔ 100 < s.server.accepted := by
  obtain ⟨cs, hannounced, hrecords⟩ := framed_run hblocks h
  have hlasting : Lasting s.server := by
    refine (run_invariant_of_eachStep (M := chatMachine sql) (Q := Announced)
      (I := fun s => (chatMachine sql).Reachable (.start db) s ∧ Lasting s.server)
      (fun s a t hs ha hstep => ⟨hs.1.step hstep, ?_⟩) ⟨.refl _ _, .inl ⟨?_, ?_⟩⟩ hannounced hrecords).2
    · obtain ⟨bs, hbs⟩ := hs.1
      have hids : IdsInOrder s.server := (server_reachable hbs).invariant
        (fun _ _ _ hs hstep => idsInOrder_step hs hstep) (idsInOrder_start db)
      exact lasting_step (inOrder_run hbs) (namesCounted_run hbs) hids hs.2 ha hstep
    · simp [System.start, ServerState.start]
    · simp [System.start, ServerState.start, ServerState.accepted]
  rcases hlasting with ⟨hbounded, hle⟩ | ⟨hfault, hmore⟩
  · simp [not_faulted hbounded, hle]
  · simp [hfault, hmore]

/-- What is written for a block of two bytes for `42`. -/
def blockTo42 (action : ℤ) (h : action = 5 ∨ action = -5) : Head :=
  ⟨⟨{ Msg.zero with action := action, bs := 2, toname := .ofBytes 20 [52, 50] }, by
    rcases h with rfl | rfl <;> constructor <;> decide⟩, h⟩

/-- `42` logs in, and a block of two bytes is relayed. -/
def blockRelayed : List Event :=
  .connect (text "1 42 42 3 0") 0 .zero :: logsIn 0 ++
    [.connectBlock (blockTo42 (-5) (.inr rfl)) [], takes 1, .serve (.go 1),
      .connectBlock (blockTo42 5 (.inl rfl)) [1, 2], takes 2, .serve (.go 2), .serve (.relay 2 2),
      .serve (.relay 2 0), .serve (.go 2)]

theorem blockRelayed_goes_on :
    ∃ s, (networkMachine sqlite42).run (.start ()) blockRelayed = some s ∧
      s.server.accepted = 0 ∧ (1, Out.raw [1, 2]) ∈ s.server.srv.written ∧
      (s.server.faulted = true ↔ 100 < s.server.accepted) := by
  have hrun : ((networkMachine sqlite42).run (.start ()) blockRelayed).any (fun s =>
      s.server.accepted = 0 ∧ (1, Out.raw [1, 2]) ∈ s.server.srv.written) = true := by
    decide +kernel
  obtain ⟨s, hs, hcheck⟩ := (Option.any_eq_true ..).mp hrun
  obtain ⟨haccepted, hraw⟩ := of_decide_eq_true hcheck
  exact ⟨s, hs, haccepted, hraw,
    server_ends_iff sqlite42 () blockRelayed s (by decide +kernel) hs⟩

end LinuxCat.ChatSystem
