import LinuxCat.HandlerEffects

/-! # The rendezvous of blocks and connections

A receiver's connection and a block meet in `find_cfd` by their offset alone. The machine here
is the server together with a record of who entered each slot, and of what each search was
given. -/
namespace LinuxCat.ServerModel
open LabelledMachines ByteLayouts Messages WaitQueues

variable {DB : Type} {sql : Sqlite DB}

/-- A connection in the table, with the request that put it there. -/
structure Registration where
  cfd : ℤ
  record : Msg
  deriving DecidableEq, Repr

/-- What the search for a block found: the connection, and who had registered it. -/
structure Match where
  header : Msg
  tofd : ℤ
  registration : Option Registration
  deriving DecidableEq, Repr

/-- `owners` and `matched` are histories no step of the server reads. -/
structure RendezvousState (DB : Type) where
  server : ServerState DB
  owners : List (Option Registration)
  matched : List Match
  deriving DecidableEq, Repr

/-- A request for the same transfer of the same file to the same user. -/
def SameTransfer (m m' : Msg) : Prop := m.sfileId = m'.sfileId ∧ m.toname.str = m'.toname.str

instance (m m' : Msg) : Decidable (SameTransfer m m') := inferInstanceAs (Decidable (_ ∧ _))

/-- The connection was registered by the receiver of the block, for this block. -/
def Match.Right (x : Match) : Prop :=
  ∃ r, x.registration = some r ∧ r.cfd = x.tofd ∧ SameTransfer x.header r.record ∧
    x.header.offset = r.record.offset

/-- What a handler's step adds to the two histories. -/
def noted (s : RendezvousState DB) (cfd : ℤ) (pc pc' : Pc) :
    List (Option Registration) × List Match :=
  match pc, pc' with
  | .register m i, .recv => (s.owners.set i (some ⟨cfd, m⟩), s.matched)
  | .search _ _, .search _ _ => (s.owners, s.matched)
  | .search m i, _ =>
    let tofd := (s.server.srv.findCfd[i]?).elim (-1) StroSockfd.cfd
    (s.owners, s.matched ++ [⟨m, tofd, (s.owners[i]?).join⟩])
  | _, _ => (s.owners, s.matched)

def rendezvousStep (sql : Sqlite DB) (s : RendezvousState DB) (a : ServerAction) :
    Option (RendezvousState DB) :=
  (serverStep sql s.server a).bind (fun t =>
    match a with
    | .accept => some { s with server := t }
    | .serve c _ => (s.server.handlers[c]?).bind (fun k => (t.handlers[c]?).map (fun k' =>
      { server := t
        owners := (noted s k.cfd k.pc k'.pc).1
        matched := (noted s k.cfd k.pc k'.pc).2 })))

def rendezvousMachine (sql : Sqlite DB) : Machine (RendezvousState DB) ServerAction where
  step := rendezvousStep sql

def RendezvousState.sessions (db : DB) (online : List Online) (n : ℕ) : RendezvousState DB where
  server := .sessions db online n
  owners := List.replicate 20 none
  matched := []

/-- A handler looks for the connection of this block. -/
def RendezvousState.Searching (s : RendezvousState DB) (m : Msg) : Prop :=
  ∃ (c : ℕ) (cfd : ℤ) (i : ℕ), s.server.handlers[c]? = some ⟨cfd, .search m i⟩

/-- This connection is in the table and waits for its block, or is about to be entered. -/
def RendezvousState.Registered (s : RendezvousState DB) (m : Msg) : Prop :=
  (∃ (c : ℕ) (cfd : ℤ) (i : ℕ), s.server.handlers[c]? = some ⟨cfd, .register m i⟩) ∨
    ∃ (i : ℕ) (slot : StroSockfd) (r : Registration), s.server.srv.findCfd[i]? = some slot ∧
      slot.use = 1 ∧ s.owners[i]? = some (some r) ∧ r.record = m

/-- The step reads a request with the offset of another transfer's open counterpart. -/
def Collides (s : RendezvousState DB) (a : ServerAction) : Prop :=
  ∃ m ∈ s.server.requestOf a, ∃ m', m'.offset = m.offset ∧ ¬ SameTransfer m m' ∧
    ((m.action = 5 ∧ s.Registered m') ∨ (m.action = -5 ∧ s.Searching m'))

/-- The table is the registrations that wait, and equal offsets are equal transfers. -/
structure Separate (s : RendezvousState DB) : Prop where
  slots : ∀ (i : ℕ) slot, s.server.srv.findCfd[i]? = some slot → slot.use = 1 →
    ∃ r, s.owners[i]? = some (some r) ∧ r.cfd = slot.cfd ∧ r.record.offset = slot.offset
  length : s.owners.length = s.server.srv.findCfd.length
  apart : ∀ m m', s.Searching m → s.Registered m' → m'.offset = m.offset → SameTransfer m m'
  right : ∀ x ∈ s.matched, x.Right

/-- Inversion of a step. -/
theorem rendezvousStep_cases {s t : RendezvousState DB} {a : ServerAction}
    (h : rendezvousStep sql s a = some t) :
    (a = .accept ∧ t = { s with server := { s.server with
        handlers := s.server.handlers ++ [⟨s.server.handlers.length, .recv⟩] } }) ∨
      ∃ c inp k srv pc, a = .serve c inp ∧ s.server.handlers[c]? = some k ∧
        threadReadPc sql s.server.srv k.cfd k.pc inp = some (srv, pc) ∧
        t = { server := {
                srv := srv
                handlers := s.server.handlers.set c { k with pc := pc }
                history := s.server.history ++ [served sql s.server.srv srv k inp] }
              owners := (noted s k.cfd k.pc pc).1
              matched := (noted s k.cfd k.pc pc).2 } :=
  notedStep_cases (s := s.server) (a := a)
    (fun t => ({ s with server := t } : RendezvousState DB))
    (fun t _ k k' => ⟨t, (noted s k.cfd k.pc k'.pc).1, (noted s k.cfd k.pc k'.pc).2⟩) h

section Steps
variable {s : RendezvousState DB} {c : ℕ} {k : Handler} {srv : Server DB} {pc : Pc}
  {history : List Served} {owners : List (Option Registration)} {matched : List Match} {m : Msg}

theorem searching_set
    (h : RendezvousState.Searching
      { server := { srv := srv, handlers := s.server.handlers.set c { k with pc := pc },
                    history := history }
        owners := owners, matched := matched } m) :
    s.Searching m ∨ ∃ i, pc = .search m i := by
  obtain ⟨c', cfd, i, hc⟩ := h
  obtain ⟨-, hc⟩ | ⟨-, hc⟩ := getElem?_set_cases hc
  · exact .inr ⟨i, (congrArg Handler.pc hc).symm⟩
  · exact .inl ⟨c', cfd, i, hc⟩

/-- A step that puts no connection into the table. -/
theorem registered_set
    (hfind : ∀ (i : ℕ) slot, srv.findCfd[i]? = some slot → slot.use = 1 →
      s.server.srv.findCfd[i]? = some slot)
    (h : RendezvousState.Registered
      { server := { srv := srv, handlers := s.server.handlers.set c { k with pc := pc },
                    history := history }
        owners := s.owners, matched := matched } m) :
    s.Registered m ∨ ∃ i, pc = .register m i := by
  rcases h with ⟨c', cfd, i, hc⟩ | ⟨i, slot, r, hslot, huse, hr, hm⟩
  · obtain ⟨-, hc⟩ | ⟨-, hc⟩ := getElem?_set_cases hc
    · exact .inr ⟨i, (congrArg Handler.pc hc).symm⟩
    · exact .inl (.inl ⟨c', cfd, i, hc⟩)
  · exact .inl (.inr ⟨i, slot, r, hfind i slot hslot huse, huse, hr, hm⟩)

/-- A step that puts no connection into the table keeps what belongs together, if a new search
or a connection about to be entered finds no counterpart of another transfer. -/
theorem Separate.set (h : Separate s)
    (hfind : ∀ (i : ℕ) slot, srv.findCfd[i]? = some slot → slot.use = 1 →
      s.server.srv.findCfd[i]? = some slot)
    (hlength : srv.findCfd.length = s.server.srv.findCfd.length)
    (hsearch : ∀ m i, pc = .search m i → s.Searching m ∨
      ∀ m', s.Registered m' → m'.offset = m.offset → SameTransfer m m')
    (hregister : ∀ m i, pc = .register m i → s.Registered m ∨
      ∀ m', s.Searching m' → m'.offset = m.offset → SameTransfer m m')
    (hmatched : ∀ x ∈ matched, x.Right) :
    Separate
      { server := { srv := srv, handlers := s.server.handlers.set c { k with pc := pc },
                    history := history }
        owners := s.owners, matched := matched } := by
  refine ⟨fun i slot hslot huse => h.slots i slot (hfind i slot hslot huse) huse,
    h.length.trans hlength.symm, fun m m' hm hm' hoff => ?_, hmatched⟩
  rcases searching_set hm with hm | ⟨i, hpc⟩
  · rcases registered_set hfind hm' with hm' | ⟨j, hpc⟩
    · exact h.apart m m' hm hm' hoff
    · rcases hregister m' j hpc with hreg | hall
      · exact h.apart m m' hm hreg hoff
      · have hsame := hall m hm hoff.symm
        exact ⟨hsame.1.symm, hsame.2.symm⟩
  · rcases registered_set hfind hm' with hm' | ⟨j, hpc'⟩
    · rcases hsearch m i hpc with hs | hall
      · exact h.apart m m' hs hm' hoff
      · exact hall m' hm' hoff
    · simp [hpc] at hpc'

theorem noted_of_rest (hregister : ∀ m i, k.pc ≠ .register m i) (hsearch : ∀ m i, k.pc ≠ .search m i) :
    noted s k.cfd k.pc pc = (s.owners, s.matched) := by
  cases hpc : k.pc with
  | register m i => exact absurd hpc (hregister m i)
  | search m i => exact absurd hpc (hsearch m i)
  | _ => rfl

/-- A search that ended is noted with what it was given. -/
theorem noted_of_found {cfd : ℤ} {i : ℕ} (hpc : pc.waits = false) :
    noted s cfd (.search m i) pc = (s.owners, s.matched ++
      [⟨m, (s.server.srv.findCfd[i]?).elim (-1) StroSockfd.cfd, (s.owners[i]?).join⟩]) := by
  cases pc with
  | search m' j => cases hpc
  | _ => rfl

/-- A step that leaves the table alone, of a thread that has nothing to do with it. -/
theorem Separate.rest (h : Separate s)
    (hfind : srv.findCfd = s.server.srv.findCfd)
    (hpc : ∀ m i, k.pc ≠ .register m i ∧ k.pc ≠ .search m i)
    (hsearch : ∀ m i, pc = .search m i → s.Searching m ∨
      ∀ m', s.Registered m' → m'.offset = m.offset → SameTransfer m m')
    (hregister : ∀ m i, pc = .register m i → s.Registered m ∨
      ∀ m', s.Searching m' → m'.offset = m.offset → SameTransfer m m') :
    Separate
      { server := { srv := srv, handlers := s.server.handlers.set c { k with pc := pc },
                    history := history }
        owners := (noted s k.cfd k.pc pc).1, matched := (noted s k.cfd k.pc pc).2 } := by
  rw [noted_of_rest (fun m i => (hpc m i).1) (fun m i => (hpc m i).2)]
  exact h.set (fun i slot hslot _ => hfind ▸ hslot) (by rw [hfind]) hsearch hregister h.right

/-- A search is given the connection of its own transfer. -/
theorem Separate.found {i : ℕ} {slot : StroSockfd} (h : Separate s)
    (hk : s.server.handlers[c]? = some k) (hpc : k.pc = .search m i)
    (hslot : s.server.srv.findCfd[i]? = some slot) (huse : slot.use = 1)
    (hoff : slot.offset = m.offset) (hrests : pc.waits = false)
    (hfind : srv.findCfd = s.server.srv.findCfd.set i { slot with use := 0 }) :
    Separate
      { server := { srv := srv, handlers := s.server.handlers.set c { k with pc := pc },
                    history := history }
        owners := (noted s k.cfd k.pc pc).1, matched := (noted s k.cfd k.pc pc).2 } := by
  have hsearch : s.Searching m := ⟨c, k.cfd, i, by rw [hk, ← hpc]⟩
  obtain ⟨r, howner, hcfd, hroff⟩ := h.slots i slot hslot huse
  have hright : Match.Right ⟨m, slot.cfd, some r⟩ :=
    ⟨r, rfl, hcfd, h.apart m r.record hsearch (.inr ⟨i, slot, r, hslot, huse, howner, rfl⟩)
      (hroff.trans hoff), (hroff.trans hoff).symm⟩
  rw [hpc, noted_of_found hrests, hslot, howner]
  refine h.set (fun j slot' hslot' huse' => ?_) ?_ (fun m' j hs => ?_) (fun m' j hs => ?_)
    fun x hx => ?_
  · rw [hfind] at hslot'
    obtain ⟨-, rfl⟩ | ⟨-, hslot'⟩ := getElem?_set_cases hslot'
    · simp at huse'
    · exact hslot'
  · rw [hfind, List.length_set]
  · rw [hs] at hrests
    cases hrests
  · rw [hs] at hrests
    cases hrests
  · rcases List.mem_append.mp hx with hx | hx
    · exact h.right x hx
    · rw [List.mem_singleton.mp hx]
      exact hright

/-- The connection is entered, in the free slot it has found. -/
theorem Separate.entered {i : ℕ} {slot : StroSockfd} {filename : CharArray 20} (h : Separate s)
    (hk : s.server.handlers[c]? = some k) (hpc : k.pc = .register m i)
    (hslot : s.server.srv.findCfd[i]? = some slot) :
    Separate
      { server := {
          srv := { s.server.srv with
            findCfd := s.server.srv.findCfd.set i ⟨k.cfd, 1, m.offset, filename⟩ }
          handlers := s.server.handlers.set c { k with pc := .recv }
          history := history }
        owners := s.owners.set i (some ⟨k.cfd, m⟩), matched := s.matched } := by
  have hlt : i < s.owners.length := by
    rw [h.length]
    exact (List.getElem?_eq_some_iff.mp hslot).1
  have hself : s.Registered m := .inl ⟨c, k.cfd, i, by rw [hk, ← hpc]⟩
  refine ⟨fun j slot' hslot' huse => ?_, by simpa using h.length, fun m' m'' hm' hm'' => ?_, h.right⟩
  · obtain ⟨rfl, rfl⟩ | ⟨hij, hslot'⟩ := getElem?_set_cases hslot'
    · exact ⟨_, List.getElem?_set_self hlt, rfl, rfl⟩
    · simpa only [List.getElem?_set_ne hij] using h.slots j slot' hslot' huse
  · obtain hm' | ⟨j, hj⟩ := searching_set hm'
    · refine h.apart m' m'' hm' ?_
      rcases hm'' with ⟨c', cfd, j, hc⟩ | ⟨j, slot', r, hslot', huse, hr, rfl⟩
      · obtain ⟨-, hc⟩ | ⟨-, hc⟩ := getElem?_set_cases hc
        · cases hc
        · exact .inl ⟨c', cfd, j, hc⟩
      · obtain ⟨-, hr⟩ | ⟨hij, hr⟩ := getElem?_set_cases hr
        · cases hr
          exact hself
        · rw [List.getElem?_set_ne hij] at hslot'
          exact .inr ⟨j, slot', r, hslot', huse, hr, rfl⟩
    · cases hj

theorem Separate.accept (h : Separate s) (cfd : ℤ) :
    Separate { s with server := { s.server with handlers := s.server.handlers ++ [⟨cfd, .recv⟩] } } := by
  have hold {c : ℕ} {k : Handler} (hc : (s.server.handlers ++ [⟨cfd, .recv⟩])[c]? = some k)
      (hpc : k.pc ≠ .recv) : s.server.handlers[c]? = some k := by
    obtain ⟨-, rfl⟩ | hc := getElem?_concat_cases hc
    · exact absurd rfl hpc
    · exact hc
  refine ⟨h.slots, h.length, fun m m' hm hm' => ?_, h.right⟩
  obtain ⟨c, cfd, i, hc⟩ := hm
  refine h.apart m m' ⟨c, cfd, i, hold hc (by simp)⟩ (hm'.imp_left ?_)
  rintro ⟨c', cfd', i', hc'⟩
  exact ⟨c', cfd', i', hold hc' (by simp)⟩

end Steps

theorem separate_step {s t : RendezvousState DB} {a : ServerAction} (h : Separate s)
    (hcol : ¬ Collides s a) (hstep : rendezvousStep sql s a = some t) : Separate t := by
  obtain ⟨rfl, rfl⟩ | ⟨c, inp, k, srv, pc, rfl, hk, hr, rfl⟩ := rendezvousStep_cases hstep
  · exact h.accept _
  have hreqOf {m : Msg} {junk : CharArray 20} (hm : requested k.pc inp = some (m, junk)) :
      m ∈ s.server.requestOf (.serve c inp) := requestOf_of_requested hk hm
  have hrecv {m : Msg} {junk : CharArray 20} (hm : requested k.pc inp = some (m, junk)) (m' : Msg)
      (i : ℕ) : k.pc ≠ .register m' i ∧ k.pc ≠ .search m' i := by
    simp [recv_of_requested hm]
  cases handlerStep hr with
  | plain hplain hpc hreq =>
    have hwaits {pc : Pc} (hpc : pc.waits = false) (m : Msg) (i : ℕ) :
        pc ≠ .register m i ∧ pc ≠ .search m i := by
      constructor <;> rintro rfl <;> cases hpc
    exact h.rest hplain.findCfd (hwaits hpc)
      (fun m i hs => absurd hs (hwaits hplain.rests m i).2)
      (fun m i hs => absurd hs (hwaits hplain.rests m i).1)
  | login m junk hreq hact hr hfind hpc =>
    obtain rfl : pc = .recv := hpc
    exact h.rest hfind (hrecv hreq) (by simp) (by simp)
  | logout m junk hreq hact hr =>
    cases hr
    exact h.rest rfl (hrecv hreq) (by simp) (by simp)
  | reply m junk n hreq hact hon hi hr =>
    cases hr
    exact h.rest rfl (hrecv hreq) (by simp) (by simp)
  | noId m junk hreq hact hr =>
    cases hr
    exact h.rest rfl (hrecv hreq) (by simp) (by simp)
  | header m junk hreq hact hon hr =>
    cases hr
    refine h.rest rfl (hrecv hreq) (fun m' i hs => .inr fun m'' hm'' hoff => ?_) (by simp)
    cases hs
    by_contra hsame
    exact hcol ⟨m, hreqOf hreq, m'', hoff, hsame, .inl ⟨hact, hm''⟩⟩
  | registration m junk hreq hact hr =>
    cases hr
    refine h.rest rfl (hrecv hreq) (by simp) fun m' i hs => .inr fun m'' hm'' hoff => ?_
    cases hs
    by_contra hsame
    exact hcol ⟨m, hreqOf hreq, m'', hoff, hsame, .inr ⟨hact, hm''⟩⟩
  | notice m fd hpc hr =>
    cases hr
    exact h.rest rfl (by simp [hpc]) (by simp) (by simp)
  | found m i slot hpc hslot huse hoff hr =>
    have hplain := Plain.of_sendFile hr
    exact h.found hk hpc hslot huse hoff hplain.rests hplain.findCfd
  | passed m i hpc hr =>
    cases hr
    have hnoted : noted s k.cfd k.pc (.search m ((i + 1) % 10)) = (s.owners, s.matched) := by
      rw [hpc]
      rfl
    rw [hnoted]
    refine h.set (fun _ _ hslot _ => hslot) rfl (fun m' j hs => .inl ?_) (by simp) h.right
    cases hs
    exact ⟨c, k.cfd, i, by rw [hk, ← hpc]⟩
  | entered m i slot hpc hslot huse hr =>
    cases hr
    have hnoted : noted s k.cfd k.pc .recv = (s.owners.set i (some ⟨k.cfd, m⟩), s.matched) := by
      rw [hpc]
      rfl
    rw [hnoted]
    exact h.entered hk hpc hslot
  | occupied m i hpc hr =>
    cases hr
    have hnoted : noted s k.cfd k.pc (.register m ((i + 1) % 10)) = (s.owners, s.matched) := by
      rw [hpc]
      rfl
    rw [hnoted]
    refine h.set (fun _ _ hslot _ => hslot) rfl (by simp) (fun m' j hs => .inl ?_) h.right
    cases hs
    exact .inl ⟨c, k.cfd, i, by rw [hk, ← hpc]⟩

theorem separate_sessions (db : DB) (online : List Online) (n : ℕ) :
    Separate (.sessions db online n) := by
  refine ⟨fun i slot hslot huse => ?_, rfl, fun m m' hm => ?_, by simp [RendezvousState.sessions]⟩
  · have hslot : (List.replicate 20 (⟨0, 0, 0, .zero 20⟩ : StroSockfd))[i]? = some slot := hslot
    rw [List.getElem?_replicate] at hslot
    split_ifs at hslot
    cases hslot
    simp at huse
  · obtain ⟨c, cfd, i, hc⟩ := hm
    simp [RendezvousState.sessions, ServerState.sessions] at hc

/-- If no request meets an open counterpart of another transfer with its own offset, every
search is given the connection its receiver registered for the block. -/
theorem matches_right_of_no_collision (sql : Sqlite DB) (db : DB) (online : List Online) (n : ℕ)
    (as : List ServerAction) (t : RendezvousState DB)
    (h : (rendezvousMachine sql).run (.sessions db online n) as = some t)
    (hcol : (rendezvousMachine sql).EachStep (fun s a => ¬ Collides s a)
      (.sessions db online n) as) : ∀ x ∈ t.matched, x.Right :=
  (Machine.run_invariant_of_eachStep (M := rendezvousMachine sql) (I := fun s => Separate s)
    (fun _ _ _ hs hq hstep => separate_step hs hq hstep) (separate_sessions db online n) hcol
    h).right

/-- `c` and `d` are logged in on connections 0 and 1. -/
def receiversOnline : List Online := [⟨0, 0, [99]⟩, ⟨1, 0, [100]⟩]

/-- A request for the first block, of one byte, of the file with this id to this user. -/
def firstBlock (action sfileId : ℤ) (toname : Bytes) : Msg :=
  { Msg.zero with action := action, sfileId := sfileId, bs := 1, toname := .ofBytes 20 toname }

/-- The blocks of file 1 to `d` and of file 0 to `c` are both searched for when the connection
`d` has opened for its block is entered. -/
def crossedTransfers : List ServerAction :=
  [.accept, .serve 2 (.record (firstBlock 5 1 [100]) (.zero 20)),
    .accept, .serve 3 (.record (firstBlock 5 0 [99]) (.zero 20)),
    .accept, .serve 4 (.record (firstBlock (-5) 1 [100]) (.zero 20)), .serve 4 .go, .serve 3 .go]

theorem crossedTransfers_mismatch :
    ∃ t, (rendezvousMachine .silent).run (.sessions () receiversOnline 2) crossedTransfers =
        some t ∧ ∃ x ∈ t.matched, x.tofd = 4 ∧ ¬ x.Right := by
  refine ⟨_, rfl, _, List.mem_singleton_self _, rfl, ?_⟩
  rintro ⟨r, hr, -, hsame, -⟩
  cases hr
  exact absurd hsame.1 (by decide)

/-- The request whose counterpart the thread waits for, or brings. -/
def Pc.counterpart : Pc → Option Msg
  | .search m _ | .register m _ => some m
  | _ => none

/-- A request that is read has the offset of no other transfer that is open. -/
def OffsetsApart (s : RendezvousState DB) (a : ServerAction) : Prop :=
  ∀ m ∈ s.server.requestOf a,
    (∀ k ∈ s.server.handlers, ∀ m' ∈ k.pc.counterpart, m'.offset = m.offset → SameTransfer m m') ∧
      ∀ o ∈ s.owners, ∀ r ∈ o, r.record.offset = m.offset → SameTransfer m r.record

instance (s : RendezvousState DB) (a : ServerAction) : Decidable (OffsetsApart s a) :=
  inferInstanceAs (Decidable (∀ m ∈ s.server.requestOf a, _))

theorem not_collides_of_apart {s : RendezvousState DB} {a : ServerAction} (h : OffsetsApart s a) :
    ¬ Collides s a := by
  rintro ⟨m, hm, m', hoff, hdiff, ⟨-, hreg⟩ | ⟨-, c, cfd, i, hc⟩⟩
  · rcases hreg with ⟨c, cfd, i, hc⟩ | ⟨i, slot, r, -, -, hr, rfl⟩
    · exact hdiff ((h m hm).1 _ (List.mem_of_getElem? hc) m' rfl hoff)
    · exact hdiff ((h m hm).2 _ (List.mem_of_getElem? hr) r rfl hoff)
  · exact hdiff ((h m hm).1 _ (List.mem_of_getElem? hc) m' rfl hoff)

/-- The second block of file 0 to `c`. -/
def secondBlock (action : ℤ) : Msg := { firstBlock action 0 [99] with offset := 500 }

/-- The first block of file 1 to `d` and the second of file 0 to `c` are searched for at once, and
the connections for both are entered before either is found. -/
def twoTransfers : List ServerAction :=
  [.accept, .serve 2 (.record (firstBlock 5 1 [100]) (.zero 20)),
    .accept, .serve 3 (.record (secondBlock 5) (.zero 20)),
    .accept, .serve 4 (.record (firstBlock (-5) 1 [100]) (.zero 20)), .serve 4 .go,
    .accept, .serve 5 (.record (secondBlock (-5)) (.zero 20)), .serve 5 .go, .serve 5 .go,
    .serve 3 .go, .serve 2 .go, .serve 3 .go]

theorem twoTransfers_match :
    ∃ t, (rendezvousMachine .silent).run (.sessions () receiversOnline 2) twoTransfers = some t ∧
      t.matched.map Match.tofd = [4, 5] ∧ ∀ x ∈ t.matched, x.Right := by
  have hapart : (rendezvousMachine .silent).EachStep OffsetsApart (.sessions () receiversOnline 2)
      twoTransfers := by
    decide +kernel
  exact ⟨_, rfl, rfl, matches_right_of_no_collision .silent () receiversOnline 2 twoTransfers _ rfl
    (hapart.mono fun _ _ => not_collides_of_apart)⟩

end LinuxCat.ServerModel
