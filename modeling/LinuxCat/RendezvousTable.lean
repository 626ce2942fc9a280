import LinuxCat.HandlerEffects
import Mathlib.Data.List.Nodup

/-! # The table of the rendezvous

Ten slots are filled by the handlers of receivers and emptied by those of blocks, one look at a
time. The machine here numbers the registrations in the order they are completed, and keeps for
each slot the number of the one that filled it last. -/
namespace LinuxCat.ServerModel
open LabelledMachines LabelledMachines.Machine ByteLayouts Messages WaitQueues

variable {DB : Type} {sql : Sqlite DB}

/-- What the handler of a block was given: the number of a registration, and its connection. -/
structure Taken where
  registration : Option ℕ
  handler : ℕ
  header : Msg
  tofd : ℤ
  deriving DecidableEq, Repr

/-- `registrations` (a descriptor and an offset each), `owners` and `taken` are histories no step
of the server reads. -/
structure TableState (DB : Type) where
  server : ServerState DB
  registrations : List (ℤ × ℤ)
  owners : List (Option ℕ)
  taken : List Taken
  deriving DecidableEq, Repr

/-- The free table, with `n` sessions of which `online` are logged in. -/
def TableState.sessions (db : DB) (online : List Online) (n : ℕ) : TableState DB where
  server := .sessions db online n
  registrations := []
  owners := List.replicate 20 none
  taken := []

/-- The histories behind a step of handler `c` that goes from `pc` to `pc'`. -/
def TableState.note (s : TableState DB) (t : ServerState DB) (c : ℕ) (cfd : ℤ) (pc pc' : Pc) :
    TableState DB :=
  match pc, pc' with
  | .register m i, .recv =>
    { server := t
      registrations := s.registrations ++ [(cfd, m.offset)]
      owners := s.owners.set i (some s.registrations.length)
      taken := s.taken }
  | .search _ _, .search _ _ => { s with server := t }
  | .search m i, _ =>
    let tofd := (s.server.srv.findCfd[i]?).elim (-1) StroSockfd.cfd
    { s with server := t, taken := s.taken ++ [⟨(s.owners[i]?).join, c, m, tofd⟩] }
  | _, _ => { s with server := t }

def tableStep (sql : Sqlite DB) (s : TableState DB) (a : ServerAction) : Option (TableState DB) :=
  (serverStep sql s.server a).bind (fun t =>
    match a with
    | .accept => some { s with server := t }
    | .serve c _ => (s.server.handlers[c]?).bind (fun k => (t.handlers[c]?).map (fun k' =>
      s.note t c k.cfd k.pc k'.pc)))

def tableMachine (sql : Sqlite DB) : Machine (TableState DB) ServerAction where
  step := tableStep sql

def StroSockfd.inUse (slot : StroSockfd) : Bool := slot.use = 1

/-- The numbers of the registrations in the slots in use. -/
def TableState.held (s : TableState DB) : List (Option ℕ) :=
  ((s.server.srv.findCfd.zip s.owners).filter (fun p => p.1.inUse)).map Prod.snd

theorem tableStep_cases {s t : TableState DB} {a : ServerAction} (h : tableStep sql s a = some t) :
    (a = .accept ∧ t = { s with server := { s.server with
        handlers := s.server.handlers ++ [⟨s.server.handlers.length, .recv⟩] } }) ∨
      ∃ c inp k srv pc, a = .serve c inp ∧ s.server.handlers[c]? = some k ∧
        threadReadPc sql s.server.srv k.cfd k.pc inp = some (srv, pc) ∧
        t = s.note
          { srv := srv
            handlers := s.server.handlers.set c { k with pc := pc }
            history := s.server.history ++ [served sql s.server.srv srv k inp] } c k.cfd k.pc pc :=
  notedStep_cases (s := s.server) (a := a) (fun t => ({ s with server := t } : TableState DB))
    (fun t c k k' => s.note t c k.cfd k.pc k'.pc) h

/-- The look that comes next is at one of the first ten slots. -/
def Pc.inScan : Pc → Bool
  | .search _ i | .register _ i => i < 10
  | _ => true

/-- The slots in use are the registrations that were not taken. -/
structure Table (s : TableState DB) : Prop where
  size : s.server.srv.findCfd.length = 20
  length : s.owners.length = s.server.srv.findCfd.length
  bits : ∀ (i : ℕ) slot, s.server.srv.findCfd[i]? = some slot → slot.use = 0 ∨ slot.use = 1
  scanned : ∀ (i : ℕ) slot, s.server.srv.findCfd[i]? = some slot → slot.use = 1 → i < 10
  scans : ∀ k ∈ s.server.handlers, k.pc.inScan = true
  owned : ∀ (i : ℕ) slot, s.server.srv.findCfd[i]? = some slot → slot.use = 1 →
    ∃ n : ℕ, s.owners[i]? = some (some n) ∧ s.registrations[n]? = some (slot.cfd, slot.offset)
  given : ∀ x ∈ s.taken, ∃ n : ℕ, x.registration = some n ∧
    s.registrations[n]? = some (x.tofd, x.header.offset)
  numbers : (s.held ++ s.taken.map Taken.registration).Perm
    ((List.range s.registrations.length).map some)

theorem table_sessions (db : DB) (online : List Online) (n : ℕ) :
    Table (TableState.sessions db online n) := by
  have hfree (i : ℕ) (slot : StroSockfd)
      (h : (TableState.sessions db online n).server.srv.findCfd[i]? = some slot) : slot.use = 0 := by
    have h : (List.replicate 20 (⟨0, 0, 0, .zero 20⟩ : StroSockfd))[i]? = some slot := h
    rw [List.getElem?_replicate] at h
    split_ifs at h
    cases h
    rfl
  have hunused (i : ℕ) (slot : StroSockfd)
      (h : (TableState.sessions db online n).server.srv.findCfd[i]? = some slot) : slot.use ≠ 1 := by
    rw [hfree i slot h]
    decide
  refine ⟨rfl, rfl, fun i slot h => .inl (hfree i slot h),
    fun i slot h huse => absurd huse (hunused i slot h), fun k hk => ?_,
    fun i slot h huse => absurd huse (hunused i slot h), by simp [TableState.sessions], .refl _⟩
  obtain ⟨i, -, rfl⟩ := List.mem_map.mp hk
  rfl

section Steps
variable {s : TableState DB} {t : ServerState DB} {c : ℕ} {k : Handler} {pc : Pc} {m : Msg} {i : ℕ}
  {slot : StroSockfd}

/-- A step that leaves the table and the histories alone. -/
theorem Table.rest (h : Table s) (hfind : t.srv.findCfd = s.server.srv.findCfd)
    (hscans : ∀ k ∈ t.handlers, k.pc.inScan = true) : Table { s with server := t } := by
  refine ⟨?_, ?_, ?_, ?_, hscans, ?_, h.given, ?_⟩
  · simpa only [hfind] using h.size
  · simpa only [hfind] using h.length
  · simpa only [hfind] using h.bits
  · simpa only [hfind] using h.scanned
  · simpa only [hfind] using h.owned
  · simpa only [TableState.held, hfind] using h.numbers

/-- A completed registration fills the free slot its handler has found. -/
theorem Table.entered {filename : CharArray 20} (h : Table s)
    (hslot : s.server.srv.findCfd[i]? = some slot) (huse : slot.use = 0) (hi : i < 10)
    (hfind : t.srv.findCfd = s.server.srv.findCfd.set i ⟨k.cfd, 1, m.offset, filename⟩)
    (hscans : ∀ k ∈ t.handlers, k.pc.inScan = true) :
    Table { server := t
            registrations := s.registrations ++ [(k.cfd, m.offset)]
            owners := s.owners.set i (some s.registrations.length)
            taken := s.taken } := by
  have hlt : i < s.owners.length := by
    rw [h.length]
    exact (List.getElem?_eq_some_iff.mp hslot).1
  have hgrow {n : ℕ} {x : ℤ × ℤ} (hn : s.registrations[n]? = some x) :
      (s.registrations ++ [(k.cfd, m.offset)])[n]? = some x :=
    (List.getElem?_append_left (List.getElem?_eq_some_iff.mp hn).1).trans hn
  refine ⟨?_, ?_, ?_, ?_, hscans, fun j slot' hj huse' => ?_, fun x hx => ?_, ?_⟩
  · simpa only [hfind, List.length_set] using h.size
  · simpa only [hfind, List.length_set] using h.length
  · rw [hfind]
    exact forall_place_set h.bits (.inr rfl)
  · rw [hfind]
    exact forall_place_set h.scanned fun _ => hi
  · rw [hfind] at hj
    rcases getElem?_set_cases hj with ⟨rfl, rfl⟩ | ⟨hne, hj⟩
    · exact ⟨s.registrations.length, List.getElem?_set_self hlt, by simp⟩
    · obtain ⟨n, hn, hreg⟩ := h.owned j slot' hj huse'
      exact ⟨n, (List.getElem?_set_ne hne).trans hn, hgrow hreg⟩
  · obtain ⟨n, hn, hreg⟩ := h.given x hx
    exact ⟨n, hn, hgrow hreg⟩
  · have hzip : (s.server.srv.findCfd.zip s.owners)[i]? = some (slot, s.owners[i]) :=
      List.getElem?_zip_eq_some.mpr ⟨hslot, List.getElem?_eq_getElem hlt⟩
    have hheld := map_filter_set_perm_cons (p := fun p : StroSockfd × Option ℕ => p.1.inUse)
      (f := Prod.snd) (⟨k.cfd, 1, m.offset, filename⟩, some s.registrations.length) hzip
      (by simp [StroSockfd.inUse, huse]) rfl
    simp only [TableState.held, hfind, zip_set, List.length_append, List.length_singleton,
      List.range_succ, List.map_append, List.map_singleton]
    exact ((hheld.append_right _).trans (h.numbers.cons _)).trans (List.perm_append_singleton _ _).symm

/-- A search takes the registration in the slot it has found. -/
theorem Table.found (h : Table s) (hslot : s.server.srv.findCfd[i]? = some slot)
    (huse : slot.use = 1) (hoff : slot.offset = m.offset)
    (hfind : t.srv.findCfd = s.server.srv.findCfd.set i { slot with use := 0 })
    (hscans : ∀ k ∈ t.handlers, k.pc.inScan = true) :
    Table { s with
      server := t
      taken := s.taken ++ [⟨(s.owners[i]?).join, c, m,
        (s.server.srv.findCfd[i]?).elim (-1) StroSockfd.cfd⟩] } := by
  obtain ⟨n, howner, hreg⟩ := h.owned i slot hslot huse
  refine ⟨?_, ?_, ?_, ?_, hscans, ?_, fun x hx => ?_, ?_⟩
  · simpa only [hfind, List.length_set] using h.size
  · simpa only [hfind, List.length_set] using h.length
  · rw [hfind]
    exact forall_place_set h.bits (.inl rfl)
  · rw [hfind]
    exact forall_place_set h.scanned fun huse' => by simp at huse'
  · rw [hfind]
    exact forall_place_set h.owned fun huse' => by simp at huse'
  · rcases List.mem_append.mp hx with hx | hx
    · exact h.given x hx
    · rw [List.mem_singleton.mp hx, howner, hslot]
      exact ⟨n, rfl, by rw [hreg, hoff]; rfl⟩
  · have hzip : (s.server.srv.findCfd.zip s.owners)[i]? = some (slot, some n) :=
      List.getElem?_zip_eq_some.mpr ⟨hslot, howner⟩
    have hheld := map_filter_set_perm (p := fun p : StroSockfd × Option ℕ => p.1.inUse)
      (f := Prod.snd) ({ slot with use := 0 }, some n) hzip (by simp [StroSockfd.inUse, huse]) rfl
    have howners : s.owners.set i (some n) = s.owners := by
      obtain ⟨hlt, hget⟩ := List.getElem?_eq_some_iff.mp howner
      rw [← hget, List.set_getElem_self]
    rw [← zip_set, howners] at hheld
    simp only [TableState.held, hfind, List.map_append, List.map_singleton, howner, Option.join_some]
    rw [← List.append_assoc]
    refine (List.perm_append_singleton _ _).trans (.trans ?_ h.numbers)
    exact (hheld.append_right _).symm

theorem note_server {cfd : ℤ} {pc' : Pc} : (s.note t c cfd pc pc').server = t := by
  unfold TableState.note
  split <;> rfl

theorem note_of_rest {cfd : ℤ} {pc' : Pc} (h : pc.waits = false ∨ ∃ m fd, pc = .notify m fd) :
    s.note t c cfd pc pc' = { s with server := t } := by
  cases pc with
  | search m i => simp [Pc.waits] at h
  | register m i => simp [Pc.waits] at h
  | _ => rfl

theorem note_of_found {cfd : ℤ} (hpc : pc.waits = false) :
    s.note t c cfd (.search m i) pc = { s with
      server := t
      taken := s.taken ++ [⟨(s.owners[i]?).join, c, m,
        (s.server.srv.findCfd[i]?).elim (-1) StroSockfd.cfd⟩] } := by
  cases pc with
  | search m' j => cases hpc
  | _ => rfl

end Steps

theorem table_step {s t : TableState DB} {a : ServerAction} (h : Table s)
    (hstep : tableStep sql s a = some t) : Table t := by
  obtain ⟨rfl, rfl⟩ | ⟨c, inp, k, srv, pc, rfl, hk, hr, rfl⟩ := tableStep_cases hstep
  · exact h.rest rfl (forall_mem_concat h.scans rfl)
  have hscan := h.scans k (List.mem_of_getElem? hk)
  have hset {pc : Pc} (hpc : pc.inScan = true) :
      ∀ k' ∈ s.server.handlers.set c { k with pc := pc }, k'.pc.inScan = true :=
    forall_mem_set h.scans hpc
  have hrests {pc : Pc} (hpc : pc.waits = false) : pc.inScan = true := by
    cases pc <;> first | rfl | cases hpc
  have hrecv {m : Msg} {junk : CharArray 20} (hm : requested k.pc inp = some (m, junk)) :
      k.pc.waits = false ∨ ∃ m fd, k.pc = .notify m fd := by
    rw [recv_of_requested hm]
    exact .inl rfl
  cases handlerStep hr with
  | plain hplain hpc =>
    rw [note_of_rest (.inl hpc)]
    exact h.rest hplain.findCfd (hset (hrests hplain.rests))
  | login m junk hreq hact hr hfind hpc =>
    rw [note_of_rest (hrecv hreq)]
    exact h.rest hfind (hset (by rw [show pc = .recv from hpc]; rfl))
  | logout m junk hreq hact hr =>
    cases hr
    rw [note_of_rest (hrecv hreq)]
    exact h.rest rfl (hset rfl)
  | reply m junk n hreq hact hon hi hr =>
    cases hr
    rw [note_of_rest (hrecv hreq)]
    exact h.rest rfl (hset rfl)
  | noId m junk hreq hact hr =>
    cases hr
    rw [note_of_rest (hrecv hreq)]
    exact h.rest rfl (hset rfl)
  | header m junk hreq hact hon hr =>
    cases hr
    rw [note_of_rest (hrecv hreq)]
    exact h.rest rfl (hset rfl)
  | registration m junk hreq hact hr =>
    cases hr
    rw [note_of_rest (hrecv hreq)]
    exact h.rest rfl (hset rfl)
  | notice m fd hpc hr =>
    cases hr
    rw [note_of_rest (.inr ⟨m, fd, hpc⟩)]
    exact h.rest rfl (hset rfl)
  | found m i slot hpc hslot huse hoff hr =>
    have hplain := Plain.of_sendFile hr
    have hrest : pc.waits = false := hplain.rests
    rw [hpc, note_of_found hrest]
    exact h.found hslot huse hoff hplain.findCfd (hset (hrests hrest))
  | passed m i hpc hr =>
    cases hr
    rw [hpc]
    exact h.rest rfl (hset (by simp [Pc.inScan, Nat.mod_lt]))
  | entered m i slot hpc hslot huse hr =>
    cases hr
    rw [hpc] at hscan ⊢
    exact h.entered hslot huse (by simpa [Pc.inScan] using hscan) rfl (hset rfl)
  | occupied m i hpc hr =>
    cases hr
    rw [hpc]
    exact h.rest rfl (hset (by simp [Pc.inScan, Nat.mod_lt]))

/-- Registration `n` stands in slot `i`. -/
def TableState.Occupies (s : TableState DB) (n i : ℕ) : Prop :=
  s.owners[i]? = some (some n) ∧ ∃ slot, s.server.srv.findCfd[i]? = some slot ∧ slot.use = 1

/-- Nothing registered is lost, changed or given away twice. -/
structure TableIntact (s : TableState DB) : Prop where
  placed : ∀ (n : ℕ) cfd offset, s.registrations[n]? = some (cfd, offset) →
    some n ∉ s.taken.map Taken.registration → (∃! i, s.Occupies n i) ∧
      ∀ i, s.Occupies n i → i < 10 ∧ ∃ slot, s.server.srv.findCfd[i]? = some slot ∧
        slot.cfd = cfd ∧ slot.offset = offset
  given : ∀ x ∈ s.taken, ∃ n : ℕ, x.registration = some n ∧
    s.registrations[n]? = some (x.tofd, x.header.offset)
  once : (s.taken.map Taken.registration).Nodup
  counted : s.server.srv.findCfd.countP StroSockfd.inUse + s.taken.length = s.registrations.length

/-- A step of a handler that registers its connection leaves the slots in use as they are. -/
def KeepsUsed (sql : Sqlite DB) (s : TableState DB) (a : ServerAction) : Prop :=
  ∀ c inp k m i t, a = .serve c inp → s.server.handlers[c]? = some k → k.pc = .register m i →
    tableStep sql s a = some t → ∀ (j : ℕ) slot, s.server.srv.findCfd[j]? = some slot →
      slot.use = 1 → t.server.srv.findCfd[j]? = some slot

theorem occupies_iff {s : TableState DB} {n i : ℕ} :
    s.Occupies n i ↔ ∃ p, (s.server.srv.findCfd.zip s.owners)[i]? = some p ∧ p.1.inUse = true ∧
      p.2 = some n := by
  constructor
  · rintro ⟨howner, slot, hslot, huse⟩
    refine ⟨(slot, some n), List.getElem?_zip_eq_some.mpr ⟨hslot, howner⟩, ?_, rfl⟩
    simpa [StroSockfd.inUse] using huse
  · rintro ⟨⟨slot, o⟩, hzip, huse, rfl⟩
    obtain ⟨hslot, howner⟩ := List.getElem?_zip_eq_some.mp hzip
    exact ⟨howner, slot, hslot, by simpa [StroSockfd.inUse] using huse⟩

theorem Table.length_held {s : TableState DB} (h : Table s) :
    s.held.length = s.server.srv.findCfd.countP StroSockfd.inUse := by
  have hfst : (s.server.srv.findCfd.zip s.owners).map Prod.fst = s.server.srv.findCfd :=
    List.map_fst_zip h.length.ge
  rw [TableState.held, List.length_map, ← List.countP_eq_length_filter]
  conv_rhs => rw [← hfst]
  rw [List.countP_map]
  rfl

theorem Table.intact {s : TableState DB} (h : Table s) : TableIntact s := by
  have hnodup : (s.held ++ s.taken.map Taken.registration).Nodup := by
    rw [h.numbers.nodup_iff]
    exact List.Nodup.map (Option.some_injective ℕ) List.nodup_range
  obtain ⟨hheld, honce, -⟩ := List.nodup_append.mp hnodup
  refine ⟨fun n cfd offset hn huntaken => ⟨?_, fun i hi => ?_⟩, h.given, honce, ?_⟩
  · have hmem : some n ∈ s.held := by
      have hall : some n ∈ s.held ++ s.taken.map Taken.registration := by
        rw [h.numbers.mem_iff]
        exact List.mem_map_of_mem (List.mem_range.mpr (List.getElem?_eq_some_iff.mp hn).1)
      exact (List.mem_append.mp hall).resolve_right huntaken
    simpa only [occupies_iff] using existsUnique_place hheld hmem
  · obtain ⟨howner, slot, hslot, huse⟩ := hi
    obtain ⟨n', howner', hreg⟩ := h.owned i slot hslot huse
    rw [howner] at howner'
    cases howner'
    rw [hn] at hreg
    cases hreg
    exact ⟨h.scanned i slot hslot huse, slot, hslot, rfl, rfl⟩
  · have hlength := h.numbers.length_eq
    simp only [List.length_append, List.length_map, List.length_range, h.length_held] at hlength
    exact hlength

theorem keepsUsed (s : TableState DB) (a : ServerAction) : KeepsUsed sql s a := by
  rintro c inp k m i t rfl hk hpc hstep j slot hslot huse
  obtain ⟨ha, -⟩ | ⟨c', inp', k', srv, pc, ha, hk', hr, rfl⟩ := tableStep_cases hstep
  · cases ha
  · cases ha
    obtain rfl := Option.some.inj (hk.symm.trans hk')
    rw [note_server]
    simp only [hpc, threadReadPc] at hr
    split_ifs at hr
    obtain ⟨slot', hslot', heq⟩ := Option.map_eq_some_iff.mp hr
    split_ifs at heq with hfree
    · cases heq
      rw [List.getElem?_set_ne]
      · exact hslot
      · rintro rfl
        rw [hslot] at hslot'
        cases hslot'
        rw [huse] at hfree
        cases hfree
    · cases heq
      exact hslot

/-- In every run from a free table, a registration stands unchanged in one scanned slot until it
is taken, is taken by one search for its offset, and is never overwritten. -/
theorem table_intact (sql : Sqlite DB) (db : DB) (online : List Online) (n : ℕ)
    (as : List ServerAction) (t : TableState DB)
    (h : (tableMachine sql).run (TableState.sessions db online n) as = some t) :
    TableIntact t ∧
      (tableMachine sql).EachStep (KeepsUsed sql) (TableState.sessions db online n) as :=
  ⟨(run_invariant (M := tableMachine sql) (I := Table) (fun _ _ _ hs hstep => table_step hs hstep)
    (table_sessions db online n) h).intact, eachStep_of_forall keepsUsed⟩

/-- A request for the block at this offset of a file for `b`. -/
def blockForB (action offset : ℤ) : Msg :=
  { Msg.zero with action := action, offset := offset, toname := .ofBytes 20 [98] }

/-- Two connections are entered, and the second one is taken. -/
def secondTaken : List ServerAction :=
  [.accept, .accept, .accept, .serve 1 (.record (blockForB (-5) 0) (.zero 20)),
    .serve 2 (.record (blockForB (-5) 500) (.zero 20)), .serve 1 .go, .serve 2 .go, .serve 2 .go,
    .serve 3 (.record (blockForB 5 500) (.zero 20)), .serve 3 .go, .serve 3 .go]

theorem secondTaken_intact :
    ∃ t, (tableMachine .silent).run (TableState.sessions () [⟨0, 0, [98]⟩] 1) secondTaken =
        some t ∧
      t.registrations = [(1, 0), (2, 500)] ∧
      t.taken = [⟨some 1, 3, blockForB 5 500, 2⟩] ∧ TableIntact t :=
  ⟨_, rfl, rfl, rfl, (table_intact .silent () [⟨0, 0, [98]⟩] 1 secondTaken _ rfl).1⟩

end LinuxCat.ServerModel
