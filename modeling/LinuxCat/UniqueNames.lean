import LinuxCat.PersonTable
import LinuxCat.WaitQueues

/-! # Registered names under concurrent registrations

A registration looks for its name and inserts it in two statements, and the table has no
constraint. Between the two another handler may have inserted the same name. -/
namespace LinuxCat.ServerModel
open LabelledMachines LabelledMachines.Machine ByteLayouts Messages DecimalTexts

variable {DB : Type} {sql : Sqlite DB} {person : DB → List Person} {valued refused : Bytes → Prop}

/-- The insert adds one row when the text of the password is a value, and none when it is an
error. -/
structure InsertRows (sql : Sqlite DB) (person : DB → List Person) (valued refused : Bytes → Prop) :
    Prop where
  valued : ∀ db name password, quote ∉ name → valued password →
    names (person (sql.exec db (insertText name password)).1) = names (person db) ++ [name]
  refused : ∀ db name password, quote ∉ name → refused password →
    names (person (sql.exec db (insertText name password)).1) = names (person db)

theorem PersonTable.insertRows (h : PersonTable sql person) :
    InsertRows sql person IsNumber IsIdentifier where
  valued db name password hname hpassword := by
    rw [h.insertNumber db name password hname hpassword]
    simp [names]
  refused db name password hname hpassword := by
    rw [h.insertIdentifier db name password hname hpassword]

/-- The only requests are registrations, with names that are not empty and have no quote. -/
def Registers (s : ServerState DB) (a : ServerAction) : Prop :=
  ∀ m, s.requestOf a = some m → m.action = 0 ∧ m.name.str ≠ [] ∧ quote ∉ m.name.str

/-- The insert of a request adds one row or none. -/
def OneRow (valued refused : Bytes → Prop) (s : ServerState DB) (a : ServerAction) : Prop :=
  ∀ m, s.requestOf a = some m → valued m.password.str ∨ refused m.password.str

instance (s : ServerState DB) (a : ServerAction) : Decidable (Registers s a) :=
  inferInstanceAs (Decidable (∀ m, s.requestOf a = some m → _))

instance [DecidablePred valued] [DecidablePred refused] (s : ServerState DB) (a : ServerAction) :
    Decidable (OneRow valued refused s a) :=
  inferInstanceAs (Decidable (∀ m, s.requestOf a = some m → _))

/-- The names are unique, and stay so at whichever insert comes next. -/
structure StaysUnique (sql : Sqlite DB) (person : DB → List Person) (s : ServerState DB) : Prop where
  names : (names (person s.srv.db)).Nodup
  next : ∀ c k m t, s.handlers[c]? = some k → k.pc = .insertPerson m →
    serverStep sql s (.serve c .go) = some t → (ServerModel.names (person t.srv.db)).Nodup

/-- A handler inserts a row for a name while another one stands between its select and its insert
of a row for this name. -/
def InsertsBeside (valued : Bytes → Prop) (s : ServerState DB) (a : ServerAction) : Prop :=
  ∃ c c' k k' m m', a = .serve c .go ∧ s.handlers[c]? = some k ∧ k.pc = .insertPerson m ∧
    s.handlers[c']? = some k' ∧ k'.pc = .insertPerson m' ∧ c' ≠ c ∧ m'.name.str = m.name.str ∧
    valued m.password.str ∧ valued m'.password.str

/-- What is known of a registration whose name was not found. -/
structure Pending (valued refused : Bytes → Prop) (m : Msg) : Prop where
  quote : quote ∉ m.name.str
  row : valued m.password.str ∨ refused m.password.str

/-- Handlers are in no request but a registration. -/
def Registering (valued refused : Bytes → Prop) (s : ServerState DB) : Prop :=
  ∀ k ∈ s.handlers,
    k.pc = .recv ∨ k.pc = .exited ∨ ∃ m, k.pc = .insertPerson m ∧ Pending valued refused m

theorem Registering.pending {s : ServerState DB} (h : Registering valued refused s) {k : Handler}
    {m : Msg} (hk : k ∈ s.handlers) (hpc : k.pc = .insertPerson m) : Pending valued refused m := by
  rcases h k hk with hpc' | hpc' | ⟨m', hpc', hm⟩
  · rw [hpc] at hpc'
    cases hpc'
  · rw [hpc] at hpc'
    cases hpc'
  · rw [hpc] at hpc'
    cases hpc'
    exact hm

theorem Registering.faulted {s : ServerState DB} (h : Registering valued refused s) :
    s.faulted = false := by
  simp only [ServerState.faulted, List.any_eq_false, decide_eq_true_eq]
  intro k hk hpc
  rcases h k hk with hpc' | hpc' | ⟨m, hpc', -⟩ <;> simp [hpc] at hpc'

/-- What a step of a handler does to the table. -/
inductive RegistrationStep (sql : Sqlite DB) (person : DB → List Person)
    (valued refused : Bytes → Prop) (srv : Server DB) (k : Handler) (inp : Input) (srv' : Server DB)
    (pc : Pc) : Prop
  /-- a name that is found, or the end of the connection -/
  | kept (hk : k.pc = .recv) (hdb : person srv'.db = person srv.db) (hpc : pc = .recv ∨ pc = .exited)
  | queried (m : Msg) (hk : k.pc = .recv) (hdb : person srv'.db = person srv.db)
      (hpc : pc = .insertPerson m) (hm : Pending valued refused m)
      (hfree : m.name.str ∉ names (person srv.db))
  | inserted (m : Msg) (hk : k.pc = .insertPerson m) (hinp : inp = .go) (hpc : pc = .recv)
      (hvalued : valued m.password.str →
        names (person srv'.db) = names (person srv.db) ++ [m.name.str])
      (hrefused : ¬ valued m.password.str → names (person srv'.db) = names (person srv.db))

theorem InsertRows.names_eq (h : InsertRows sql person valued refused) {m : Msg}
    (hm : Pending valued refused m) (db : DB) :
    (valued m.password.str → names (person (sql.exec db (insertPersonText m)).1) =
        names (person db) ++ [m.name.str]) ∧
      (¬ valued m.password.str →
        names (person (sql.exec db (insertPersonText m)).1) = names (person db)) := by
  have htext : insertPersonText m = insertText m.name.str m.password.str := rfl
  rw [htext]
  constructor
  · intro hval
    exact h.valued db _ _ hm.quote hval
  · intro hval
    exact h.refused db _ _ hm.quote (hm.row.resolve_left hval)

theorem registrationStep (h : SelectsNames sql person) (hrows : InsertRows sql person valued refused)
    {s : ServerState DB} {c : ℕ} {inp : Input} {k : Handler} {srv' : Server DB} {pc : Pc}
    (hs : Registering valued refused s) (hk : s.handlers[c]? = some k)
    (hreg : Registers s (.serve c inp)) (hrow : OneRow valued refused s (.serve c inp))
    (hstep : threadReadPc sql s.srv k.cfd k.pc inp = some (srv', pc)) :
    RegistrationStep sql person valued refused s.srv k inp srv' pc := by
  rcases hs k (List.mem_of_getElem? hk) with hpc | hpc | ⟨m, hpc, hm⟩
  · cases hreq : requested k.pc inp with
    | some q =>
      obtain ⟨m, junk⟩ := q
      have hof := requestOf_of_requested hk hreq
      obtain ⟨hact, hne, hquote⟩ := hreg m hof
      have heq : (srv', pc) = case0 sql junk s.srv k.cfd m :=
        (eq_dispatch hreq hstep).trans (dispatch_eq_case0 hact)
      obtain ⟨hkeep, hquery⟩ := h.queryname_eq s.srv.db junk hquote hne
      simp only [case0] at heq
      split_ifs at heq with hfound
      · cases heq
        exact .kept hpc hkeep (.inl rfl)
      · cases heq
        refine .queried m hpc hkeep rfl ⟨hquote, hrow m hof⟩ fun hmem => hfound ?_
        exact (hquery.mpr (.inl hmem)).symm
    | none =>
      rw [hpc] at hstep hreq
      obtain ⟨-, heq⟩ := threadReadPc_unrequested hstep hreq
      cases heq
      exact .kept hpc rfl (.inr rfl)
  · rw [hpc] at hstep
    cases hstep
  · rw [hpc] at hstep
    simp only [threadReadPc] at hstep
    split_ifs at hstep with hinp
    cases hstep
    obtain ⟨hvalued, hrefused⟩ := hrows.names_eq hm s.srv.db
    exact .inserted m hpc hinp rfl hvalued hrefused

theorem registering_step (h : SelectsNames sql person)
    (hrows : InsertRows sql person valued refused) {s t : ServerState DB} {a : ServerAction}
    (hs : Registering valued refused s) (hreg : Registers s a) (hrow : OneRow valued refused s a)
    (hstep : serverStep sql s a = some t) : Registering valued refused t := by
  obtain ⟨rfl, rfl⟩ | ⟨c, inp, k, srv, pc, rfl, hk, hr, rfl⟩ := serverStep_cases hstep
  · exact WaitQueues.forall_mem_concat hs (.inl rfl)
  · refine WaitQueues.forall_mem_set hs ?_
    cases registrationStep h hrows hs hk hreg hrow hr with
    | kept _ _ hpc => exact hpc.imp_right .inl
    | queried m _ _ hpc hm => exact .inr (.inr ⟨m, hpc, hm⟩)
    | inserted m _ _ hpc => exact .inl hpc

/-- The names are unique, and those about to be inserted are none of them. -/
structure Tabled (person : DB → List Person) (valued : Bytes → Prop) (s : ServerState DB) : Prop where
  names : (names (person s.srv.db)).Nodup
  free : ∀ (c : ℕ) k m, s.handlers[c]? = some k → k.pc = .insertPerson m →
    valued m.password.str → m.name.str ∉ ServerModel.names (person s.srv.db)

/-- A pending insert is always possible. -/
theorem insert_next (sql : Sqlite DB) {s : ServerState DB} (hs : Registering valued refused s) {c : ℕ} {k : Handler}
    {m : Msg} (hk : s.handlers[c]? = some k) (hpc : k.pc = .insertPerson m) :
    ∃ t, serverStep sql s (.serve c .go) = some t ∧
      t.srv.db = (sql.exec s.srv.db (insertPersonText m)).1 := by
  let srv := { s.srv with db := (sql.exec s.srv.db (insertPersonText m)).1 }
  refine ⟨{ srv := srv
            handlers := s.handlers.set c { k with pc := .recv }
            history := s.history ++ [served sql s.srv srv k .go] }, ?_, rfl⟩
  simp [serverStep, hs.faulted, hk, threadRead, hpc, threadReadPc, srv]

theorem staysUnique_iff (hrows : InsertRows sql person valued refused) {s : ServerState DB}
    (hs : Registering valued refused s) :
    StaysUnique sql person s ↔ Tabled person valued s := by
  constructor
  · rintro ⟨hnodup, hinsert⟩
    refine ⟨hnodup, fun c k m hk hpc hvalued hmem => ?_⟩
    obtain ⟨t, ht, hdb⟩ := insert_next sql hs hk hpc
    have hnodup' := hinsert c k m t hk hpc ht
    have hm := hs.pending (List.mem_of_getElem? hk) hpc
    rw [hdb, (hrows.names_eq hm s.srv.db).1 hvalued] at hnodup'
    exact (List.nodup_append.mp hnodup').2.2 _ hmem _ (List.mem_singleton_self _) rfl
  · rintro ⟨hnodup, hfree⟩
    refine ⟨hnodup, fun c k m t hk hpc ht => ?_⟩
    obtain ⟨t', ht', hdb⟩ := insert_next sql hs hk hpc
    obtain rfl := Option.some.inj (ht.symm.trans ht')
    have hm := hs.pending (List.mem_of_getElem? hk) hpc
    obtain ⟨hinsert, hkept⟩ := hrows.names_eq hm s.srv.db
    rw [hdb]
    by_cases hvalued : valued m.password.str
    · rw [hinsert hvalued, ← List.concat_eq_append, List.nodup_concat]
      exact ⟨hfree c k m hk hpc hvalued, hnodup⟩
    · rwa [hkept hvalued]

/-- A step that leaves the names as they are. -/
theorem Tabled.kept {s t : ServerState DB} (h : Tabled person valued s)
    (hnames : ServerModel.names (person t.srv.db) = ServerModel.names (person s.srv.db))
    (hhandlers : ∀ (c : ℕ) k m, t.handlers[c]? = some k → k.pc = .insertPerson m →
      s.handlers[c]? = some k ∨ m.name.str ∉ ServerModel.names (person s.srv.db)) :
    Tabled person valued t := by
  refine ⟨hnames ▸ h.names, fun c k m hk hpc hvalued => ?_⟩
  rw [hnames]
  rcases hhandlers c k m hk hpc with hk | hfree
  · exact h.free c k m hk hpc hvalued
  · exact hfree

theorem insertsBeside_iff {s : ServerState DB} {c : ℕ} {inp : Input} {k : Handler} {m : Msg}
    (hk : s.handlers[c]? = some k) (hpc : k.pc = .insertPerson m) :
    InsertsBeside valued s (.serve c inp) ↔ inp = .go ∧ valued m.password.str ∧
      ∃ c' k' m', c' ≠ c ∧ s.handlers[c']? = some k' ∧ k'.pc = .insertPerson m' ∧
        m'.name.str = m.name.str ∧ valued m'.password.str := by
  constructor
  · rintro ⟨c₁, c', k₁, k', m₁, m', ha, hk₁, hpc₁, hk', hpc', hne, hname, hvalued, hvalued'⟩
    cases ha
    obtain rfl := Option.some.inj (hk.symm.trans hk₁)
    rw [hpc] at hpc₁
    cases hpc₁
    exact ⟨rfl, hvalued, c', k', m', hne, hk', hpc', hname, hvalued'⟩
  · rintro ⟨rfl, hvalued, c', k', m', hne, hk', hpc', hname, hvalued'⟩
    exact ⟨c, c', k, k', m, m', rfl, hk, hpc, hk', hpc', hne, hname, hvalued, hvalued'⟩

theorem not_insertsBeside_of_recv {s : ServerState DB} {c : ℕ} {inp : Input} {k : Handler}
    (hk : s.handlers[c]? = some k) (hpc : k.pc = .recv) : ¬ InsertsBeside valued s (.serve c inp) := by
  rintro ⟨c₁, c', k₁, k', m₁, m', ha, hk₁, hpc₁, -⟩
  cases ha
  obtain rfl := Option.some.inj (hk.symm.trans hk₁)
  rw [hpc] at hpc₁
  cases hpc₁

theorem tabled_step (h : SelectsNames sql person) (hrows : InsertRows sql person valued refused)
    {s t : ServerState DB} {a : ServerAction} (hs : Registering valued refused s)
    (hreg : Registers s a) (hrow : OneRow valued refused s a) (htab : Tabled person valued s)
    (hstep : serverStep sql s a = some t) : Tabled person valued t ↔ ¬ InsertsBeside valued s a := by
  obtain ⟨rfl, rfl⟩ | ⟨c, inp, k, srv, pc, rfl, hk, hr, rfl⟩ := serverStep_cases hstep
  · refine iff_of_true (htab.kept rfl fun c k m hk hpc => ?_) ?_
    · rcases WaitQueues.getElem?_concat_cases hk with ⟨-, rfl⟩ | hk
      · cases hpc
      · exact .inl hk
    · rintro ⟨c, c', k, k', m, m', ha, -⟩
      cases ha
  have hold {c' : ℕ} {k' : Handler} {m' : Msg}
      (hk' : (s.handlers.set c { k with pc := pc })[c']? = some k') (hpc' : k'.pc = .insertPerson m') :
      pc = .insertPerson m' ∨ (c' ≠ c ∧ s.handlers[c']? = some k') := by
    rcases WaitQueues.getElem?_set_cases hk' with ⟨rfl, rfl⟩ | ⟨hne, hk'⟩
    · exact .inl hpc'
    · exact .inr ⟨Ne.symm hne, hk'⟩
  cases registrationStep h hrows hs hk hreg hrow hr with
  | kept hrecv hdb hpc =>
    refine iff_of_true (htab.kept (congrArg names hdb) fun c' k' m' hk' hpc' => ?_)
      (not_insertsBeside_of_recv hk hrecv)
    rcases hold hk' hpc' with hpc' | ⟨-, hk'⟩
    · rcases hpc with rfl | rfl <;> cases hpc'
    · exact .inl hk'
  | queried m hrecv hdb hpc hm hfree =>
    refine iff_of_true (htab.kept (congrArg names hdb) fun c' k' m' hk' hpc' => ?_)
      (not_insertsBeside_of_recv hk hrecv)
    rcases hold hk' hpc' with hpc' | ⟨-, hk'⟩
    · rw [hpc] at hpc'
      cases hpc'
      exact .inr hfree
    · exact .inl hk'
  | inserted m hins hinp hpc hvalued hrefused =>
    rw [insertsBeside_iff hk hins]
    by_cases hval : valued m.password.str
    · have hfree := htab.free c k m hk hins hval
      constructor
      · rintro ht ⟨-, -, c', k', m', hne, hk', hpc', hname, hvalued'⟩
        have hfree' := ht.free c' k' m'
          ((List.getElem?_set_ne (Ne.symm hne)).trans hk') hpc' hvalued'
        rw [hvalued hval, hname] at hfree'
        exact hfree' (List.mem_append_right _ (List.mem_singleton_self _))
      · intro hnone
        refine ⟨?_, fun c' k' m' hk' hpc' hvalued' => ?_⟩
        · rw [hvalued hval, ← List.concat_eq_append, List.nodup_concat]
          exact ⟨hfree, htab.names⟩
        · rw [hvalued hval, List.mem_append, List.mem_singleton, not_or]
          rcases hold hk' hpc' with hpc'' | ⟨hne, hk'⟩
          · rw [hpc] at hpc''
            cases hpc''
          · exact ⟨htab.free c' k' m' hk' hpc' hvalued',
              fun hname => hnone ⟨hinp, hval, c', k', m', hne, hk', hpc', hname, hvalued'⟩⟩
    · refine iff_of_true (htab.kept (hrefused hval) fun c' k' m' hk' hpc' => ?_) (fun hb => hval hb.2.1)
      rcases hold hk' hpc' with hpc'' | ⟨-, hk'⟩
      · rw [hpc] at hpc''
        cases hpc''
      · exact .inl hk'

/-- In every run of registrations whose inserts add one row or none, the names are and stay unique
exactly if no handler inserts a row for a name beside another one that is about to. -/
theorem names_unique_iff_none_beside (h : SelectsNames sql person)
    (hrows : InsertRows sql person valued refused) (db : DB) (hdb : (names (person db)).Nodup)
    (as : List ServerAction) (t : ServerState DB)
    (hrun : (serverMachine sql).run (ServerState.start (Server.start db)) as = some t)
    (hreg : (serverMachine sql).EachStep Registers (ServerState.start (Server.start db)) as)
    (hrow : (serverMachine sql).EachStep (OneRow valued refused)
      (ServerState.start (Server.start db)) as) :
    (serverMachine sql).EachState (StaysUnique sql person) (ServerState.start (Server.start db)) as ↔
      (serverMachine sql).EachStep (fun s a => ¬ InsertsBeside valued s a)
        (ServerState.start (Server.start db)) as := by
  have hstart : Registering valued refused (ServerState.start (Server.start db)) := by
    simp [Registering, ServerState.start]
  refine eachState_iff_eachStep_within (M := serverMachine sql) (I := Registering valued refused)
    (D := fun s a => Registers s a ∧ OneRow valued refused s a) (t := t)
    (fun s a u hs hd hstep => registering_step h hrows hs hd.1 hd.2 hstep)
    (fun s a u hs hp hd hstep => ?_) hstart ?_ (hreg.and hrow) hrun
  · rw [staysUnique_iff hrows (registering_step h hrows hs hd.1 hd.2 hstep)]
    exact tabled_step h hrows hs hd.1 hd.2 ((staysUnique_iff hrows hs).mp hp) hstep
  · rw [staysUnique_iff hrows hstart]
    exact ⟨hdb, fun c k m hk => by simp [ServerState.start] at hk⟩

def registerR (password : Bytes) : Msg :=
  { Msg.zero with name := .ofBytes 20 [114], password := .ofBytes 20 password }

/-- Two connections register `r`, with the passwords `1` and `2`. -/
def bothRegister : List ServerAction :=
  [.accept, .accept, .serve 0 (.record (registerR [49]) (.zero 20)),
    .serve 1 (.record (registerR [50]) (.zero 20)), .serve 0 .go, .serve 1 .go]

/-- Both find no row of the name, and both insert one. A login is then compared with the last. -/
theorem bothRegister_twice :
    ∃ t, (serverMachine personSqlite).run (ServerState.start (Server.start [])) bothRegister =
        some t ∧
      t.srv.db = [⟨[114], [49]⟩, ⟨[114], [50]⟩] ∧
      (querypassword personSqlite t.srv.db (.zero 20) (registerR [49])).2 = 0 ∧
      ¬ (serverMachine personSqlite).EachState (fun s => (names s.srv.db).Nodup)
        (ServerState.start (Server.start [])) bothRegister := by
  refine ⟨_, rfl, by decide +kernel, by decide +kernel, fun hall => ?_⟩
  exact absurd (hall.last rfl) (by decide +kernel)

theorem bothRegister_beside :
    ¬ (serverMachine personSqlite).EachStep (fun s a => ¬ InsertsBeside IsNumber s a)
      (ServerState.start (Server.start [])) bothRegister := by
  rw [← names_unique_iff_none_beside personTable_personSqlite.selectsNames
    personTable_personSqlite.insertRows [] (by decide +kernel) bothRegister _ rfl (by decide +kernel)
    (by decide +kernel)]
  intro hall
  exact absurd (hall.last rfl).names (by decide +kernel)

end LinuxCat.ServerModel
