import LinuxCat.PersonTable
import Mathlib.Data.List.Sort

/-! # The stored messages and the history of a conversation

Private and group messages go into one table, the group ones with `all` for their addressee. What
the insert and the select on it do is assumed of SQLite, for texts without a quote. -/
namespace LinuxCat.ServerModel
open LabelledMachines LabelledMachines.Machine ByteLayouts Messages DecimalTexts

/-- A row of `storagemessage`. -/
structure Stored where
  fromname : Bytes
  toname : Bytes
  message : Bytes
  timestamp : Bytes
  deriving DecidableEq, Repr

def Stored.columns (r : Stored) : List Bytes := [r.fromname, r.toname, r.message, r.timestamp]

def insertMessageText (name toname message : Bytes) : Bytes :=
  text "insert into storagemessage(fromname,toname,message) values('" ++ name ++
    text "', '" ++ toname ++ text "', '" ++ message ++ text "');"

def selectMessageText (name toname : Bytes) : Bytes :=
  text "select fromname,toname,message,timestamp from storagemessage where (toname = '" ++
    toname ++ text "' and fromname = '" ++ name ++ text "') or (fromname = '" ++ toname ++
    text "' and toname = '" ++ name ++ text "') order by timestamp desc limit 8;"

/-- The condition of the select. -/
def Stored.between (name toname : Bytes) (r : Stored) : Bool :=
  (r.toname = toname ∧ r.fromname = name) ∨ (r.fromname = toname ∧ r.toname = name)

/-- The later of two rows comes first. -/
def Stored.Later (r r' : Stored) : Prop := r'.timestamp ≤ r.timestamp

/-- The insert appends one row with a timestamp. The select keeps the rows that meet its condition,
sorts them by their timestamps in descending order and returns the first eight; `order` is the
sort, which is free among rows of one timestamp. -/
structure MessageTable {DB : Type} (sql : Sqlite DB) (storage : DB → List Stored)
    (order : List Stored → List Stored) : Prop where
  insert : ∀ db name toname message, quote ∉ name → quote ∉ toname → quote ∉ message →
    ∃ timestamp, storage (sql.exec db (insertMessageText name toname message)).1 =
      storage db ++ [⟨name, toname, message, timestamp⟩]
  select : ∀ db name toname, quote ∉ name → quote ∉ toname →
    storage (sql.exec db (selectMessageText name toname)).1 = storage db ∧
    (sql.exec db (selectMessageText name toname)).2 =
      ((order ((storage db).filter (Stored.between name toname))).take 8).map Stored.columns
  perm : ∀ rows, (order rows).Perm rows
  sorted : ∀ rows, (order rows).Pairwise Stored.Later

/-! ## The runs -/

/-- The addressee of group messages. -/
def all : Bytes := text "all"

/-- The only requests are private messages, group messages and histories, without a quote. -/
def Chats {DB : Type} (s : ServerState DB) (a : ServerAction) : Prop :=
  ∀ m, s.requestOf a = some m →
    (m.action = 2 ∨ (m.action = 4 ∧ m.toname.str = all) ∨ m.action = 9) ∧
      quote ∉ m.name.str ∧ quote ∉ m.toname.str ∧ quote ∉ m.message.str

/-- The request of the step, if it stores a message. -/
def Served.posts (i : Served) : List Msg :=
  i.request.toList.filter (fun m => m.action = 2 ∨ m.action = 4)

/-- The requests of the run that store a message, oldest first. -/
def ServerState.posted {DB : Type} (s : ServerState DB) : List Msg := s.history.flatMap Served.posts

section
variable {DB : Type} (storage : DB → List Stored)

/-- These, each with the timestamp of its row. -/
def ServerState.messages (s : ServerState DB) : List (Msg × Bytes) :=
  s.posted.zip ((storage s.srv.db).map Stored.timestamp)

end

def rowOf (p : Msg × Bytes) : Stored := ⟨p.1.name.str, p.1.toname.str, p.1.message.str, p.2⟩

/-- What the two users have sent each other by action 2, oldest first. -/
def ServerState.conversation {DB : Type} (storage : DB → List Stored) (name toname : Bytes)
    (s : ServerState DB) : List Stored :=
  ((s.messages storage).filter (fun p =>
    p.1.action = 2 ∧ (rowOf p).between name toname)).map rowOf

/-- The line for a message in the history of `name`: its own, or the other's. -/
def historyLine (name : Bytes) (r : Stored) : Bytes :=
  if r.fromname = name then r.message ++ text ":我，时间:" ++ r.timestamp ++ text "\n"
  else text "时间:" ++ r.timestamp ++ text "," ++ r.fromname ++ text ":" ++ r.message ++ text "\n"

/-- The histories of two users about each other show the eight newest messages of their
conversation. -/
structure ShowsConversation {DB : Type} (sql : Sqlite DB) (storage : DB → List Stored)
    (order : List Stored → List Stored) (name toname : Bytes) (s : ServerState DB) : Prop where
  own : ∀ m : Msg, m.name.str = name → m.toname.str = toname → (selectMessage sql s.srv.db m).2 =
    ((order (s.conversation storage name toname)).take 8).flatMap (historyLine name)
  other : ∀ m : Msg, m.name.str = toname → m.toname.str = name → (selectMessage sql s.srv.db m).2 =
    ((order (s.conversation storage name toname)).take 8).flatMap (historyLine toname)
  perm : (order (s.conversation storage name toname)).Perm (s.conversation storage name toname)
  newest : (order (s.conversation storage name toname)).Pairwise Stored.Later
  /-- where the clock tells the messages apart, the last one sent comes first -/
  last : (s.conversation storage name toname).Pairwise (fun r r' => r.timestamp < r'.timestamp) →
    order (s.conversation storage name toname) = (s.conversation storage name toname).reverse

/-- No group message of one of the users, while the other one is named `all`. -/
def KeepsApart {DB : Type} (name toname : Bytes) (s : ServerState DB) (a : ServerAction) : Prop :=
  ∀ m, s.requestOf a = some m → m.action = 4 →
    ¬ ((m.name.str = name ∧ toname = all) ∨ (m.name.str = toname ∧ name = all))

instance {DB : Type} (s : ServerState DB) (a : ServerAction) : Decidable (Chats s a) :=
  inferInstanceAs (Decidable (∀ m, s.requestOf a = some m → _))

instance {DB : Type} (name toname : Bytes) (s : ServerState DB) (a : ServerAction) :
    Decidable (KeepsApart name toname s a) :=
  inferInstanceAs (Decidable (∀ m, s.requestOf a = some m → _))

variable {DB : Type} {sql : Sqlite DB} {storage : DB → List Stored}
  {order : List Stored → List Stored}

/-! ## What one request writes -/

theorem Stored.between_comm (name toname : Bytes) (r : Stored) :
    r.between name toname = r.between toname name := by
  simp only [Stored.between, decide_eq_decide]
  tauto

theorem myGetmessageCallback_columns {name toname : Bytes} {r : Stored}
    (h : r.between name toname = true) :
    myGetmessageCallback name toname r.columns = historyLine name r := by
  simp only [Stored.between, decide_eq_true_eq] at h
  simp only [myGetmessageCallback, Stored.columns, historyLine, List.getD_cons_zero,
    List.getD_cons_succ]
  by_cases hname : r.fromname = name
  · rw [if_pos hname.symm, if_pos hname]
  · have hto : toname = r.fromname := by
      rcases h with h | h
      · exact absurd h.2 hname
      · exact h.1.symm
    rw [if_neg (Ne.symm hname), if_neg hname, if_pos hto]

/-- `message.text` holds the lines of the rows the select returns. -/
theorem MessageTable.selectMessage_eq (h : MessageTable sql storage order) {db : DB} {m : Msg}
    (hname : quote ∉ m.name.str) (hto : quote ∉ m.toname.str) :
    storage (selectMessage sql db m).1 = storage db ∧ (selectMessage sql db m).2 =
      ((order ((storage db).filter (Stored.between m.name.str m.toname.str))).take 8).flatMap
        (historyLine m.name.str) := by
  obtain ⟨hkeep, hrows⟩ := h.select db m.name.str m.toname.str hname hto
  refine ⟨hkeep, ?_⟩
  have hcontent : (selectMessage sql db m).2 =
      (sql.exec db (selectMessageText m.name.str m.toname.str)).2.flatMap
        (myGetmessageCallback m.name.str m.toname.str) := rfl
  rw [hcontent, hrows, List.flatMap_map]
  refine List.flatMap_congr fun r hr => myGetmessageCallback_columns ?_
  have hmem := (h.perm _).mem_iff.mp (List.mem_of_mem_take hr)
  exact (List.mem_filter.mp hmem).2

/-- Rows of different timestamps have one order. -/
theorem MessageTable.order_eq_reverse (h : MessageTable sql storage order) {rows : List Stored}
    (hrows : rows.Pairwise (fun r r' => r.timestamp < r'.timestamp)) : order rows = rows.reverse := by
  have hreverse : rows.reverse.Pairwise Stored.Later := by
    rw [List.pairwise_reverse]
    exact hrows.imp fun hlt => List.le_of_lt hlt
  refine ((h.perm rows).trans (List.reverse_perm rows).symm).eq_of_pairwise ?_ (h.sorted rows) hreverse
  intro r r' hr hr' hle hle'
  have hnodup : (rows.map Stored.timestamp).Nodup :=
    List.pairwise_map.mpr (hrows.imp fun {r r'} hlt (he : r.timestamp = r'.timestamp) => by
      rw [he] at hlt
      exact List.lt_irrefl _ hlt)
  exact List.inj_on_of_nodup_map hnodup ((h.perm rows).mem_iff.mp hr) (List.mem_reverse.mp hr')
    (List.le_antisymm hle' hle)

/-! ## The table and the history of the run -/

/-- Handlers are in no request of several steps, and none but the endless one of action 4. -/
def Chatting (s : ServerState DB) : Prop := ∀ k ∈ s.handlers, k.pc ∈ [.recv, .exited, .spinning]

/-- What a step of a handler does to the database. -/
inductive ChatStep (sql : Sqlite DB) (srv : Server DB) (k : Handler) (inp : Input)
    (srv' : Server DB) : Prop
  | silent (hreq : requested k.pc inp = none) (hdb : srv'.db = srv.db)
  | post (m : Msg) (junk : CharArray 20) (hreq : requested k.pc inp = some (m, junk))
      (hact : m.action = 2 ∨ m.action = 4) (hdb : srv'.db = insertDataMessage sql srv.db m)
  | select (m : Msg) (junk : CharArray 20) (hreq : requested k.pc inp = some (m, junk))
      (hact : m.action = 9) (hdb : srv'.db = (selectMessage sql srv.db m).1)

theorem case2_db (sql : Sqlite DB) (srv : Server DB) (cfd : ℤ) (m : Msg) :
    (case2 sql srv cfd m).1.db = insertDataMessage sql srv.db m ∧ (case2 sql srv cfd m).2 = .recv := by
  simp only [case2]
  split_ifs <;> exact ⟨rfl, rfl⟩

theorem case4_db (sql : Sqlite DB) (srv : Server DB) (cfd : ℤ) (m : Msg) :
    (case4 sql srv cfd m).1.db = insertDataMessage sql srv.db m ∧
      (case4 sql srv cfd m).2 ∈ [Pc.recv, .exited, .spinning] := by
  simp only [case4]
  split
  · exact ⟨rfl, by simp⟩
  · split_ifs
    · exact ⟨rfl, by simp⟩
    · exact ⟨rfl, by simp⟩
    · exact ⟨rfl, by simp⟩

theorem chatStep {s : ServerState DB} {c : ℕ} {inp : Input} {k : Handler} {srv' : Server DB} {pc : Pc}
    (hs : Chatting s) (hk : s.handlers[c]? = some k) (hchat : Chats s (.serve c inp))
    (hstep : threadReadPc sql s.srv k.cfd k.pc inp = some (srv', pc)) :
    ChatStep sql s.srv k inp srv' ∧ pc ∈ [.recv, .exited, .spinning] := by
  cases hreq : requested k.pc inp with
  | some q =>
    obtain ⟨m, junk⟩ := q
    have hof := requestOf_of_requested hk hreq
    have heq := eq_dispatch hreq hstep
    obtain ⟨h2 | ⟨h4, -⟩ | h9, -⟩ := hchat m hof
    · rw [dispatch_eq_case2 h2] at heq
      obtain ⟨hdb, hpc⟩ := case2_db sql s.srv k.cfd m
      rw [← heq] at hdb hpc
      exact ⟨.post m junk hreq (.inl h2) hdb, by simp [show pc = .recv from hpc]⟩
    · rw [dispatch_eq_case4 h4] at heq
      obtain ⟨hdb, hpc⟩ := case4_db sql s.srv k.cfd m
      rw [← heq] at hdb hpc
      exact ⟨.post m junk hreq (.inr h4) hdb, hpc⟩
    · rw [dispatch_eq_case9 h9] at heq
      cases heq
      exact ⟨.select m junk hreq h9 rfl, by simp⟩
  | none =>
    have hmem := hs k (List.mem_of_getElem? hk)
    simp only [List.mem_cons, List.not_mem_nil, or_false] at hmem
    rcases hmem with hpc | hpc | hpc
    · rw [hpc] at hstep
      obtain ⟨-, heq⟩ := threadReadPc_unrequested hstep (hpc ▸ hreq)
      cases heq
      exact ⟨.silent hreq rfl, by simp⟩
    · rw [hpc] at hstep
      cases hstep
    · rw [hpc] at hstep
      simp only [threadReadPc] at hstep
      split_ifs at hstep
      cases hstep
      exact ⟨.silent hreq rfl, by simp⟩

/-- The table is what the requests of the run have stored, and no group message is one between the
two users. -/
structure Recorded (storage : DB → List Stored) (name toname : Bytes) (s : ServerState DB) : Prop where
  chatting : Chatting s
  length : s.posted.length = (storage s.srv.db).length
  rows : storage s.srv.db = (s.messages storage).map rowOf
  actions : ∀ p ∈ s.messages storage, (rowOf p).between name toname = true → p.1.action = 2

/-- A step that stores nothing. -/
theorem Recorded.kept {name toname : Bytes} {s t : ServerState DB} (h : Recorded storage name toname s)
    (hchatting : Chatting t) (hposted : t.posted = s.posted)
    (hstorage : storage t.srv.db = storage s.srv.db) : Recorded storage name toname t := by
  have hmessages : t.messages storage = s.messages storage := by
    rw [ServerState.messages, hposted, hstorage]
    rfl
  exact ⟨hchatting, by rw [hposted, hstorage]; exact h.length, by rw [hmessages, hstorage]; exact h.rows,
    by rw [hmessages]; exact h.actions⟩

/-- A step that stores a message. -/
theorem Recorded.posted {name toname : Bytes} {s t : ServerState DB} {m : Msg}
    (h : Recorded storage name toname s) (timestamp : Bytes) (hchatting : Chatting t) (hposted : t.posted = s.posted ++ [m])
    (hstorage : storage t.srv.db = storage s.srv.db ++ [rowOf (m, timestamp)])
    (hact : (rowOf (m, timestamp)).between name toname = true → m.action = 2) :
    Recorded storage name toname t := by
  have hmessages : t.messages storage = s.messages storage ++ [(m, timestamp)] := by
    rw [ServerState.messages, hposted, hstorage, List.map_append, List.zip_append]
    · rfl
    · rw [List.length_map, h.length]
  refine ⟨hchatting, ?_, ?_, fun p hp hbetween => ?_⟩
  · rw [hposted, hstorage, List.length_append, List.length_append, h.length]
    rfl
  · rw [hmessages, hstorage, List.map_append, ← h.rows]
    rfl
  · rw [hmessages] at hp
    rcases List.mem_append.mp hp with hp | hp
    · exact h.actions p hp hbetween
    · rw [List.mem_singleton.mp hp] at hbetween ⊢
      exact hact hbetween

theorem recorded_step (h : MessageTable sql storage order) {name toname : Bytes} {s t : ServerState DB}
    {a : ServerAction} (hs : Recorded storage name toname s) (hchat : Chats s a)
    (hq : KeepsApart name toname s a) (hstep : serverStep sql s a = some t) :
    Recorded storage name toname t := by
  obtain ⟨rfl, rfl⟩ | ⟨c, inp, k, srv, pc, rfl, hk, hr, rfl⟩ := serverStep_cases hstep
  · exact hs.kept (WaitQueues.forall_mem_concat hs.chatting List.mem_cons_self) rfl rfl
  obtain ⟨hdb, hpc⟩ := chatStep hs.chatting hk hchat hr
  have hchatting : Chatting
      { srv := srv
        handlers := s.handlers.set c { k with pc := pc }
        history := s.history ++ [served sql s.srv srv k inp] } :=
    WaitQueues.forall_mem_set hs.chatting hpc
  have hposted : ServerState.posted
      { srv := srv
        handlers := s.handlers.set c { k with pc := pc }
        history := s.history ++ [served sql s.srv srv k inp] } =
      s.posted ++ (served sql s.srv srv k inp).posts := by
    simp [ServerState.posted]
  cases hdb with
  | silent hreq hdb =>
    refine hs.kept hchatting ?_ (congrArg storage hdb)
    rw [hposted]
    simp [Served.posts, served, hreq]
  | post m junk hreq hact hdb =>
    have hof := requestOf_of_requested hk hreq
    obtain ⟨hchats, hname, hto, hmessage⟩ := hchat m hof
    obtain ⟨timestamp, hrow⟩ := h.insert s.srv.db m.name.str m.toname.str m.message.str hname hto
      hmessage
    refine hs.posted timestamp hchatting ?_ ((congrArg storage hdb).trans hrow)
      fun hbetween => ?_
    · rw [hposted]
      simp [Served.posts, served, hreq, hact]
    · by_contra h2
      have h4 := hact.resolve_left h2
      have hall : m.toname.str = all := by
        rcases hchats with h | ⟨-, h⟩ | h
        · exact absurd h h2
        · exact h
        · omega
      refine hq m hof h4 ?_
      simp only [Stored.between, rowOf, decide_eq_true_eq, hall] at hbetween
      rcases hbetween with ⟨hall', hname'⟩ | ⟨hname', hall'⟩
      · exact .inl ⟨hname', hall'.symm⟩
      · exact .inr ⟨hname', hall'.symm⟩
  | select m junk hreq hact hdb =>
    have hof := requestOf_of_requested hk hreq
    obtain ⟨-, hname, hto, -⟩ := hchat m hof
    refine hs.kept hchatting ?_ ((congrArg storage hdb).trans (h.selectMessage_eq hname hto).1)
    rw [hposted]
    simp [Served.posts, served, hreq, hact]

theorem Recorded.filter_eq {name toname : Bytes} {s : ServerState DB}
    (h : Recorded storage name toname s) :
    (storage s.srv.db).filter (Stored.between name toname) = s.conversation storage name toname := by
  rw [h.rows, List.filter_map, ServerState.conversation]
  congr 1
  refine List.filter_congr fun p hp => ?_
  by_cases hbetween : (rowOf p).between name toname = true
  · simp [hbetween, h.actions p hp hbetween]
  · simp [hbetween]

theorem Recorded.shows (h : MessageTable sql storage order) {name toname : Bytes}
    (hname : quote ∉ name) (hto : quote ∉ toname) {s : ServerState DB}
    (hs : Recorded storage name toname s) : ShowsConversation sql storage order name toname s := by
  refine ⟨?_, ?_, h.perm _, h.sorted _, h.order_eq_reverse⟩
  · rintro m rfl rfl
    rw [(h.selectMessage_eq hname hto).2, hs.filter_eq]
  · rintro m rfl rfl
    rw [(h.selectMessage_eq hto hname).2, ← hs.filter_eq]
    congr 3
    exact List.filter_congr fun r _ => r.between_comm _ _

instance : DecidableRel Stored.Later := fun r r' =>
  inferInstanceAs (Decidable (r'.timestamp ≤ r.timestamp))

instance : Std.Total Stored.Later := ⟨fun r r' => List.le_total r'.timestamp r.timestamp⟩

instance : IsTrans Stored Stored.Later := ⟨fun _ _ _ h h' => List.le_trans h' h⟩

def newestFirst (rows : List Stored) : List Stored := rows.insertionSort Stored.Later

/-- A clock that ticks at every insert. -/
def clock (rows : List Stored) : Bytes := text "2026-01-01 00:00:0" ++ decimal rows.length

/-- The two statements. -/
def messageSqlite : Sqlite (List Stored) where
  exec rows statement :=
    let insert := text "insert into storagemessage(fromname,toname,message) values('"
    let select := text
      "select fromname,toname,message,timestamp from storagemessage where (toname = '"
    if insert.isPrefixOf statement then
      let values := statement.drop insert.length
      let behind := afterLiteral (text "', '") values
      (rows ++ [⟨literal values, literal behind, literal (afterLiteral (text "', '") behind),
        clock rows⟩], [])
    else if select.isPrefixOf statement then
      let wanted := statement.drop select.length
      let name := literal (afterLiteral (text "' and fromname = '") wanted)
      (rows, ((newestFirst (rows.filter (Stored.between name (literal wanted)))).take 8).map
        Stored.columns)
    else (rows, [])

theorem messageTable_messageSqlite : MessageTable messageSqlite id newestFirst where
  insert db name toname message hname hto hmessage := by
    have hshape : insertMessageText name toname message =
        text "insert into storagemessage(fromname,toname,message) values('" ++ (name ++
          (text "', '" ++ (toname ++ (text "', '" ++ (message ++ text "');"))))) := by
      simp only [insertMessageText, List.append_assoc]
    have hhead : (text "insert into storagemessage(fromname,toname,message) values('").isPrefixOf
        (insertMessageText name toname message) = true := by
      rw [List.isPrefixOf_iff_prefix, hshape]
      exact List.prefix_append _ _
    have hvalues : (insertMessageText name toname message).drop
        (text "insert into storagemessage(fromname,toname,message) values('").length = name ++
          (text "', '" ++ (toname ++ (text "', '" ++ (message ++ text "');")))) := by
      rw [hshape, List.drop_left]
    have hlit (bs rest : Bytes) (h : quote ∉ bs) : literal (bs ++ (text "', '" ++ rest)) = bs :=
      literal_append h _
    have hlast : literal (message ++ text "');") = message := literal_append hmessage _
    refine ⟨clock db, ?_⟩
    simp only [messageSqlite, hhead, if_true, hvalues, hlit name _ hname, hlit toname _ hto, hlast,
      afterLiteral_append (text "', '") hname rfl,
      afterLiteral_append (text "', '") hto rfl, id]
  select db name toname hname hto := by
    have hother : (text "insert into storagemessage(fromname,toname,message) values('").isPrefixOf
        (selectMessageText name toname) = false := rfl
    have hshape : selectMessageText name toname =
        text "select fromname,toname,message,timestamp from storagemessage where (toname = '" ++
          (toname ++ (text "' and fromname = '" ++ (name ++ (text "') or (fromname = '" ++ (toname ++
            (text "' and toname = '" ++ (name ++
              text "') order by timestamp desc limit 8;"))))))) := by
      simp only [selectMessageText, List.append_assoc]
    have hhead : (text
        "select fromname,toname,message,timestamp from storagemessage where (toname = '").isPrefixOf
        (selectMessageText name toname) = true := by
      rw [List.isPrefixOf_iff_prefix, hshape]
      exact List.prefix_append _ _
    have hwanted := congrArg (List.drop (text
      "select fromname,toname,message,timestamp from storagemessage where (toname = '").length) hshape
    rw [List.drop_left] at hwanted
    have hto' (rest : Bytes) : literal (toname ++ (text "' and fromname = '" ++ rest)) = toname :=
      literal_append hto _
    have hname' (rest : Bytes) : literal (name ++ (text "') or (fromname = '" ++ rest)) = name :=
      literal_append hname _
    simp only [messageSqlite, hother, hhead, Bool.false_eq_true, if_false, if_true, hwanted, hto',
      hname', afterLiteral_append (text "' and fromname = '") hto rfl, id, and_self]
  perm rows := List.perm_insertionSort _ rows
  sorted rows := List.pairwise_insertionSort _ rows

def said (action : ℤ) (name toname message : Bytes) : Msg :=
  { Msg.zero with
    action := action
    name := .ofBytes 20 name
    toname := .ofBytes 20 toname
    message := .ofBytes 1024 message }

def userR : Bytes := text "r"

def userS : Bytes := text "s"

/-- `r` and another user are online. -/
def besideR (other : Bytes) : List Online := [⟨0, 0, userR⟩, ⟨1, 0, other⟩]

/-- `r` writes to `s`, then to the group, and `s` answers `r`. -/
def chatOfTwo : List ServerAction :=
  [.serve 0 (.record (said 2 userR userS (text "hi")) (.zero 20)),
    .serve 0 (.record (said 4 userR all (text "you")) (.zero 20)),
    .serve 1 (.record (said 2 userS userR (text "yes")) (.zero 20))]

/-- `r` writes to the group, and another user is named `all`. -/
def chatWithAll : List ServerAction := [.serve 0 (.record (said 4 userR all (text "hi")) (.zero 20))]

end LinuxCat.ServerModel
