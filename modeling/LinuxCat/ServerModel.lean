import LinuxCat.Messages

/-! # The server's request handlers

`threadRead` is one step of a thread in `thread_read`: a `recv` with all its case does at
one go, or the next piece of a case that takes several. SQLite is a parameter. -/
namespace LinuxCat.ServerModel
open ByteLayouts Messages

/-- The bytes of a string literal of the source. -/
def text (s : String) : Bytes := s.toUTF8.data.toList

def RECVBUF_SIZE : ℕ := 100

/-- `sqlite3_exec`: the database after a statement, and the rows its callback is called
with, each a list of column values. -/
structure Sqlite (DB : Type) where
  exec : DB → Bytes → DB × List (List Bytes)

/-- A database that answers nothing. -/
def Sqlite.silent : Sqlite Unit := ⟨fun _ _ => ((), [])⟩

/-- `struct online`; the list is the chain from `head`. -/
structure Online where
  cfd : ℤ
  say : ℤ
  name : Bytes
  deriving DecidableEq, Repr

structure StroSockfd where
  cfd : ℤ
  use : ℤ
  offset : ℤ
  filename : CharArray 20
  deriving DecidableEq, Repr

/-- What is done to a descriptor: a record or raw bytes written, or `close`. -/
inductive Out
  | record (m : Msg)
  | raw (bs : Bytes)
  | close
  deriving DecidableEq, Repr

/-- The globals of the server, and the history of its writes, oldest first. -/
structure Server (DB : Type) where
  db : DB
  online : List Online
  addr : List ℤ
  findCfd : List StroSockfd
  written : List (ℤ × Out)
  deriving DecidableEq, Repr

def Server.start {DB : Type} (db : DB) : Server DB where
  db := db
  online := []
  addr := List.replicate 100 0
  findCfd := List.replicate 20 ⟨0, 0, 0, .zero 20⟩
  written := []

/-- Where a thread is in `thread_read`. -/
inductive Pc
  | recv
  /-- action 0, between `queryname` and the insert -/
  | insertPerson (pmsg : Msg)
  /-- action 3, between the reply to the sender and the notice to the receiver -/
  | notify (pmsg : Msg) (toFd : ℤ)
  /-- action 5, about to look at slot `i` -/
  | search (pmsg : Msg) (i : ℕ)
  /-- `send_file`, at its first and at its second `recv` -/
  | relay (pmsg : Msg) (tofd remainSize : ℤ)
  | relayRest (pmsg : Msg) (tofd remainSize : ℤ)
  /-- behind `pthread_cancel`, which acts at the next `recv` -/
  | cancelled
  /-- action -5, about to look at slot `i` -/
  | register (pmsg : Msg) (i : ℕ)
  /-- in the loop of action 4 on a first entry that is not the sender's -/
  | spinning
  /-- behind the search for an id beyond `addr`, the first entry of an empty list in action 6, or
  bytes beyond the buffer of a relay, which end the process; `strlen` of a full `buf`, a statement
  that is longer than `sql`, and a column that is NULL or too long are not part of this model -/
  | fault
  | exited
  deriving DecidableEq, Repr

structure Handler where
  cfd : ℤ
  pc : Pc
  deriving DecidableEq, Repr

/-- What the thread meets next. `junk` is the local 20-byte buffer of the query functions
as the stack left it. -/
inductive Input
  /-- `recv` returns 0 -/
  | closed
  /-- `recv` returns -1; the buffer is the zeros `memset` left -/
  | failed (junk : CharArray 20)
  /-- `recv` filled the buffer with `m` -/
  | record (m : Msg) (junk : CharArray 20)
  /-- no `recv` is next -/
  | go
  /-- the `recv` of `send_file` returns these bytes (none: the stream has ended), or -1 -/
  | data (bs : Bytes)
  | dataFailed
  deriving DecidableEq, Repr

section
variable {DB : Type}

/-- `my_strcmp` on the arrays from index `i` on; a byte behind an array reads as zero. -/
def myStrcmp : Bytes → Bytes → ℤ
  | [], src => if src.headD 0 = 0 then 1 else 0
  | d :: dest, src =>
    if d = src.headD 0 then
      if dest.headD 0 = 0 then 1 else myStrcmp dest src.tail
    else 0

/-- `my_sqlite_callback` on every row: the buffer holds the first column of the last one. -/
def mySqliteCallback (buf : CharArray 20) (rows : List (List Bytes)) : CharArray 20 :=
  rows.foldl (fun buf row => buf.strcpy (row.headD [])) buf

/-- A select whose rows go through `my_sqlite_callback`, compared with `wanted`. -/
def queryEquals (sql : Sqlite DB) (db : DB) (junk : CharArray 20) (query : Bytes)
    (wanted : CharArray 20) : DB × ℤ :=
  let r := sql.exec db query
  (r.1, if myStrcmp (mySqliteCallback junk r.2).bytes wanted.bytes = 1 then 1 else 0)

def querypassword (sql : Sqlite DB) (db : DB) (junk : CharArray 20) (msg : Msg) : DB × ℤ :=
  queryEquals sql db junk
    (text "select password from person where name = '" ++ msg.name.str ++ text "';") msg.password

def queryname (sql : Sqlite DB) (db : DB) (junk : CharArray 20) (msg : Msg) : DB × ℤ :=
  queryEquals sql db junk
    (text "select name from person where name = '" ++ msg.name.str ++ text "';") msg.name

def queryManagerPassword (sql : Sqlite DB) (db : DB) (junk : CharArray 20) (msg : Msg) :
    DB × ℤ :=
  queryEquals sql db junk
    (text "select password from manager where name = '" ++ msg.name.str ++ text "';")
    msg.password

def insertPersonText (pmsg : Msg) : Bytes :=
  text "insert into person(name,password)values('" ++ pmsg.name.str ++ text "'," ++
    pmsg.password.str ++ text ");"

def insertDataMessage (sql : Sqlite DB) (db : DB) (pmsg : Msg) : DB :=
  (sql.exec db
    (text "insert into storagemessage(fromname,toname,message) values('" ++ pmsg.name.str ++
      text "', '" ++ pmsg.toname.str ++ text "', '" ++ pmsg.message.str ++ text "');")).1

/-- `my_getmessage_callback`: the line one row adds to `message.text`. -/
def myGetmessageCallback (name toname : Bytes) (row : List Bytes) : Bytes :=
  let fromname := row.getD 0 []
  let message := row.getD 2 []
  let timestamp := row.getD 3 []
  if name = fromname then message ++ text ":我，时间:" ++ timestamp ++ text "\n"
  else if toname = fromname then
    text "时间:" ++ timestamp ++ text "," ++ fromname ++ text ":" ++ message ++ text "\n"
  else []

/-- `select_message`: the content of `message.text`. -/
def selectMessage (sql : Sqlite DB) (db : DB) (pmsg : Msg) : DB × Bytes :=
  let name := pmsg.name.str
  let toname := pmsg.toname.str
  let r := sql.exec db
    (text "select fromname,toname,message,timestamp from storagemessage where (toname = '" ++
      toname ++ text "' and fromname = '" ++ name ++ text "') or (fromname = '" ++ toname ++
      text "' and toname = '" ++ name ++ text "') order by timestamp desc limit 8;")
  (r.1, r.2.flatMap (myGetmessageCallback name toname))

def insertLink (online : List Online) (user : Online) : List Online := user :: online

def findFd (online : List Online) (toname : Bytes) : ℤ :=
  match online with
  | [] => -1
  | e :: online => if e.name = toname then e.cfd else findFd online toname

def getOnline (online : List Online) (name : Bytes) : Option Online :=
  match online with
  | [] => none
  | e :: online => if e.name = name then some e else getOnline online name

/-- Set the `say` flag of the entry `getOnline` finds. -/
def setSay (online : List Online) (name : Bytes) (say : ℤ) : List Online :=
  match online with
  | [] => []
  | e :: online =>
    if e.name = name then { e with say := say } :: online else e :: setSay online name say

/-- The removal of action 10. -/
def unlink (online : List Online) (name : Bytes) : List Online :=
  match online with
  | [] => []
  | e :: online => if e.name = name then online else e :: unlink online name

def Server.write (srv : Server DB) (fd : ℤ) (o : Out) : Server DB :=
  { srv with written := srv.written ++ [(fd, o)] }

/-- `to_all`, and the same loop in action 6. -/
def Server.toAll (srv : Server DB) (pmsg : Msg) : Server DB :=
  { srv with written := srv.written ++ srv.online.map (fun e => (e.cfd, .record pmsg)) }

def case0 (sql : Sqlite DB) (junk : CharArray 20) (srv : Server DB) (cfd : ℤ) (pmsg : Msg) :
    Server DB × Pc :=
  let r := queryname sql srv.db junk pmsg
  let srv := { srv with db := r.1 }
  if 1 = r.2 then (srv.write cfd (.record { pmsg with action := 255 }), .recv)
  else (srv, .insertPerson pmsg)

def case1 (sql : Sqlite DB) (junk : CharArray 20) (srv : Server DB) (cfd : ℤ) (pmsg : Msg) :
    Server DB × Pc :=
  let r := querypassword sql srv.db junk pmsg
  let srv := { srv with db := r.1 }
  if 0 = r.2 then (srv.write cfd (.record { pmsg with action := -1 }), .recv)
  else
    let srv := { srv with online := insertLink srv.online ⟨cfd, 0, pmsg.name.str⟩ }
    (srv.write cfd (.record pmsg), .recv)

def case2 (sql : Sqlite DB) (srv : Server DB) (cfd : ℤ) (pmsg : Msg) : Server DB × Pc :=
  let srv := { srv with db := insertDataMessage sql srv.db pmsg }
  let toFd := findFd srv.online pmsg.toname.str
  if toFd = -1 then (srv.write cfd (.record { pmsg with action := -2 }), .recv)
  else (srv.write toFd (.record pmsg), .recv)

def case3 (srv : Server DB) (cfd : ℤ) (pmsg : Msg) : Server DB × Pc :=
  let toFd := findFd srv.online pmsg.toname.str
  if toFd = -1 then (srv.write cfd (.record { pmsg with action := -2 }), .recv)
  else
    -- the search for a free id has no bound of its own
    match srv.addr.findIdx? (fun a => a ≠ 1) with
    | none => (srv, .fault)
    | some i =>
      let pmsg := { pmsg with sfileId := i }
      let srv := { srv with addr := srv.addr.set i 1 }
      (srv.write cfd (.record pmsg), .notify pmsg toFd)

def case4 (sql : Sqlite DB) (srv : Server DB) (cfd : ℤ) (pmsg : Msg) : Server DB × Pc :=
  let srv := { srv with db := insertDataMessage sql srv.db pmsg }
  match srv.online with
  | [] => (srv, .recv)
  | e :: _ =>
    if e.name = pmsg.name.str then
      if e.say ≠ 1 then (srv.toAll pmsg, .recv)
      else (srv.write cfd (.record { pmsg with action := 7 }), .recv)
    else (srv, .spinning)

/-- The call of `send_file` in action 5: its loop, or only its two `close`. -/
def sendFile (srv : Server DB) (pmsg : Msg) (cofd tofd : ℤ) : Server DB × Pc :=
  if 0 < pmsg.bs then (srv, .relay pmsg tofd pmsg.bs)
  else ((srv.write tofd .close).write cofd .close, .cancelled)

def case5 (srv : Server DB) (cfd : ℤ) (pmsg : Msg) : Server DB × Pc :=
  let toFd := findFd srv.online pmsg.toname.str
  if toFd = -1 then (srv.write cfd (.record { pmsg with action := -2 }), .recv)
  else (srv.write toFd (.record pmsg), .search pmsg 0)

/-- The label action 6 puts before a name, `用户名:`. -/
def userLabel : Bytes := text "用户名:"

/-- The content action 6 writes to `user.txt`: no newline behind the last name. -/
def userText : List Online → Bytes
  | [] => []
  | [e] => userLabel ++ e.name
  | e :: online => userLabel ++ e.name ++ text "\n" ++ userText online

def case6 (srv : Server DB) (pmsg : Msg) : Server DB × Pc :=
  match srv.online with
  | [] => (srv, .fault)
  | [e] =>
    (srv.toAll { pmsg with message := pmsg.message.memcpy ((userText [e]).take 1024) }, .recv)
  | online =>
    -- only a list of two or more clears what the request carried
    (srv.toAll
      { pmsg with message := (CharArray.zero 1024).memcpy ((userText online).take 1024) }, .recv)

def case7 (sql : Sqlite DB) (junk : CharArray 20) (srv : Server DB) (cfd : ℤ) (pmsg : Msg) :
    Server DB × Pc :=
  let r := queryManagerPassword sql srv.db junk pmsg
  let srv := { srv with db := r.1 }
  let pmsg := if 0 = r.2 then { pmsg with action := -1 } else pmsg
  let srv := { srv with online := insertLink srv.online ⟨cfd, 0, pmsg.name.str⟩ }
  let pmsg := { pmsg with action := 1 }
  (srv.write cfd (.record pmsg), .recv)

/-- Actions 8 and -8, which take the target from `toname` and from `name`. -/
def caseSay (srv : Server DB) (cfd : ℤ) (pmsg : Msg) (target : Bytes) (say : ℤ) :
    Server DB × Pc :=
  match getOnline srv.online target with
  | none => (srv.write cfd (.record { pmsg with action := -2 }), .recv)
  | some _ =>
    let srv := { srv with online := setSay srv.online target say }
    (srv.write cfd (.record pmsg), .recv)

def case8 (srv : Server DB) (cfd : ℤ) (pmsg : Msg) : Server DB × Pc :=
  caseSay srv cfd pmsg pmsg.toname.str 1

def caseMinus8 (srv : Server DB) (cfd : ℤ) (pmsg : Msg) : Server DB × Pc :=
  caseSay srv cfd pmsg pmsg.name.str 0

/-- The blocks `fread` delivers until `feof`: the last one is short, and may be empty. -/
def freadBlocks (fuel : ℕ) (content : Bytes) : List Bytes :=
  match fuel with
  | 0 => []
  | fuel + 1 =>
    if content.length < 1024 then [content]
    else content.take 1024 :: freadBlocks fuel (content.drop 1024)

def case9 (sql : Sqlite DB) (srv : Server DB) (cfd : ℤ) (pmsg : Msg) : Server DB × Pc :=
  let r := selectMessage sql srv.db pmsg
  let blocks := freadBlocks (r.2.length + 1) r.2
  -- `message` is cleared behind each write, so only the first record keeps old bytes
  let records := blocks.mapIdx (fun i block =>
    let old := if i = 0 then pmsg.message else CharArray.zero 1024
    (cfd, Out.record { pmsg with message := old.memcpy block }))
  ({ srv with db := r.1, written := srv.written ++ records }, .recv)

def case10 (srv : Server DB) (pmsg : Msg) : Server DB × Pc :=
  ({ srv with online := unlink srv.online pmsg.name.str }, .recv)

/-- The `switch` of `thread_read`. -/
def dispatch (sql : Sqlite DB) (junk : CharArray 20) (srv : Server DB) (cfd : ℤ) (pmsg : Msg) :
    Server DB × Pc :=
  if pmsg.action = 0 then case0 sql junk srv cfd pmsg
  else if pmsg.action = 1 then case1 sql junk srv cfd pmsg
  else if pmsg.action = 2 then case2 sql srv cfd pmsg
  else if pmsg.action = 3 then case3 srv cfd pmsg
  else if pmsg.action = 4 then case4 sql srv cfd pmsg
  else if pmsg.action = 5 then case5 srv cfd pmsg
  else if pmsg.action = -5 then (srv, .register pmsg 0)
  else if pmsg.action = 6 then case6 srv pmsg
  else if pmsg.action = 7 then case7 sql junk srv cfd pmsg
  else if pmsg.action = 8 then case8 srv cfd pmsg
  else if pmsg.action = -8 then caseMinus8 srv cfd pmsg
  else if pmsg.action = 9 then case9 sql srv cfd pmsg
  else if pmsg.action = 10 then case10 srv pmsg
  else (srv, .recv)

/-- What holds of every case's result holds of the `switch`'s. -/
theorem dispatch_cases {P : Server DB × Pc → Prop} (sql : Sqlite DB) (junk : CharArray 20)
    (srv : Server DB) (cfd : ℤ) (m : Msg)
    (h0 : m.action = 0 → P (case0 sql junk srv cfd m))
    (h1 : m.action = 1 → P (case1 sql junk srv cfd m))
    (h2 : m.action = 2 → P (case2 sql srv cfd m))
    (h3 : m.action = 3 → P (case3 srv cfd m))
    (h4 : m.action = 4 → P (case4 sql srv cfd m))
    (h5 : m.action = 5 → P (case5 srv cfd m))
    (hm5 : m.action = -5 → P (srv, .register m 0))
    (h6 : m.action = 6 → P (case6 srv m))
    (h7 : m.action = 7 → P (case7 sql junk srv cfd m))
    (h8 : m.action = 8 → P (case8 srv cfd m))
    (hm8 : m.action = -8 → P (caseMinus8 srv cfd m))
    (h9 : m.action = 9 → P (case9 sql srv cfd m))
    (h10 : m.action = 10 → P (case10 srv m))
    (hother : P (srv, .recv)) : P (dispatch sql junk srv cfd m) := by
  have hite {c : Prop} [Decidable c] {x y : Server DB × Pc} (hx : c → P x) (hy : P y) :
      P (if c then x else y) := by
    by_cases hc : c
    · rw [if_pos hc]
      exact hx hc
    · rw [if_neg hc]
      exact hy
  exact hite h0 (hite h1 (hite h2 (hite h3 (hite h4 (hite h5 (hite hm5 (hite h6 (hite h7
    (hite h8 (hite hm8 (hite h9 (hite h10 hother))))))))))))

section

variable {sql : Sqlite DB} {junk : CharArray 20} {srv : Server DB} {cfd : ℤ} {m : Msg}

theorem dispatch_eq_case0 (h : m.action = 0) :
    dispatch sql junk srv cfd m = case0 sql junk srv cfd m := by
  simp [dispatch, h]

theorem dispatch_eq_case1 (h : m.action = 1) :
    dispatch sql junk srv cfd m = case1 sql junk srv cfd m := by
  simp [dispatch, h]

theorem dispatch_eq_case2 (h : m.action = 2) :
    dispatch sql junk srv cfd m = case2 sql srv cfd m := by
  simp [dispatch, h]

theorem dispatch_eq_case3 (h : m.action = 3) : dispatch sql junk srv cfd m = case3 srv cfd m := by
  simp [dispatch, h]

theorem dispatch_eq_case4 (h : m.action = 4) :
    dispatch sql junk srv cfd m = case4 sql srv cfd m := by
  simp [dispatch, h]

theorem dispatch_eq_case5 (h : m.action = 5) : dispatch sql junk srv cfd m = case5 srv cfd m := by
  simp [dispatch, h]

theorem dispatch_eq_register (h : m.action = -5) :
    dispatch sql junk srv cfd m = (srv, .register m 0) := by
  simp [dispatch, h]

theorem dispatch_eq_case6 (h : m.action = 6) : dispatch sql junk srv cfd m = case6 srv m := by
  simp [dispatch, h]

theorem dispatch_eq_case7 (h : m.action = 7) :
    dispatch sql junk srv cfd m = case7 sql junk srv cfd m := by
  simp [dispatch, h]

theorem dispatch_eq_case8 (h : m.action = 8) : dispatch sql junk srv cfd m = case8 srv cfd m := by
  simp [dispatch, h]

theorem dispatch_eq_caseMinus8 (h : m.action = -8) :
    dispatch sql junk srv cfd m = caseMinus8 srv cfd m := by
  simp [dispatch, h]

theorem dispatch_eq_case9 (h : m.action = 9) :
    dispatch sql junk srv cfd m = case9 sql srv cfd m := by
  simp [dispatch, h]

theorem dispatch_eq_case10 (h : m.action = 10) : dispatch sql junk srv cfd m = case10 srv m := by
  simp [dispatch, h]

end

/-- One look of action 5 at a slot, under `mutex`. -/
def searchSlot (srv : Server DB) (cfd : ℤ) (pmsg : Msg) (i : ℕ) : Option (Server DB × Pc) :=
  (srv.findCfd[i]?).map (fun slot =>
    if slot.use = 1 ∧ slot.offset = pmsg.offset then
      sendFile { srv with findCfd := srv.findCfd.set i { slot with use := 0 } } pmsg cfd slot.cfd
    else (srv, .search pmsg ((i + 1) % 10)))

/-- One look of action -5 at a slot, under `mutex`. -/
def registerSlot (srv : Server DB) (cfd : ℤ) (pmsg : Msg) (i : ℕ) : Option (Server DB × Pc) :=
  (srv.findCfd[i]?).map (fun slot =>
    if slot.use = 0 then
      let slot := ⟨cfd, 1, pmsg.offset, slot.filename.strcpy pmsg.filename.str⟩
      ({ srv with findCfd := srv.findCfd.set i slot }, .recv)
    else (srv, .register pmsg ((i + 1) % 10)))

/-- The test of `send_file`'s loop. -/
def relayLoop (srv : Server DB) (cofd : ℤ) (pmsg : Msg) (tofd remainSize : ℤ) :
    Server DB × Pc :=
  if 0 < remainSize then (srv, .relay pmsg tofd remainSize)
  else ((srv.write tofd .close).write cofd .close, .cancelled)

/-- Behind the first `recv`, when the rest may be less than a buffer. -/
def relayTest (srv : Server DB) (cofd : ℤ) (pmsg : Msg) (tofd remainSize : ℤ) :
    Server DB × Pc :=
  if remainSize ≤ pmsg.bs.tmod RECVBUF_SIZE then (srv, .relayRest pmsg tofd remainSize)
  else relayLoop srv cofd pmsg tofd remainSize

/-- The `recv` of `RECVBUF_SIZE` bytes with `MSG_WAITALL`. -/
def relayFirst (srv : Server DB) (cofd : ℤ) (pmsg : Msg) (tofd remainSize : ℤ) :
    Input → Option (Server DB × Pc)
  | .data bs =>
    if bs.length ≤ RECVBUF_SIZE then
      if 0 < bs.length then
        some (relayTest (srv.write tofd (.raw bs)) cofd pmsg tofd (remainSize - bs.length))
      else some (relayTest srv cofd pmsg tofd remainSize)
    else none
  | .dataFailed => some (relayTest srv cofd pmsg tofd remainSize)
  | _ => none

/-- The `recv` of the remaining bytes; its result is used unchecked. A negative rest is a
huge length, for which the buffer may be too short. -/
def relaySecond (srv : Server DB) (cofd : ℤ) (pmsg : Msg) (tofd remainSize : ℤ) :
    Input → Option (Server DB × Pc)
  | .data bs =>
    if (bs.length : ℤ) ≤ remainSize ∨ remainSize < 0 then
      if bs.length ≤ RECVBUF_SIZE then
        some (relayLoop (srv.write tofd (.raw bs)) cofd pmsg tofd (remainSize - bs.length))
      else some (srv, .fault)
    else none
  | .dataFailed => some (relayLoop srv cofd pmsg tofd (remainSize + 1))
  | _ => none

/-- One step of the thread that serves `cfd`. -/
def threadReadPc (sql : Sqlite DB) (srv : Server DB) (cfd : ℤ) (pc : Pc) (inp : Input) :
    Option (Server DB × Pc) :=
  match pc with
  | .recv =>
    match inp with
    | .closed => some (srv, .exited)
    | .failed junk => some (dispatch sql junk srv cfd .zero)
    | .record m junk => some (dispatch sql junk srv cfd m)
    | _ => none
  | .insertPerson pmsg =>
    if inp = .go then some ({ srv with db := (sql.exec srv.db (insertPersonText pmsg)).1 }, .recv)
    else none
  | .notify pmsg toFd =>
    if inp = .go then some (srv.write toFd (.record { pmsg with action := -3 }), .recv) else none
  | .search pmsg i => if inp = .go then searchSlot srv cfd pmsg i else none
  | .relay pmsg tofd remainSize => relayFirst srv cfd pmsg tofd remainSize inp
  | .relayRest pmsg tofd remainSize => relaySecond srv cfd pmsg tofd remainSize inp
  | .cancelled => if inp = .go then some (srv, .exited) else none
  | .register pmsg i => if inp = .go then registerSlot srv cfd pmsg i else none
  | .spinning => if inp = .go then some (srv, .spinning) else none
  | .fault => none
  | .exited => none

def threadRead (sql : Sqlite DB) (srv : Server DB) (h : Handler) (inp : Input) :
    Option (Server DB × Handler) :=
  (threadReadPc sql srv h.cfd h.pc inp).map (fun r => (r.1, { h with pc := r.2 }))

end
end LinuxCat.ServerModel
