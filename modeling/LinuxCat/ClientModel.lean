import LinuxCat.HistoryLines
import LinuxCat.NumberScans
import LinuxCat.RecordMemory
import LinuxCat.SenderModel
import LinuxCat.UserLists

/-! # The client

`main` and the functions it calls, cut where it waits for its input and at each of its accesses to
`lognum`, which `thread_read` writes as well. The input is all that will ever be typed. -/
namespace LinuxCat.ClientModel
open ByteLayouts Messages FileBlocks WordScans NumberScans
open ServerModel (text)
open UserLists (isspace)
open SenderModel (stSize)

inductive Pc
  /-- at `lognum = 0` -/
  | top
  /-- at the `scanf` behind `viewlogin` -/
  | menu
  /-- the two `scanf` of `reg_user` -/
  | regName
  | regPassword
  /-- and those of `log_user` -/
  | logName
  | logPassword
  /-- the three tests of the loop behind `log_user` -/
  | test3
  | testMinus1
  | test1
  /-- at the `scanf` behind `viewhome`, and the three tests behind it -/
  | home
  | home1
  | home2
  | home3
  /-- `chat_user`: at its first `scanf`, and at the one of its loop -/
  | toname
  | chat
  /-- `send_file`: at its `scanf`, at its `open`, and at its `pthread_cond_wait` -/
  | filename
  | openFile
  | waitId
  /-- at the `scanf` of `all_user` -/
  | all
  | exited
  /-- behind a word that was written beyond the record, or an access of `thread_read` outside one of
  its buffers: what the process does there is not part of this model -/
  | fault
  deriving DecidableEq, Repr

def Pc.loggingIn : Pc → Bool
  | .test3 | .testMinus1 | .test1 => true
  | _ => false

/-- In the menu of a user, or in what it leads to. -/
def Pc.atHome : Pc → Bool
  | .home | .home1 | .home2 | .home3 | .toname | .chat | .filename | .openFile | .waitId | .all => true
  | _ => false

/-- What a round of `thread_read` prints: a fixed line, those of `printf_stea` and of case 4, and
the lines of cases 6 and 9. -/
inductive Shown
  | line (bs : Bytes)
  | said (now name message : Bytes)
  | saidTo (name toname message : Bytes)
  | users (lines : List Bytes)
  | history (lines : List Bytes)
  deriving DecidableEq, Repr

/-- What a round of `thread_read` finds: the time, `buf` as the stack left it, and what `ch` of case
9 holds when its `k`-th loop begins. -/
structure Round where
  now : Bytes
  buf : CharArray 100
  junk : ℕ → UInt8

/-- The variables of the client; `num` and `pmsg` are those of `main`. `reading` is whether
`thread_read` goes on. `written` and `shown` are histories, oldest first: the records `main` wrote
to the connection, and what the rounds of `thread_read` printed. The screens that `main` clears and
its menus are not in it. -/
structure Client where
  stdin : Bytes
  num : ℤ
  lognum : ℤ
  sfileId : ℤ
  pmsg : Msg
  pc : Pc
  reading : Bool
  written : List Msg
  shown : List Shown
  deriving DecidableEq, Repr

/-- A client that has connected; `num` and `pmsg` are as they were found. -/
def Client.start (stdin : Bytes) (num : ℤ) (pmsg : Msg) : Client where
  stdin := stdin
  num := num
  lognum := 0
  sfileId := 0
  pmsg := pmsg
  pc := .top
  reading := true
  written := []
  shown := []

/-- What `%d` stores of the number it has found: first a `long`, and then the `int` of it. -/
def toInt (v : ℤ) : ℤ := (max (-2 ^ 63) (min v (2 ^ 63 - 1))).bmod (2 ^ 32)

/-- `scanf("%d", ...)`: the variable, which stays as it is when no number is found, and what is
left of the input. -/
def scanfInt (stdin : Bytes) (old : ℤ) : ℤ × Bytes :=
  let r := scanNumber isspace stdin
  ((r.1.map toInt).getD old, r.2)

namespace Client

/-- `scanf("%s", ...)` into a field of `pmsg`, and what follows it. -/
def scanf (c : Client) (f : Field) (next : Client → Client) : Client :=
  let r := scan isspace c.stdin
  match r.word with
  | none => next { c with stdin := r.rest }
  | some word =>
    match c.pmsg.scanned f word with
    | none => { c with stdin := r.rest, pc := .fault }
    | some pmsg => next { c with stdin := r.rest, pmsg := pmsg }

def goto (c : Client) (pc : Pc) : Client := { c with pc := pc }

def write (c : Client) (pc : Pc) : Client :=
  { c with written := c.written ++ [c.pmsg], pc := pc }

def request (c : Client) (action : ℤ) (pc : Pc) : Client :=
  { c with pmsg := { c.pmsg with action := action } }.write pc

@[simp] theorem request_action (c : Client) (action : ℤ) (pc : Pc) :
    (c.request action pc).pmsg.action = action := rfl

/-- The `memset` at the head of the loops of `chat_user` and `all_user`. -/
def clearMessage (c : Client) : Client :=
  { c with pmsg := { c.pmsg with message := .zero 1024 } }

end Client

def regUser (c : Client) : Client := { c with pmsg := { Msg.zero with action := 0 }, pc := .regName }

def logUser (c : Client) : Client := { c with pmsg := { Msg.zero with action := 1 }, pc := .logName }

def viewUser (c : Client) : Client := c.request 6 .home

def quiteUser (c : Client) : Client := c.request 10 .test3

def menu (c : Client) : Client :=
  let r := scanfInt c.stdin c.num
  let c := { c with num := r.1, stdin := r.2 }
  if 0 > c.num ∨ c.num > 3 then c.goto .top
  else if c.num = 0 then c.goto .exited
  else if c.num = 2 then regUser c
  else if c.num = 1 then logUser c
  else c.goto .top

/-- `chat_user` behind the `scanf` of its loop. -/
def chatWord (c : Client) : Client :=
  if c.pmsg.message.str = text "sfile" then c.goto .filename
  else if c.pmsg.message.str = text "quite" then c.goto .home
  else c.request 2 .chat

def allUser (c : Client) : Client :=
  { c with pmsg := { c.pmsg with toname := c.pmsg.toname.strcpy (text "all") }, pc := .all }

/-- `all_user` behind the `scanf` of its loop; nothing is done with `sfile`. -/
def allWord (c : Client) : Client :=
  if c.pmsg.message.str = text "quite" then c.goto .home else c.request 4 .all

/-- `send_file` on the file it has opened, up to its wait. -/
def askFile (c : Client) (file : Bytes) : Client :=
  { c with pmsg := fileRequest c.pmsg (stSize file) }.write .waitId

/-- What `send_file` leaves in `pmsg`: the id, and the offset behind the heads it has made. -/
def afterSendFile (pmsg : Msg) (sfileId : ℤ) : Msg :=
  let pmsg := { pmsg with sfileId := sfileId, offset := 0 }
  let heads := if lastBs pmsg.filesize = 0 then pmsg.count else pmsg.count - 1
  (newFbHeads heads.toNat pmsg).2

/-- The next step of `main`; `file` is what `open` finds. `pthread_cond_wait` may return at any
time, signalled or not, and the rest of `send_file` touches nothing else here. -/
def mainStep (c : Client) (file : Option Bytes) : Option Client :=
  match c.pc with
  | .top => some { c with lognum := 0, pc := .menu }
  | .menu => some (menu c)
  | .regName => some (c.scanf .name (fun c => c.goto .regPassword))
  | .regPassword => some (c.scanf .password (fun c => c.write .top))
  | .logName => some (c.scanf .name (fun c => c.goto .logPassword))
  | .logPassword => some (c.scanf .password (fun c => c.write .test3))
  | .test3 => some (c.goto (if c.lognum = 3 then .top else .testMinus1))
  | .testMinus1 => some (c.goto (if c.lognum = -1 then .top else .test1))
  | .test1 => some (if c.lognum = 1 then viewUser c else c.goto .test3)
  | .home =>
    let r := scanfInt c.stdin c.lognum
    some { c with lognum := r.1, stdin := r.2, pc := .home1 }
  | .home1 => some (c.goto (if c.lognum = 1 then .toname else .home2))
  | .home2 => some (if c.lognum = 2 then allUser c else c.goto .home3)
  | .home3 => some (if c.lognum = 3 then quiteUser c else c.goto .home)
  | .toname => some (c.scanf .toname (fun c => c.request 9 .chat))
  | .chat => some (c.clearMessage.scanf .message chatWord)
  | .filename => some (c.scanf .filename (fun c => c.goto .openFile))
  | .openFile =>
    match file with
    | none => some (c.goto .exited)
    | some file => some (askFile c file)
  | .waitId => some { c with pmsg := afterSendFile c.pmsg c.sfileId, pc := .chat }
  | .all => some (c.clearMessage.scanf .message allWord)
  | .exited => none
  | .fault => none

def Client.show (c : Client) (line : Shown) : Client := { c with shown := c.shown ++ [line] }

/-- The lines of case 6; none where it leaves its buffers. -/
def Round.users (r : Round) (pmsg : Msg) : Option (List Bytes) := UserLists.case6 1026 pmsg r.buf

def Round.history (r : Round) (pmsg : Msg) : Option (List Bytes) :=
  match HistoryLines.case9 r.junk 1026 pmsg r.buf with
  | .printed lines => some lines
  | _ => none

/-- The lines of a case, or its access outside a buffer. -/
def Client.showLines (c : Client) (lines : Option (List Bytes)) (f : List Bytes → Shown) : Client :=
  match lines with
  | some lines => c.show (f lines)
  | none => c.goto .fault

/-- One round of `thread_read` with the record it has read. What actions -3 and 5 do with the file
that is received is not part of this model. -/
def threadRead (c : Client) (r : Round) (pmsg : Msg) : Client :=
  if pmsg.action = 255 then c.show (.line (text "注册失败"))
  else if pmsg.action = 1 then { c with lognum := 1 }
  else if pmsg.action = -1 then { c with lognum := -1 }
  else if pmsg.action = 2 then c.show (.said r.now pmsg.name.str pmsg.message.str)
  else if pmsg.action = -2 then c.show (.line (text "未上线"))
  else if pmsg.action = 3 then { c with sfileId := pmsg.sfileId }
  else if pmsg.action = 4 then
    c.show (.saidTo pmsg.name.str pmsg.toname.str pmsg.message.str)
  else if pmsg.action = 6 then c.showLines (r.users pmsg) .users
  else if pmsg.action = 7 then c.show (.line (text "你被禁言了！"))
  else if pmsg.action = 8 then c.show (.line (text "禁言成功！"))
  else if pmsg.action = -8 then c.show (.line (text "解除禁言！"))
  else if pmsg.action = 9 then c.showLines (r.history pmsg) .history
  else c

def serverExit (c : Client) : Client :=
  { c.show (.line (text "server exit!")) with reading := false }

def Client.running (c : Client) : Bool := c.pc ≠ .exited ∧ c.pc ≠ .fault

/-! ## The steps of `main` -/

/-- A `scanf` leaves the record as it is, or writes a word to the field and perhaps beyond. -/
def Scans (f : Field) (m m' : Msg) : Prop := m' = m ∨ ∃ word, m.scanned f word = some m'

theorem scanf_of_none {c : Client} (f : Field) (next : Client → Client)
    (h : (scan isspace c.stdin).word = none) :
    c.scanf f next = next { c with stdin := (scan isspace c.stdin).rest } := by
  simp only [Client.scanf, h]

theorem scanf_of_word {c : Client} {f : Field} (next : Client → Client) {word : Bytes} {pmsg : Msg}
    (h : (scan isspace c.stdin).word = some word) (hpmsg : c.pmsg.scanned f word = some pmsg) :
    c.scanf f next = next { c with stdin := (scan isspace c.stdin).rest, pmsg := pmsg } := by
  simp only [Client.scanf, h, hpmsg]

theorem scanf_of_overrun {c : Client} {f : Field} (next : Client → Client) {word : Bytes}
    (h : (scan isspace c.stdin).word = some word) (hpmsg : c.pmsg.scanned f word = none) :
    c.scanf f next = { c with stdin := (scan isspace c.stdin).rest, pc := .fault } := by
  simp only [Client.scanf, h, hpmsg]

theorem scanf_cases (c : Client) (f : Field) (next : Client → Client) :
    (∃ stdin, c.scanf f next = { c with stdin := stdin, pc := .fault }) ∨
      ∃ stdin pmsg, Scans f c.pmsg pmsg ∧
        c.scanf f next = next { c with stdin := stdin, pmsg := pmsg } := by
  cases hword : (scan isspace c.stdin).word with
  | none => exact .inr ⟨_, c.pmsg, .inl rfl, scanf_of_none f next hword⟩
  | some word =>
    cases hpmsg : c.pmsg.scanned f word with
    | none => exact .inl ⟨_, scanf_of_overrun next hword hpmsg⟩
    | some pmsg => exact .inr ⟨_, pmsg, .inr ⟨word, hpmsg⟩, scanf_of_word next hword hpmsg⟩

/-- In the menu, and up to the record of `reg_user` or `log_user`. -/
inductive EntryStep (c : Client) : Client → Prop
  | clear (hpc : c.pc = .top) : EntryStep c { c with lognum := 0, pc := .menu }
  | again (num : ℤ) (stdin : Bytes) (hpc : c.pc = .menu) :
      EntryStep c { c with num := num, stdin := stdin, pc := .top }
  | leave (num : ℤ) (stdin : Bytes) (hpc : c.pc = .menu) :
      EntryStep c { c with num := num, stdin := stdin, pc := .exited }
  | regUser (num : ℤ) (stdin : Bytes) (hpc : c.pc = .menu) :
      EntryStep c (regUser { c with num := num, stdin := stdin })
  | logUser (num : ℤ) (stdin : Bytes) (hpc : c.pc = .menu) :
      EntryStep c (logUser { c with num := num, stdin := stdin })
  /-- the name for `reg_user` or `log_user` -/
  | named (stdin : Bytes) (pmsg : Msg) (pc : Pc) (hscan : Scans .name c.pmsg pmsg)
      (hpc : c.pc = .regName ∧ pc = .regPassword ∨ c.pc = .logName ∧ pc = .logPassword) :
      EntryStep c { c with stdin := stdin, pmsg := pmsg, pc := pc }
  | registered (stdin : Bytes) (pmsg : Msg) (hscan : Scans .password c.pmsg pmsg)
      (hpc : c.pc = .regPassword) :
      EntryStep c ({ c with stdin := stdin, pmsg := pmsg }.write .top)
  | asked (stdin : Bytes) (pmsg : Msg) (hscan : Scans .password c.pmsg pmsg)
      (hpc : c.pc = .logPassword) :
      EntryStep c ({ c with stdin := stdin, pmsg := pmsg }.write .test3)

/-- In the loop behind `log_user`. -/
inductive WaitStep (c : Client) : Client → Prop
  /-- the loop behind `log_user` is left -/
  | finished (hpc : c.pc = .test3 ∧ c.lognum = 3 ∨ c.pc = .testMinus1 ∧ c.lognum = -1) :
      WaitStep c { c with pc := .top }
  | wait (pc : Pc) (hpc : c.pc = .test3 ∧ c.lognum ≠ 3 ∧ pc = .testMinus1 ∨
      c.pc = .testMinus1 ∧ c.lognum ≠ -1 ∧ pc = .test1 ∨ c.pc = .test1 ∧ c.lognum ≠ 1 ∧ pc = .test3) :
      WaitStep c { c with pc := pc }
  | viewUser (hpc : c.pc = .test1) (hlognum : c.lognum = 1) : WaitStep c (viewUser c)

/-- In the menu of a user, up to the first record of `chat_user`. -/
inductive HomeStep (c : Client) : Client → Prop
  | choose (lognum : ℤ) (stdin : Bytes) (hpc : c.pc = .home) :
      HomeStep c { c with lognum := lognum, stdin := stdin, pc := .home1 }
  /-- a test of the choice that does not lead out of the menu, or leads to `chat_user` -/
  | tested (pc : Pc) (hpc : c.pc = .home1 ∨ c.pc = .home2 ∨ c.pc = .home3)
      (hto : pc = .home2 ∨ pc = .home3 ∨ pc = .home ∨ pc = .toname) :
      HomeStep c { c with pc := pc }
  | allUser (hpc : c.pc = .home2) (hlognum : c.lognum = 2) : HomeStep c (allUser c)
  | quiteUser (hpc : c.pc = .home3) (hlognum : c.lognum = 3) : HomeStep c (quiteUser c)
  | chatUser (stdin : Bytes) (pmsg : Msg) (hscan : Scans .toname c.pmsg pmsg)
      (hpc : c.pc = .toname) :
      HomeStep c ({ c with stdin := stdin, pmsg := pmsg }.request 9 .chat)

/-- In `chat_user`, `send_file` and `all_user`. -/
inductive TalkStep (c : Client) : Client → Prop
  /-- a word in `chat_user` -/
  | chatWord (stdin : Bytes) (pmsg : Msg)
      (hscan : Scans .message { c.pmsg with message := .zero 1024 } pmsg) (hpc : c.pc = .chat) :
      TalkStep c (chatWord { c with stdin := stdin, pmsg := pmsg })
  | filename (stdin : Bytes) (pmsg : Msg) (hscan : Scans .filename c.pmsg pmsg)
      (hpc : c.pc = .filename) :
      TalkStep c { c with stdin := stdin, pmsg := pmsg, pc := .openFile }
  | noFile (hpc : c.pc = .openFile) : TalkStep c { c with pc := .exited }
  | askFile (file : Bytes) (hpc : c.pc = .openFile) : TalkStep c (askFile c file)
  | sentFile (hpc : c.pc = .waitId) :
      TalkStep c { c with pmsg := afterSendFile c.pmsg c.sfileId, pc := .chat }
  /-- a word in `all_user` -/
  | allWord (stdin : Bytes) (pmsg : Msg)
      (hscan : Scans .message { c.pmsg with message := .zero 1024 } pmsg) (hpc : c.pc = .all) :
      TalkStep c (allWord { c with stdin := stdin, pmsg := pmsg })

inductive MainStep (c : Client) : Client → Prop
  | entry {t : Client} (h : EntryStep c t) : MainStep c t
  | waiting {t : Client} (h : WaitStep c t) : MainStep c t
  | home {t : Client} (h : HomeStep c t) : MainStep c t
  | talking {t : Client} (h : TalkStep c t) : MainStep c t
  | overrun (stdin : Bytes) (pmsg : Msg) (hpc : c.pc.loggingIn = false) :
      MainStep c { c with stdin := stdin, pmsg := pmsg, pc := .fault }

theorem menu_cases {c : Client} (hpc : c.pc = .menu) : EntryStep c (menu c) := by
  simp only [menu]
  split_ifs
  · exact .again _ _ hpc
  · exact .leave _ _ hpc
  · exact .regUser _ _ hpc
  · exact .logUser _ _ hpc
  · exact .again _ _ hpc

theorem scanf_step {c d : Client} {f : Field} {next : Client → Client}
    (hpc : c.pc.loggingIn = false) (hd : ∃ pmsg, d = { c with pmsg := pmsg })
    (h : ∀ stdin pmsg, Scans f d.pmsg pmsg →
      MainStep c (next { d with stdin := stdin, pmsg := pmsg })) :
    MainStep c (d.scanf f next) := by
  obtain ⟨pmsg₀, rfl⟩ := hd
  rcases scanf_cases { c with pmsg := pmsg₀ } f next with ⟨stdin, heq⟩ | ⟨stdin, pmsg, hscan, heq⟩
  · rw [heq]
    exact .overrun stdin pmsg₀ hpc
  · rw [heq]
    exact h stdin pmsg hscan

theorem mainStep_cases {c t : Client} {file : Option Bytes} (h : mainStep c file = some t) :
    MainStep c t := by
  unfold mainStep at h
  split at h
  case h_1 hpc => cases h; exact .entry (.clear hpc)
  case h_2 hpc => cases h; exact .entry (menu_cases hpc)
  case h_3 hpc =>
    cases h
    exact scanf_step (by rw [hpc]; rfl) ⟨_, rfl⟩ fun stdin pmsg hscan =>
      .entry (.named stdin pmsg .regPassword hscan (.inl ⟨hpc, rfl⟩))
  case h_4 hpc =>
    cases h
    exact scanf_step (by rw [hpc]; rfl) ⟨_, rfl⟩ fun stdin pmsg hscan =>
      .entry (.registered stdin pmsg hscan hpc)
  case h_5 hpc =>
    cases h
    exact scanf_step (by rw [hpc]; rfl) ⟨_, rfl⟩ fun stdin pmsg hscan =>
      .entry (.named stdin pmsg .logPassword hscan (.inr ⟨hpc, rfl⟩))
  case h_6 hpc =>
    cases h
    exact scanf_step (by rw [hpc]; rfl) ⟨_, rfl⟩ fun stdin pmsg hscan =>
      .entry (.asked stdin pmsg hscan hpc)
  case h_7 hpc =>
    cases h
    split_ifs with hlognum
    · exact .waiting (.finished (.inl ⟨hpc, hlognum⟩))
    · exact .waiting (.wait _ (.inl ⟨hpc, hlognum, rfl⟩))
  case h_8 hpc =>
    cases h
    split_ifs with hlognum
    · exact .waiting (.finished (.inr ⟨hpc, hlognum⟩))
    · exact .waiting (.wait _ (.inr (.inl ⟨hpc, hlognum, rfl⟩)))
  case h_9 hpc =>
    cases h
    split_ifs with hlognum
    · exact .waiting (.viewUser hpc hlognum)
    · exact .waiting (.wait _ (.inr (.inr ⟨hpc, hlognum, rfl⟩)))
  case h_10 hpc => cases h; exact .home (.choose _ _ hpc)
  case h_11 hpc =>
    cases h
    split_ifs
    · exact .home (.tested _ (.inl hpc) (.inr (.inr (.inr rfl))))
    · exact .home (.tested _ (.inl hpc) (.inl rfl))
  case h_12 hpc =>
    cases h
    split_ifs with hlognum
    · exact .home (.allUser hpc hlognum)
    · exact .home (.tested _ (.inr (.inl hpc)) (.inr (.inl rfl)))
  case h_13 hpc =>
    cases h
    split_ifs with hlognum
    · exact .home (.quiteUser hpc hlognum)
    · exact .home (.tested _ (.inr (.inr hpc)) (.inr (.inr (.inl rfl))))
  case h_14 hpc =>
    cases h
    exact scanf_step (by rw [hpc]; rfl) ⟨_, rfl⟩ fun stdin pmsg hscan =>
      .home (.chatUser stdin pmsg hscan hpc)
  case h_15 hpc =>
    cases h
    exact scanf_step (by rw [hpc]; rfl) ⟨_, rfl⟩ fun stdin pmsg hscan =>
      .talking (.chatWord stdin pmsg hscan hpc)
  case h_16 hpc =>
    cases h
    exact scanf_step (by rw [hpc]; rfl) ⟨_, rfl⟩ fun stdin pmsg hscan =>
      .talking (.filename stdin pmsg hscan hpc)
  case h_17 hpc =>
    split at h
    · cases h; exact .talking (.noFile hpc)
    · cases h; exact .talking (.askFile _ hpc)
  case h_18 hpc => cases h; exact .talking (.sentFile hpc)
  case h_19 hpc =>
    cases h
    exact scanf_step (by rw [hpc]; rfl) ⟨_, rfl⟩ fun stdin pmsg hscan =>
      .talking (.allWord stdin pmsg hscan hpc)
  case h_20 => cases h
  case h_21 => cases h

theorem TalkStep.shown {c t : Client} (h : TalkStep c t) :
    t.shown = c.shown ∧ t.reading = c.reading := by
  cases h with
  | chatWord stdin pmsg hscan hpc =>
    unfold LinuxCat.ClientModel.chatWord
    split_ifs <;> exact ⟨rfl, rfl⟩
  | allWord stdin pmsg hscan hpc =>
    unfold LinuxCat.ClientModel.allWord
    split_ifs <;> exact ⟨rfl, rfl⟩
  | _ => exact ⟨rfl, rfl⟩

/-- `main` prints menus only, and leaves `thread_read` alone. -/
theorem MainStep.shown {c t : Client} (h : MainStep c t) :
    t.shown = c.shown ∧ t.reading = c.reading := by
  cases h with
  | entry h => cases h <;> exact ⟨rfl, rfl⟩
  | waiting h => cases h <;> exact ⟨rfl, rfl⟩
  | home h => cases h <;> exact ⟨rfl, rfl⟩
  | talking h => exact h.shown
  | overrun stdin pmsg hpc => exact ⟨rfl, rfl⟩

theorem mainStep_isSome {c : Client} (h : c.running) (file : Option Bytes) :
    (mainStep c file).isSome := by
  obtain ⟨hexited, hfault⟩ := of_decide_eq_true h
  cases hpc : c.pc
  case exited => exact absurd hpc hexited
  case fault => exact absurd hpc hfault
  case openFile => cases file <;> simp [mainStep, hpc]
  all_goals simp [mainStep, hpc]

/-! ## The steps of `thread_read` -/

def answered (lognum : ℤ) (pmsg : Msg) : ℤ :=
  if pmsg.action = 1 then 1 else if pmsg.action = -1 then -1 else lognum

theorem Round.loops_end (r : Round) (pmsg : Msg) (n : ℕ) :
    UserLists.case6 (1026 + n) pmsg r.buf = UserLists.case6 1026 pmsg r.buf ∧
      HistoryLines.case9 r.junk (1026 + n) pmsg r.buf = HistoryLines.case9 r.junk 1026 pmsg r.buf :=
  ⟨UserLists.case6_stable pmsg r.buf n, HistoryLines.case9_stable r.junk pmsg r.buf n⟩

/-- The round stays within its buffers. -/
def Round.Keeps (r : Round) (pmsg : Msg) : Prop :=
  (pmsg.action = 6 → (r.users pmsg).isSome) ∧ (pmsg.action = 9 → (r.history pmsg).isSome)

instance (r : Round) (pmsg : Msg) : Decidable (r.Keeps pmsg) := inferInstanceAs (Decidable (_ ∧ _))

inductive ReadStep (c : Client) (r : Round) (pmsg : Msg) : Client → Prop
  /-- nothing else of what `main` works with is touched -/
  | goes (sfileId : ℤ) (shown : List Shown)
      (hid : sfileId = if pmsg.action = 3 then pmsg.sfileId else c.sfileId) :
      ReadStep c r pmsg
        { c with lognum := answered c.lognum pmsg, sfileId := sfileId, shown := shown }
  | leaves (hnot : ¬ r.Keeps pmsg) : ReadStep c r pmsg (c.goto .fault)

theorem showLines_cases {c : Client} {r : Round} {pmsg : Msg} {lines : Option (List Bytes)}
    {f : List Bytes → Shown} (hsame : answered c.lognum pmsg = c.lognum) (h3 : pmsg.action ≠ 3)
    (hkeeps : r.Keeps pmsg → lines.isSome) : ReadStep c r pmsg (c.showLines lines f) := by
  cases lines with
  | none => exact .leaves fun h => by simpa using hkeeps h
  | some ls =>
    have hgoes := @ReadStep.goes c r pmsg c.sfileId (c.shown ++ [f ls])
      (if_neg h3).symm
    rwa [hsame] at hgoes

theorem threadRead_cases (c : Client) (r : Round) (pmsg : Msg) :
    ReadStep c r pmsg (threadRead c r pmsg) := by
  -- a round that shows something, or nothing
  have hgoes (shown : List Shown) (h1 : pmsg.action ≠ 1) (hm1 : pmsg.action ≠ -1)
      (h3 : pmsg.action ≠ 3) : ReadStep c r pmsg { c with shown := shown } := by
    have hsame : answered c.lognum pmsg = c.lognum := by rw [answered, if_neg h1, if_neg hm1]
    have hstep := @ReadStep.goes c r pmsg c.sfileId shown (if_neg h3).symm
    rwa [hsame] at hstep
  have hlines {lines : Option (List Bytes)} (f : List Bytes → Shown) (h1 : pmsg.action ≠ 1)
      (hm1 : pmsg.action ≠ -1) (h3 : pmsg.action ≠ 3) (hkeeps : r.Keeps pmsg → lines.isSome) :
      ReadStep c r pmsg (c.showLines lines f) :=
    showLines_cases (by rw [answered, if_neg h1, if_neg hm1]) h3 hkeeps
  by_cases h1 : pmsg.action = 1
  · have hstep := @ReadStep.goes c r pmsg c.sfileId c.shown (by simp [h1])
    simpa [threadRead, h1, answered] using hstep
  by_cases hm1 : pmsg.action = -1
  · have hstep := @ReadStep.goes c r pmsg c.sfileId c.shown (by simp [hm1])
    simpa [threadRead, hm1, answered] using hstep
  by_cases h3 : pmsg.action = 3
  · have hstep := @ReadStep.goes c r pmsg pmsg.sfileId c.shown (if_pos h3).symm
    simpa [threadRead, h3, answered] using hstep
  unfold threadRead
  split_ifs with h255 h2 hm2 h4 h6 h7 h8 hm8 h9
  · exact hgoes _ h1 hm1 h3
  · exact hgoes _ h1 hm1 h3
  · exact hgoes _ h1 hm1 h3
  · exact hgoes _ h1 hm1 h3
  · exact hlines _ h1 hm1 h3 fun h => h.1 h6
  · exact hgoes _ h1 hm1 h3
  · exact hgoes _ h1 hm1 h3
  · exact hgoes _ h1 hm1 h3
  · exact hlines _ h1 hm1 h3 fun h => h.2 h9
  · exact hgoes c.shown h1 hm1 h3

end LinuxCat.ClientModel
