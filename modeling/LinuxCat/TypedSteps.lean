import LinuxCat.SessionPhases
import LinuxCat.TypedWords

/-! # One step of `main` in what is typed

A step asks for the next of what is meant, or for nothing, and is followed by one that is nearer to
the end, as long as no login is waited for. -/
namespace LinuxCat.ClientModel
open ByteLayouts Messages FileBlocks WordScans DecimalTexts
open ServerModel (text)
open UserLists (isspace)
open SenderModel (stSize)

/-- A step that asks for nothing, or for the next wish. -/
inductive Goes (c t : Client) : List Wish → Prop
  | on (todo : List Wish) (h : t.IsBehind todo) (hleft : t.left < c.left ∨ c.waits)
      (hwritten : t.written = c.written) : Goes c t todo
  | asks (w : Wish) (todo : List Wish) (h : t.IsBehind todo) (hleft : t.left < c.left)
      (hwritten : t.written = c.written ++ [t.pmsg]) (hasks : Asks t.pmsg w) :
      Goes c t (w :: todo)

/-- A word is taken. -/
theorem left_of_word {c t : Client} {w : Bytes} {ws : List Bytes}
    (hc : words isspace c.stdin = w :: ws) (ht : words isspace t.stdin = ws) (hrank : t.pc.rank < 8) :
    t.left < c.left := by
  rw [Client.left, Client.left, hc, ht, List.length_cons]
  omega

/-- No word is taken. -/
theorem left_of_rank {c t : Client} (pc pc' : Pc) (hpc : c.pc = pc) (hpc' : t.pc = pc')
    (hstdin : t.stdin = c.stdin) (hrank : pc'.rank < pc.rank) : t.left < c.left := by
  rw [Client.left, Client.left, hstdin, hpc, hpc']
  omega

theorem Pc.rank_lt (pc : Pc) : pc.rank < 8 := by
  cases pc <;> decide

section
variable {c t : Client} {v : Bytes} {vs : List Bytes} {w : Wish} {todo : List Wish}

theorem Goes.on_word (hc : words isspace c.stdin = v :: vs) (ht : words isspace t.stdin = vs)
    (h : Behind t.lognum t.pmsg t.pc vs todo) (hwritten : t.written = c.written) :
    Goes c t todo := by
  refine .on todo ?_ (.inl (left_of_word hc ht (Pc.rank_lt _))) hwritten
  rw [Client.IsBehind, ht]
  exact h

theorem Goes.asks_word (hc : words isspace c.stdin = v :: vs) (ht : words isspace t.stdin = vs)
    (h : Behind t.lognum t.pmsg t.pc vs todo) (hwritten : t.written = c.written ++ [t.pmsg])
    (hasks : Asks t.pmsg w) : Goes c t (w :: todo) := by
  refine .asks w todo ?_ (left_of_word hc ht (Pc.rank_lt _)) hwritten hasks
  rw [Client.IsBehind, ht]
  exact h

theorem Goes.on_rank (pc pc' : Pc) (hpc : c.pc = pc) (hin : words isspace c.stdin = vs)
    (hrank : pc'.rank < pc.rank) (hpc' : t.pc = pc') (hstdin : t.stdin = c.stdin)
    (h : Behind t.lognum t.pmsg pc' vs todo) (hwritten : t.written = c.written) :
    Goes c t todo := by
  refine .on todo ?_ (.inl (left_of_rank pc pc' hpc hpc' hstdin hrank)) hwritten
  rw [Client.IsBehind, hstdin, hin, hpc']
  exact h

theorem Goes.asks_rank (pc pc' : Pc) (hpc : c.pc = pc) (hin : words isspace c.stdin = vs)
    (hrank : pc'.rank < pc.rank) (hpc' : t.pc = pc') (hstdin : t.stdin = c.stdin)
    (h : Behind t.lognum t.pmsg pc' vs todo) (hwritten : t.written = c.written ++ [t.pmsg])
    (hasks : Asks t.pmsg w) : Goes c t (w :: todo) := by
  refine .asks w todo ?_ (left_of_rank pc pc' hpc hpc' hstdin hrank) hwritten hasks
  rw [Client.IsBehind, hstdin, hin, hpc']
  exact h

end

theorem goes_menu {c : Client} {vs : List Visit} (hlognum : c.lognum = 0)
    (hin : words isspace c.stdin = script vs) : Goes c (menu c) (wishes vs) := by
  cases vs with
  | nil =>
    obtain ⟨rest, hrest, hscan⟩ := scanfInt_decimal (n := 0) (by norm_num) hin c.num
    have hmenu : menu c = { c with num := 0, stdin := rest }.goto .exited := by
      simp [menu, hscan]
    rw [hmenu]
    refine .on_word hin hrest ?_ rfl
    exact .exited
  | cons v vs =>
    cases v with
    | register name password =>
      obtain ⟨rest, hrest, hscan⟩ := scanfInt_decimal (n := 2) (by norm_num) hin c.num
      have hmenu : menu c = regUser { c with num := 2, stdin := rest } := by
        simp [menu, hscan]
      rw [hmenu]
      refine .on_word hin hrest ?_ rfl
      exact .regName name password vs rfl
    | session name password talks =>
      have hin' : words isspace c.stdin =
          decimal 1 :: name.bytes :: password.bytes :: homeWords talks vs := by
        rw [hin]
        simp [script, Visit.words, homeWords]
      obtain ⟨rest, hrest, hscan⟩ := scanfInt_decimal (n := 1) (by norm_num) hin' c.num
      have hmenu : menu c = logUser { c with num := 1, stdin := rest } := by
        simp [menu, hscan]
      have htodo : wishes (.session name password talks :: vs) =
          ⟨1, user name password⟩ :: ⟨6, user name password⟩ :: homeWishes name password talks vs := by
        simp [wishes, Visit.wishes, homeWishes]
      rw [hmenu, htodo]
      refine .on_word hin' hrest ?_ rfl
      exact .logName name password talks vs hlognum rfl

theorem goes_home {c : Client} {name : Word .name} {password : Word .password} {talks : List Talk}
    {vs : List Visit} (hpc : c.pc = .home) (hm : Holds c.pmsg (user name password))
    (hin : words isspace c.stdin = homeWords talks vs) {t : Client} {file : Option Bytes}
    (hstep : mainStep c file = some t) : Goes c t (homeWishes name password talks vs) := by
  simp only [mainStep, hpc, Option.some.injEq] at hstep
  subst hstep
  cases talks with
  | nil =>
    obtain ⟨rest, hrest, hscan⟩ := scanfInt_decimal (n := 3) (by norm_num) hin c.lognum
    simp only [hscan]
    refine .on_word hin hrest ?_ rfl
    exact .chosenQuite name password vs .home1 (.inl rfl) rfl hm
  | cons talk talks =>
    cases talk with
    | chat toname said =>
      have hin' : words isspace c.stdin = decimal 1 :: toname.bytes :: chatWords said talks vs := by
        rw [hin]
        simp [homeWords, Talk.words, chatWords]
      obtain ⟨rest, hrest, hscan⟩ := scanfInt_decimal (n := 1) (by norm_num) hin' c.lognum
      have htodo : homeWishes name password (.chat toname said :: talks) vs =
          ⟨9, (.toname, toname.bytes) :: user name password⟩ ::
            chatWishes name password toname said talks vs := by
        simp [homeWishes, Talk.wishes, chatWishes]
      simp only [hscan]
      rw [htodo]
      refine .on_word hin' hrest ?_ rfl
      exact .chosenChat name password toname said talks vs rfl hm
    | all ms =>
      have hin' : words isspace c.stdin = decimal 2 :: allWords ms talks vs := by
        rw [hin]
        simp [homeWords, Talk.words, allWords]
      obtain ⟨rest, hrest, hscan⟩ := scanfInt_decimal (n := 2) (by norm_num) hin' c.lognum
      have htodo : homeWishes name password (.all ms :: talks) vs =
          allWishes name password ms talks vs := by
        simp [homeWishes, Talk.wishes, allWishes]
      simp only [hscan]
      rw [htodo]
      refine .on_word hin' hrest ?_ rfl
      exact .chosenAll name password ms talks vs .home1 (.inl rfl) rfl hm

/-- The `scanf` behind a `memset` of the message. -/
theorem scanf_message {c : Client} {w : Word .message} {ws : List Bytes} {texts : Texts}
    (hm : Holds c.pmsg texts) (hfield : ∀ p ∈ texts, p.1 ≠ .message)
    (hin : words isspace c.stdin = w.bytes :: ws) (next : Client → Client) :
    ∃ stdin pmsg, words isspace stdin = ws ∧ Holds pmsg ((.message, w.bytes) :: texts) ∧
      c.clearMessage.scanf .message next = next { c with stdin := stdin, pmsg := pmsg } := by
  have hclear : Holds c.clearMessage.pmsg texts := (hm.set hfield (.zero 1024)).of_cons
  obtain ⟨stdin, pmsg, hstdin, -, hpmsg, hscan⟩ :=
    scanf_fits (c := c.clearMessage) (f := .message) hin next
  exact ⟨stdin, pmsg, hstdin, hpmsg texts hclear hfield, hscan⟩

/-- The words that lead out of a conversation, and into `send_file`. -/
def quite : Word .message :=
  ⟨text "quite", by decide +kernel, by decide +kernel, by decide +kernel⟩

def sfile : Word .message :=
  ⟨text "sfile", by decide +kernel, by decide +kernel, by decide +kernel⟩

/-- The addressee that `all_user` enters. -/
def everyone : Word .toname :=
  ⟨text "all", by decide +kernel, by decide +kernel, by decide +kernel⟩

theorem goes_chat {c : Client} {name : Word .name} {password : Word .password}
    {toname : Word .toname} {said : List Said} {talks : List Talk} {vs : List Visit}
    (hm : Holds c.pmsg ((.toname, toname.bytes) :: user name password))
    (hin : words isspace c.stdin = chatWords said talks vs) :
    Goes c (c.clearMessage.scanf .message chatWord)
      (chatWishes name password toname said talks vs) := by
  have hfield : ∀ p ∈ (.toname, toname.bytes) :: user name password, p.1 ≠ .message := by
    simp [user]
  cases said with
  | nil =>
    obtain ⟨stdin, pmsg, hstdin, hpmsg, hscan⟩ :=
      scanf_message (w := quite) hm hfield hin chatWord
    have hword : pmsg.message.str = text "quite" := hpmsg (.message, _) List.mem_cons_self
    have hne : text "quite" ≠ text "sfile" := by decide +kernel
    rw [hscan, chatWord, if_neg (by rw [hword]; exact hne), if_pos hword]
    refine .on_word hin hstdin ?_ rfl
    exact .home name password talks vs hpmsg.of_cons.of_cons
  | cons s said =>
    cases s with
    | message w hw =>
      obtain ⟨stdin, pmsg, hstdin, hpmsg, hscan⟩ := scanf_message hm hfield hin chatWord
      have hword : pmsg.message.str = w.bytes := hpmsg (.message, _) List.mem_cons_self
      rw [hscan, chatWord, if_neg (by rw [hword]; exact hw.1), if_neg (by rw [hword]; exact hw.2)]
      refine .asks_word hin hstdin ?_ rfl ⟨rfl, hpmsg.action 2⟩
      exact .chat name password toname said talks vs .chat (.inl rfl) (hpmsg.of_cons.action 2)
    | file filename =>
      obtain ⟨stdin, pmsg, hstdin, hpmsg, hscan⟩ :=
        scanf_message (w := sfile) hm hfield hin chatWord
      have hword : pmsg.message.str = text "sfile" := hpmsg (.message, _) List.mem_cons_self
      rw [hscan, chatWord, if_pos hword]
      refine .on_word hin hstdin ?_ rfl
      exact .filename name password toname filename said talks vs hpmsg.of_cons

theorem goes_all {c : Client} {name : Word .name} {password : Word .password}
    {ms : List { w : Word .message // w.bytes ≠ text "quite" }} {talks : List Talk}
    {vs : List Visit}
    (hm : Holds c.pmsg ((.toname, text "all") :: user name password))
    (hin : words isspace c.stdin = allWords ms talks vs) :
    Goes c (c.clearMessage.scanf .message allWord) (allWishes name password ms talks vs) := by
  have hfield : ∀ p ∈ (.toname, text "all") :: user name password, p.1 ≠ .message := by
    simp [user]
  cases ms with
  | nil =>
    obtain ⟨stdin, pmsg, hstdin, hpmsg, hscan⟩ :=
      scanf_message (w := quite) hm hfield hin allWord
    have hword : pmsg.message.str = text "quite" := hpmsg (.message, _) List.mem_cons_self
    rw [hscan, allWord, if_pos hword]
    refine .on_word hin hstdin ?_ rfl
    exact .home name password talks vs hpmsg.of_cons.of_cons
  | cons w ms =>
    obtain ⟨stdin, pmsg, hstdin, hpmsg, hscan⟩ := scanf_message hm hfield hin allWord
    have hword : pmsg.message.str = w.1.bytes := hpmsg (.message, _) List.mem_cons_self
    rw [hscan, allWord, if_neg (by rw [hword]; exact w.2)]
    refine .asks_word hin hstdin ?_ rfl ⟨rfl, hpmsg.action 4⟩
    exact .all name password ms talks vs (hpmsg.of_cons.action 4)

/-- The tests behind a login, before its answer and behind it. -/
theorem goes_login {c t : Client} {name : Word .name} {password : Word .password}
    {talks : List Talk} {vs : List Visit} {file : Option Bytes} (hlogging : c.pc.loggingIn)
    (hlognum : c.lognum = 0 ∨ c.lognum = 1) (hm : Holds c.pmsg (user name password))
    (hin : words isspace c.stdin = homeWords talks vs) (hstep : mainStep c file = some t) :
    Goes c t (⟨6, user name password⟩ :: homeWishes name password talks vs) := by
  have hon (pc : Pc) (hpc : pc.loggingIn) (hleft : (c.goto pc).left < c.left ∨ c.waits) :
      Goes c (c.goto pc) (⟨6, user name password⟩ :: homeWishes name password talks vs) := by
    refine .on _ ?_ hleft rfl
    simp only [Client.IsBehind, Client.goto, hin]
    exact .login name password talks vs pc hpc hlognum hm
  have hne3 : c.lognum ≠ 3 := by omega
  have hneMinus1 : c.lognum ≠ -1 := by omega
  cases hpc : c.pc <;> rw [hpc] at hlogging <;> try cases hlogging
  case test3 =>
    simp only [mainStep, hpc, if_neg hne3, Option.some.injEq] at hstep
    subst hstep
    exact hon .testMinus1 rfl (.inl (left_of_rank .test3 .testMinus1 hpc rfl rfl (by decide)))
  case testMinus1 =>
    simp only [mainStep, hpc, if_neg hneMinus1, Option.some.injEq] at hstep
    subst hstep
    exact hon .test1 rfl (.inl (left_of_rank .testMinus1 .test1 hpc rfl rfl (by decide)))
  case test1 =>
    rcases hlognum with h0 | h1
    · simp only [mainStep, hpc, h0, Option.some.injEq] at hstep
      subst hstep
      exact hon .test3 rfl (.inr (by simp [Client.waits, hpc, h0, Pc.loggingIn]))
    · simp only [mainStep, hpc, h1, if_true, Option.some.injEq] at hstep
      subst hstep
      refine .asks_rank .test1 .home hpc hin (by decide) rfl rfl ?_ rfl ⟨rfl, hm.action 6⟩
      exact .home name password talks vs (hm.action 6)

section
variable {c t : Client} {name : Word .name} {password : Word .password} {toname : Word .toname}
  {said : List Said} {talks : List Talk} {vs : List Visit} {file : Option Bytes}

theorem goes_regName (hpc : c.pc = .regName) (hact : c.pmsg.action = 0)
    (hin : words isspace c.stdin = name.bytes :: password.bytes :: script vs)
    (hstep : mainStep c file = some t) :
    Goes c t (⟨0, user name password⟩ :: wishes vs) := by
  obtain ⟨stdin, pmsg, hstdin, hsame, hpmsg, hscan⟩ :=
    scanf_fits hin (fun c => c.goto .regPassword)
  simp only [mainStep, hpc, hscan, Option.some.injEq] at hstep
  subst hstep
  refine .on_word hin hstdin ?_ rfl
  exact .regPassword name password vs ((hsame (by rw [hact]; decide)).trans hact)
    (hpmsg [] (fun p hp => absurd hp List.not_mem_nil) (by simp))

theorem goes_regPassword (hpc : c.pc = .regPassword) (hact : c.pmsg.action = 0)
    (hm : Holds c.pmsg [(.name, name.bytes)])
    (hin : words isspace c.stdin = password.bytes :: script vs)
    (hstep : mainStep c file = some t) :
    Goes c t (⟨0, user name password⟩ :: wishes vs) := by
  obtain ⟨stdin, pmsg, hstdin, hsame, hpmsg, hscan⟩ := scanf_fits hin (fun c => c.write .top)
  simp only [mainStep, hpc, hscan, Option.some.injEq] at hstep
  subst hstep
  have hboth := hpmsg _ hm (by simp)
  refine .asks_word hin hstdin (.top vs) rfl ⟨?_, ?_⟩
  · exact (hsame (by rw [hact]; decide)).trans hact
  · exact fun p hp => hboth p (by simpa [user, or_comm] using hp)

theorem goes_logName (hpc : c.pc = .logName) (hlognum : c.lognum = 0) (hact : c.pmsg.action = 1)
    (hin : words isspace c.stdin = name.bytes :: password.bytes :: homeWords talks vs)
    (hstep : mainStep c file = some t) :
    Goes c t (⟨1, user name password⟩ :: ⟨6, user name password⟩ ::
      homeWishes name password talks vs) := by
  obtain ⟨stdin, pmsg, hstdin, hsame, hpmsg, hscan⟩ :=
    scanf_fits hin (fun c => c.goto .logPassword)
  simp only [mainStep, hpc, hscan, Option.some.injEq] at hstep
  subst hstep
  refine .on_word hin hstdin ?_ rfl
  exact .logPassword name password talks vs hlognum ((hsame (by rw [hact]; decide)).trans hact)
    (hpmsg [] (fun p hp => absurd hp List.not_mem_nil) (by simp))

theorem goes_logPassword (hpc : c.pc = .logPassword) (hlognum : c.lognum = 0)
    (hact : c.pmsg.action = 1) (hm : Holds c.pmsg [(.name, name.bytes)])
    (hin : words isspace c.stdin = password.bytes :: homeWords talks vs)
    (hstep : mainStep c file = some t) :
    Goes c t (⟨1, user name password⟩ :: ⟨6, user name password⟩ ::
      homeWishes name password talks vs) := by
  obtain ⟨stdin, pmsg, hstdin, hsame, hpmsg, hscan⟩ := scanf_fits hin (fun c => c.write .test3)
  simp only [mainStep, hpc, hscan, Option.some.injEq] at hstep
  subst hstep
  have hboth := hpmsg _ hm (by simp)
  have huser : Holds pmsg (user name password) :=
    fun p hp => hboth p (by simpa [user, or_comm] using hp)
  refine .asks_word hin hstdin ?_ rfl ⟨(hsame (by rw [hact]; decide)).trans hact, huser⟩
  exact .login name password talks vs .test3 rfl (.inl hlognum) huser

theorem goes_chosenAll {ms : List { w : Word .message // w.bytes ≠ text "quite" }} {pc : Pc}
    (hpc : c.pc = pc) (hhome : pc = .home1 ∨ pc = .home2) (hlognum : c.lognum = 2)
    (hm : Holds c.pmsg (user name password))
    (hin : words isspace c.stdin = allWords ms talks vs)
    (hstep : mainStep c file = some t) :
    Goes c t (allWishes name password ms talks vs) := by
  rcases hhome with rfl | rfl
  · simp only [mainStep, hpc, hlognum, Option.some.injEq] at hstep
    subst hstep
    refine .on_rank .home1 .home2 hpc hin (by decide) rfl rfl ?_ rfl
    exact .chosenAll name password ms talks vs .home2 (.inr rfl) hlognum hm
  · simp only [mainStep, hpc, hlognum, if_true, Option.some.injEq] at hstep
    subst hstep
    have hset := hm.set (f := .toname) (by simp [user]) (c.pmsg.toname.strcpy (text "all"))
    have hall : Holds (c.pmsg.set .toname (c.pmsg.toname.strcpy (text "all")))
        ((.toname, text "all") :: user name password) :=
      List.forall_mem_cons.mpr ⟨everyone.str c.pmsg.toname, hset.of_cons⟩
    refine .on_rank .home2 .all hpc hin (by decide) rfl rfl ?_ rfl
    exact .all name password ms talks vs hall

theorem goes_chosenQuite {pc : Pc} (hpc : c.pc = pc)
    (hhome : pc = .home1 ∨ pc = .home2 ∨ pc = .home3) (hlognum : c.lognum = 3)
    (hm : Holds c.pmsg (user name password)) (hin : words isspace c.stdin = script vs)
    (hstep : mainStep c file = some t) :
    Goes c t (⟨10, user name password⟩ :: wishes vs) := by
  rcases hhome with rfl | rfl | rfl
  · simp only [mainStep, hpc, hlognum, Option.some.injEq] at hstep
    subst hstep
    refine .on_rank .home1 .home2 hpc hin (by decide) rfl rfl ?_ rfl
    exact .chosenQuite name password vs .home2 (.inr (.inl rfl)) hlognum hm
  · have hne : c.lognum ≠ 2 := by omega
    simp only [mainStep, hpc, if_neg hne, Option.some.injEq] at hstep
    subst hstep
    refine .on_rank .home2 .home3 hpc hin (by decide) rfl rfl ?_ rfl
    exact .chosenQuite name password vs .home3 (.inr (.inr rfl)) hlognum hm
  · simp only [mainStep, hpc, hlognum, if_true, Option.some.injEq] at hstep
    subst hstep
    refine .asks_rank .home3 .test3 hpc hin (by decide) rfl rfl ?_ rfl ⟨rfl, hm.action 10⟩
    exact .finished vs hlognum

theorem goes_toname (hpc : c.pc = .toname) (hm : Holds c.pmsg (user name password))
    (hin : words isspace c.stdin = toname.bytes :: chatWords said talks vs)
    (hstep : mainStep c file = some t) :
    Goes c t (⟨9, (.toname, toname.bytes) :: user name password⟩ ::
      chatWishes name password toname said talks vs) := by
  obtain ⟨stdin, pmsg, hstdin, -, hpmsg, hscan⟩ := scanf_fits hin (fun c => c.request 9 .chat)
  simp only [mainStep, hpc, hscan, Option.some.injEq] at hstep
  subst hstep
  have hto := hpmsg _ hm (by simp [user])
  refine .asks_word hin hstdin ?_ rfl ⟨rfl, hto.action 9⟩
  exact .chat name password toname said talks vs .chat (.inl rfl) (hto.action 9)

theorem goes_filename {filename : Word .filename} (hpc : c.pc = .filename)
    (hm : Holds c.pmsg ((.toname, toname.bytes) :: user name password))
    (hin : words isspace c.stdin = filename.bytes :: chatWords said talks vs)
    (hstep : mainStep c file = some t) :
    Goes c t (⟨3, (.filename, filename.bytes) :: (.toname, toname.bytes) :: user name password⟩ ::
      chatWishes name password toname said talks vs) := by
  obtain ⟨stdin, pmsg, hstdin, -, hpmsg, hscan⟩ := scanf_fits hin (fun c => c.goto .openFile)
  simp only [mainStep, hpc, hscan, Option.some.injEq] at hstep
  subst hstep
  refine .on_word hin hstdin ?_ rfl
  exact .openFile name password toname filename said talks vs (hpmsg _ hm (by simp [user]))

theorem goes_openFile {filename : Word .filename} (hpc : c.pc = .openFile)
    (hfile : c.pc = .openFile → file.isSome)
    (hm : Holds c.pmsg ((.filename, filename.bytes) :: (.toname, toname.bytes) :: user name password))
    (hin : words isspace c.stdin = chatWords said talks vs)
    (hstep : mainStep c file = some t) :
    Goes c t (⟨3, (.filename, filename.bytes) :: (.toname, toname.bytes) :: user name password⟩ ::
      chatWishes name password toname said talks vs) := by
  obtain ⟨file, rfl⟩ := Option.isSome_iff_exists.mp (hfile hpc)
  simp only [mainStep, hpc, Option.some.injEq] at hstep
  subst hstep
  have hsame : ∀ f, (fileRequest c.pmsg (stSize file)).get f = c.pmsg.get f := by
    intro f
    cases f <;> rfl
  refine .asks_rank .openFile .waitId hpc hin (by decide) rfl rfl ?_ rfl ⟨rfl, hm.congr hsame⟩
  exact .chat name password toname said talks vs .waitId (.inr rfl) (hm.of_cons.congr hsame)

theorem goes_waitId (hpc : c.pc = .waitId)
    (hm : Holds c.pmsg ((.toname, toname.bytes) :: user name password))
    (hin : words isspace c.stdin = chatWords said talks vs)
    (hstep : mainStep c file = some t) :
    Goes c t (chatWishes name password toname said talks vs) := by
  simp only [mainStep, hpc, Option.some.injEq] at hstep
  subst hstep
  obtain ⟨offset, heq⟩ := afterSendFile_eq c.pmsg c.sfileId
  have hafter : Holds (afterSendFile c.pmsg c.sfileId)
      ((.toname, toname.bytes) :: user name password) :=
    hm.congr fun f => by rw [heq]; cases f <;> rfl
  refine .on_rank .waitId .chat hpc hin (by decide) rfl rfl ?_ rfl
  exact .chat name password toname said talks vs .chat (.inl rfl) hafter

end

/-- A step of `main` asks for the next wish or for nothing. -/
theorem goes_main {c t : Client} {todo : List Wish} {file : Option Bytes} (h : c.IsBehind todo)
    (hfile : c.pc = .openFile → file.isSome)
    (hstep : mainStep c file = some t) : Goes c t todo := by
  unfold Client.IsBehind at h
  generalize hpc : c.pc = pc at h
  generalize hin : words isspace c.stdin = ws at h
  cases h with
  | top vs =>
    simp only [mainStep, hpc, Option.some.injEq] at hstep
    subst hstep
    refine .on_rank .top .menu hpc hin (by decide) rfl rfl ?_ rfl
    exact .menu vs rfl
  | menu vs hlognum =>
    simp only [mainStep, hpc, Option.some.injEq] at hstep
    subst hstep
    exact goes_menu hlognum hin
  | regName name password vs hact => exact goes_regName hpc hact hin hstep
  | regPassword name password vs hact hm => exact goes_regPassword hpc hact hm hin hstep
  | logName name password talks vs hlognum hact =>
    exact goes_logName hpc hlognum hact hin hstep
  | logPassword name password talks vs hlognum hact hm =>
    exact goes_logPassword hpc hlognum hact hm hin hstep
  | login name password talks vs pc hlogging hlognum hm =>
    exact goes_login (by rw [hpc]; exact hlogging) hlognum hm hin hstep
  | finished vs hlognum =>
    simp only [mainStep, hpc, hlognum, if_true, Option.some.injEq] at hstep
    subst hstep
    refine .on_rank .test3 .top hpc hin (by decide) rfl rfl ?_ rfl
    exact .top vs
  | home name password talks vs hm => exact goes_home hpc hm hin hstep
  | chosenChat name password toname said talks vs hlognum hm =>
    simp only [mainStep, hpc, hlognum, if_true, Option.some.injEq] at hstep
    subst hstep
    refine .on_rank .home1 .toname hpc hin (by decide) rfl rfl ?_ rfl
    exact .toname name password toname said talks vs hm
  | chosenAll name password ms talks vs pc hhome hlognum hm =>
    exact goes_chosenAll hpc hhome hlognum hm hin hstep
  | chosenQuite name password vs pc hhome hlognum hm =>
    exact goes_chosenQuite hpc hhome hlognum hm hin hstep
  | toname name password toname said talks vs hm => exact goes_toname hpc hm hin hstep
  | chat name password toname said talks vs pc hchat hm =>
    rcases hchat with rfl | rfl
    · simp only [mainStep, hpc, Option.some.injEq] at hstep
      subst hstep
      exact goes_chat hm hin
    · exact goes_waitId hpc hm hin hstep
  | filename name password toname filename said talks vs hm =>
    exact goes_filename hpc hm hin hstep
  | openFile name password toname filename said talks vs hm =>
    exact goes_openFile hpc hfile hm hin hstep
  | all name password ms talks vs hm =>
    simp only [mainStep, hpc, Option.some.injEq] at hstep
    subst hstep
    exact goes_all hm hin
  | exited =>
    simp only [mainStep, hpc] at hstep
    cases hstep

end LinuxCat.ClientModel
