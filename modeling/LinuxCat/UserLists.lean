import LinuxCat.ServerModel
import LinuxCat.WordScans

/-! # The list of users, from the server to the screen

Action 6 of the server writes the names to a file and sends what a buffer holds of it; case 6 of
the client writes that to a file of its own and prints it word by word. -/
namespace LinuxCat.UserLists
open ByteLayouts Messages ServerModel WordScans

/-- `isspace`. -/
def isspace (b : UInt8) : Bool := b = 32 ∨ 9 ≤ b ∧ b ≤ 13

/-- The loop of case 6 of the client: the lines it prints from `user.txt`, of which `rest` is
unread. `feof` is the flag of the stream; none when the fuel ends, or a word overruns `buf`. -/
def printUsers : ℕ → Bytes → Bool → CharArray 100 → Option (List Bytes)
  | 0, _, _, _ => none
  | fuel + 1, rest, feof, buf =>
    if feof then some []
    else
      let found := scan isspace rest
      match found.word with
      -- `fscanf` leaves `buf` as it is
      | none => (printUsers fuel found.rest found.ended (.zero 100)).map (List.cons buf.str)
      | some word =>
        if word.length < 100 then
          (printUsers fuel found.rest found.ended (.zero 100)).map
            (List.cons (buf.strcpy word).str)
        else none

/-- Case 6 of the client's `thread_read`, with `buf` as the stack left it; none also where `strlen`
leaves `message`. -/
def case6 (fuel : ℕ) (pmsg : Msg) (buf : CharArray 100) : Option (List Bytes) :=
  if 0 ∈ pmsg.message.bytes then
    -- the number of items written, which is compared with a number of bytes
    let ret := if pmsg.message.str = [] then 0 else 1
    if ret ≠ 1024 then printUsers fuel pmsg.message.str false buf else some []
  else none

/-- The loop takes one round more than the text has bytes, at most. -/
theorem printUsers_stable {fuel : ℕ} {rest : Bytes} (h : rest.length + 2 ≤ fuel)
    (buf : CharArray 100) (n : ℕ) :
    printUsers (fuel + n) rest false buf = printUsers fuel rest false buf := by
  induction fuel generalizing rest buf with
  | zero => omega
  | succ fuel ih =>
    have hnext (buf : CharArray 100) :
        printUsers (fuel + n) (scan isspace rest).rest (scan isspace rest).ended buf =
          printUsers fuel (scan isspace rest).rest (scan isspace rest).ended buf := by
      cases hended : (scan isspace rest).ended with
      | true =>
        obtain ⟨m, rfl⟩ : ∃ m, fuel = m + 1 := ⟨fuel - 1, by omega⟩
        rw [show m + 1 + n = m + n + 1 by omega, printUsers, printUsers, if_pos rfl, if_pos rfl]
      | false =>
        have hlt := scan_rest_lt hended
        exact ih (by omega) buf
    rw [show fuel + 1 + n = fuel + n + 1 by omega]
    simp only [printUsers, hnext]

theorem case6_stable (pmsg : Msg) (buf : CharArray 100) (n : ℕ) :
    case6 (1026 + n) pmsg buf = case6 1026 pmsg buf := by
  have hlen := pmsg.message.length_str_le
  simp only [case6, printUsers_stable (show pmsg.message.str.length + 2 ≤ 1026 by omega)]

/-- The line of an entry. -/
def line (e : Online) : Bytes := userLabel ++ e.name

/-- A name as the clients enter them: a word of at most 19 bytes. -/
structure Named (e : Online) : Prop where
  word : IsWord isspace e.name
  zero : 0 ∉ e.name
  length : e.name.length ≤ 19

variable {DB : Type}

/-- Action 6 sends one record to every entry; its text ends inside `message`, and case 6 of the
client prints from it the line of each entry, in the order of the list. -/
def RoundTrips (sql : Sqlite DB) (junk : CharArray 20) (srv : Server DB) (cfd : ℤ)
    (request : Msg) : Prop :=
  ∃ record,
    (dispatch sql junk srv cfd request).1.written =
      srv.written ++ srv.online.map (fun e => (e.cfd, .record record)) ∧
    0 ∈ record.message.bytes ∧
    ∀ buf, ∃ fuel, case6 fuel record buf = some (srv.online.map line)

/-- The lines, a byte between two of them, fit with their terminator; and where there is only one,
the request has a zero where this line ends. -/
def Fits (online : List Online) (request : Msg) : Prop :=
  (online.map (fun e => e.name.length + 11)).sum ≤ 1024 ∧
    ∀ e, online = [e] → request.message.bytes[e.name.length + 10]? = some 0

theorem length_userLabel : userLabel.length = 10 := by decide +kernel

theorem userLabel_word : ∀ b ∈ userLabel, isspace b = false ∧ b ≠ 0 := by decide +kernel

theorem line_word {e : Online} (h : Named e) : IsWord isspace (line e) := by
  refine ⟨List.append_ne_nil_of_right_ne_nil _ h.word.1, fun b hb => ?_⟩
  rcases List.mem_append.mp hb with hb | hb
  · exact (userLabel_word b hb).1
  · exact h.word.2 b hb

theorem zero_notMem_line {e : Online} (h : Named e) : 0 ∉ line e := by
  intro hz
  rcases List.mem_append.mp hz with hz | hz
  · exact (userLabel_word 0 hz).2 rfl
  · exact h.zero hz

theorem length_line {e : Online} (h : Named e) :
    (line e).length = e.name.length + 10 ∧ (line e).length < 100 := by
  have hlen : (line e).length = e.name.length + 10 := by
    rw [line, List.length_append, length_userLabel, Nat.add_comm]
  have := h.length
  exact ⟨hlen, by omega⟩

theorem userText_cons (e e' : Online) (online : List Online) :
    userText (e :: e' :: online) = line e ++ 10 :: userText (e' :: online) := by
  have htext : text "\n" = [10] := by decide +kernel
  simp only [userText, line, htext, List.append_assoc, List.singleton_append]

theorem zero_notMem_userText {online : List Online} (h : ∀ e ∈ online, Named e) :
    0 ∉ userText online := by
  induction online with
  | nil => simp [userText]
  | cons e online ih =>
    cases online with
    | nil => exact zero_notMem_line (h e List.mem_cons_self)
    | cons e' online =>
      have hline := zero_notMem_line (h e List.mem_cons_self)
      have hrest := ih fun e he => h e (List.mem_cons_of_mem _ he)
      rw [userText_cons]
      simp only [List.mem_append, List.mem_cons, not_or]
      exact ⟨hline, by decide, hrest⟩

theorem length_userText {online : List Online} (hne : online ≠ [])
    (h : ∀ e ∈ online, Named e) :
    (userText online).length + 1 = (online.map (fun e => e.name.length + 11)).sum := by
  induction online with
  | nil => exact absurd rfl hne
  | cons e online ih =>
    have hline := (length_line (h e List.mem_cons_self)).1
    cases online with
    | nil =>
      change (line e).length + 1 = _
      rw [hline, List.map_singleton, List.sum_singleton]
    | cons e' online =>
      have hrest := ih (List.cons_ne_nil _ _) fun e he => h e (List.mem_cons_of_mem _ he)
      rw [userText_cons, List.length_append, List.length_cons, List.map_cons, List.sum_cons,
        hline, ← hrest]
      omega

/-! ## The client's loop -/

theorem printUsers_ended {fuel : ℕ} (rest : Bytes) (buf : CharArray 100) (h : fuel ≠ 0) :
    printUsers fuel rest true buf = some [] := by
  obtain ⟨fuel, rfl⟩ := Nat.exists_eq_succ_of_ne_zero h
  rfl

/-- A round that finds a word. -/
theorem printUsers_word {fuel : ℕ} {rest word rest' : Bytes} {ended : Bool} (buf : CharArray 100)
    (hscan : scan isspace rest = ⟨some word, rest', ended⟩) (hlen : word.length < 100)
    (hz : 0 ∉ word) :
    printUsers (fuel + 1) rest false buf =
      (printUsers fuel rest' ended (.zero 100)).map (List.cons word) := by
  rw [printUsers, if_neg (by decide)]
  simp only [hscan, if_pos hlen, buf.str_strcpy_of hlen.le hz]

/-- `fscanf` skips the newline that the word before it has left. -/
theorem printUsers_newline (fuel : ℕ) (rest : Bytes) (buf : CharArray 100) :
    printUsers fuel (10 :: rest) false buf = printUsers fuel rest false buf := by
  cases fuel with
  | zero => rfl
  | succ fuel =>
    have hscan : scan isspace (10 :: rest) = scan isspace rest := scan_cons_space (by decide) rest
    simp only [printUsers, hscan]

/-- A line for each name, and the end of the file is met with the last. -/
theorem printUsers_userText {online : List Online} (hne : online ≠ []) (h : ∀ e ∈ online, Named e)
    {fuel : ℕ} (hfuel : online.length < fuel) (buf : CharArray 100) :
    printUsers fuel (userText online) false buf = some (online.map line) := by
  induction online generalizing fuel buf with
  | nil => exact absurd rfl hne
  | cons e online ih =>
    obtain ⟨fuel, rfl⟩ := Nat.exists_eq_add_of_lt hfuel
    have he := h e List.mem_cons_self
    have hword := line_word he
    cases online with
    | nil =>
      change printUsers _ (line e) false buf = _
      rw [printUsers_word buf (scan_last hword) (length_line he).2 (zero_notMem_line he),
        printUsers_ended _ _ (by simp)]
      rfl
    | cons e' online =>
      rw [userText_cons, printUsers_word buf (scan_before_space hword (by decide) _)
        (length_line he).2 (zero_notMem_line he), printUsers_newline,
        ih (List.cons_ne_nil _ _) (fun e he => h e (List.mem_cons_of_mem _ he)) (by simp; omega)]
      rfl

/-- A loop that has not met the end prints something. -/
theorem printUsers_ne_nil {fuel : ℕ} {rest : Bytes} {buf : CharArray 100} :
    printUsers fuel rest false buf ≠ some [] := by
  cases fuel with
  | zero => simp [printUsers]
  | succ fuel =>
    rw [printUsers, if_neg (by decide)]
    dsimp only
    split
    · simp
    · split_ifs <;> simp

/-- Bytes behind the only line are printed with it, or behind it. -/
theorem printUsers_leftover {e : Online} (he : Named e) {g : Bytes} (hg : g ≠ []) {fuel : ℕ}
    {buf : CharArray 100} (hz : 0 ∉ line e ++ g) :
    printUsers fuel (line e ++ g) false buf ≠ some [line e] := by
  cases fuel with
  | zero => simp [printUsers]
  | succ fuel =>
    intro h
    have hscan := scan_word_append (line_word he) g
    have hzero : 0 ∉ line e ++ g.takeWhile (fun c => !isspace c) := by
      intro hmem
      rcases List.mem_append.mp hmem with hmem | hmem
      · exact hz (List.mem_append_left _ hmem)
      · exact hz (List.mem_append_right _ ((List.takeWhile_sublist _).subset hmem))
    by_cases hlen : (line e ++ g.takeWhile (fun c => !isspace c)).length < 100
    · rw [printUsers_word buf hscan hlen hzero] at h
      obtain ⟨lines, hlines, hcons⟩ := Option.map_eq_some_iff.mp h
      obtain ⟨hword, rfl⟩ := List.cons.inj hcons
      have hnone : g.takeWhile (fun c => !isspace c) = [] := by simpa using hword
      have hrest : g.dropWhile (fun c => !isspace c) = g := by
        conv_rhs => rw [← List.takeWhile_append_dropWhile (p := fun c => !isspace c) (l := g), hnone]
        rfl
      rw [hrest, List.isEmpty_eq_false_iff.mpr hg] at hlines
      exact printUsers_ne_nil hlines
    · rw [printUsers, if_neg (by decide), hscan] at h
      dsimp only at h
      rw [if_neg hlen] at h
      cases h

/-! ## The text in the record -/

/-- The array a text is copied over: only a list of two or more clears what the request carried. -/
def under (online : List Online) (request : Msg) : CharArray 1024 :=
  match online with
  | [_] => request.message
  | _ => .zero 1024

/-- The record action 6 sends. -/
def userRecord (online : List Online) (request : Msg) : Msg :=
  { request with message := (under online request).memcpy ((userText online).take 1024) }

theorem dispatch_userRecord (sql : Sqlite DB) (junk : CharArray 20) (srv : Server DB) (cfd : ℤ)
    {request : Msg} (hact : request.action = 6) (hne : srv.online ≠ []) :
    (dispatch sql junk srv cfd request).1.written =
      srv.written ++ srv.online.map (fun e => (e.cfd, .record (userRecord srv.online request))) := by
  rw [dispatch_eq_case6 hact, ServerModel.case6, userRecord]
  match h : srv.online with
  | [] => exact absurd h hne
  | [e] => simp only [Server.toAll, under, h]
  | e :: e' :: online => simp only [Server.toAll, under, h]

/-- What stays behind the text of the array it is copied over. -/
def leftover (online : List Online) (request : Msg) : Bytes :=
  cstr ((under online request).bytes.drop (userText online).length)

theorem leftover_eq_nil_iff {online : List Online} {request : Msg} (hne : online ≠ [])
    (h : ∀ e ∈ online, Named e) :
    leftover online request = [] ↔
      ∀ e, online = [e] → request.message.bytes[e.name.length + 10]? = some 0 := by
  rw [leftover, cstr_eq_nil_iff]
  match online with
  | [] => exact absurd rfl hne
  | [e] =>
    have hlen : (userText [e]).length = e.name.length + 10 := (length_line (h e (by simp))).1
    have hlt : e.name.length + 10 < request.message.bytes.length := by
      have := (h e (by simp)).length
      rw [request.message.length_bytes]
      omega
    have hhead : (request.message.bytes.drop (e.name.length + 10)).headD 0 =
        request.message.bytes[e.name.length + 10] := by
      rw [List.drop_eq_getElem_cons hlt, List.headD_cons]
    rw [under, hlen, hhead]
    simp [List.getElem?_eq_getElem hlt]
  | e :: e' :: online =>
    have hzero : (under (e :: e' :: online) request).bytes = List.replicate 1024 0 := by
      change pad 1024 [] = _
      rw [pad, List.take_nil, List.nil_append, List.length_nil, Nat.sub_zero]
    rw [hzero, List.drop_replicate]
    refine iff_of_true ?_ (fun e h => by cases h)
    cases 1024 - (userText (e :: e' :: online)).length <;> simp [List.replicate_succ]

/-- The record is the same for all, so only its text and the client matter. -/
theorem roundTrips_iff {sql : Sqlite DB} {junk : CharArray 20} {srv : Server DB} {cfd : ℤ}
    {request : Msg} (hact : request.action = 6) (hne : srv.online ≠ []) :
    RoundTrips sql junk srv cfd request ↔
      0 ∈ (userRecord srv.online request).message.bytes ∧
        ∀ buf, ∃ fuel, case6 fuel (userRecord srv.online request) buf =
          some (srv.online.map line) := by
  have hwritten := dispatch_userRecord sql junk srv cfd hact hne
  constructor
  · rintro ⟨record, hrecord, hclient⟩
    obtain ⟨e, online, honline⟩ := List.exists_cons_of_ne_nil hne
    have hsame := List.append_cancel_left (hrecord.symm.trans hwritten)
    rw [honline, List.map_cons, List.map_cons] at hsame
    obtain ⟨hhead, -⟩ := List.cons.inj hsame
    obtain rfl : record = userRecord srv.online request := by
      simpa [honline] using hhead
    exact hclient
  · exact fun hclient => ⟨_, hwritten, hclient⟩

/-- A text that is too long fills `message`. -/
theorem not_roundTrips_of_long {sql : Sqlite DB} {junk : CharArray 20} {srv : Server DB} {cfd : ℤ}
    {request : Msg} (hact : request.action = 6) (hne : srv.online ≠ [])
    (h : ∀ e ∈ srv.online, Named e) (hlong : 1024 ≤ (userText srv.online).length) :
    ¬ RoundTrips sql junk srv cfd request := by
  rw [roundTrips_iff hact hne]
  rintro ⟨hzero, -⟩
  have hlen : ((userText srv.online).take 1024).length = 1024 := by
    rw [List.length_take]
    omega
  rw [userRecord, CharArray.bytes_memcpy _ hlen.le, hlen,
    List.drop_eq_nil_of_le (under srv.online request).length_bytes.le, List.append_nil] at hzero
  exact zero_notMem_userText h (List.mem_of_mem_take hzero)

/-- The string of a record whose text fits. -/
theorem str_userRecord {online : List Online} (request : Msg) (h : ∀ e ∈ online, Named e)
    (hlt : (userText online).length < 1024) :
    (userRecord online request).message.str = userText online ++ leftover online request := by
  rw [userRecord, List.take_of_length_le hlt.le]
  exact CharArray.str_memcpy _ hlt.le (zero_notMem_userText h)

/-- The client always goes on to print. -/
theorem case6_of_terminated {pmsg : Msg} (h : 0 ∈ pmsg.message.bytes) (fuel : ℕ)
    (buf : CharArray 100) : case6 fuel pmsg buf = printUsers fuel pmsg.message.str false buf := by
  have hret : (if pmsg.message.str = [] then 0 else 1) ≠ 1024 := by split_ifs <;> decide
  rw [case6, if_pos h]
  exact if_pos hret

/-- The list is on the screen as it is in the server exactly when its text fits and nothing of the
request lies behind a single line. -/
theorem users_round_trip_iff (sql : Sqlite DB) (junk : CharArray 20) (srv : Server DB) (cfd : ℤ)
    (request : Msg) (hact : request.action = 6) (hne : srv.online ≠ [])
    (hnames : ∀ e ∈ srv.online, Named e) :
    RoundTrips sql junk srv cfd request ↔ Fits srv.online request := by
  have hlen := length_userText hne hnames
  have hleft : leftover srv.online request = [] ↔ _ := leftover_eq_nil_iff hne hnames
  rcases lt_or_ge (userText srv.online).length 1024 with hlt | hge
  · have hfits : Fits srv.online request ↔ leftover srv.online request = [] := by
      rw [Fits, hleft, and_iff_right (by omega)]
    have hstr := str_userRecord request hnames hlt
    rw [roundTrips_iff hact hne, hfits]
    constructor
    · rintro ⟨hzero, hclient⟩
      by_contra hg
      obtain ⟨e, hsingle⟩ := not_forall.mp (hleft.not.mp hg)
      have honline : srv.online = [e] := by
        by_contra hnot
        exact hsingle fun h => absurd h hnot
      have htext : userText srv.online = line e := by rw [honline]; rfl
      obtain ⟨fuel, hprint⟩ := hclient (.zero 100)
      rw [case6_of_terminated hzero, hstr, htext, honline, List.map_singleton] at hprint
      refine printUsers_leftover (hnames e (by simp [honline])) (honline ▸ hg) ?_ hprint
      have hnone := zero_notMem_cstr (userRecord srv.online request).message.bytes
      change 0 ∉ (userRecord srv.online request).message.str at hnone
      rwa [hstr, htext, honline] at hnone
    · intro hg
      rw [hg, List.append_nil] at hstr
      have hzero := CharArray.zero_mem_bytes (hstr ▸ hlt)
      refine ⟨hzero, fun buf => ⟨srv.online.length + 1, ?_⟩⟩
      rw [case6_of_terminated hzero, hstr]
      exact printUsers_userText hne hnames (Nat.lt_succ_self _) buf
  · refine iff_of_false (not_roundTrips_of_long hact hne hnames hge) fun hfits => ?_
    have := hfits.1
    omega

/-- Two users. -/
theorem two_users_round_trip :
    RoundTrips Sqlite.silent (.zero 20)
      { Server.start () with online := [⟨4, 0, text "amy"⟩, ⟨5, 0, text "bob"⟩] } 4
      { Msg.zero with action := 6 } := by
  have hnames : ∀ e ∈ [(⟨4, 0, text "amy"⟩ : Online), ⟨5, 0, text "bob"⟩], Named e := by
    intro e he
    obtain rfl | rfl := List.mem_pair.mp he
    · exact ⟨⟨by decide +kernel, by decide +kernel⟩, by decide +kernel, by decide +kernel⟩
    · exact ⟨⟨by decide +kernel, by decide +kernel⟩, by decide +kernel, by decide +kernel⟩
  exact (users_round_trip_iff Sqlite.silent (.zero 20)
    { Server.start () with online := [⟨4, 0, text "amy"⟩, ⟨5, 0, text "bob"⟩] } 4
    { Msg.zero with action := 6 } rfl (by simp) hnames).mpr
      ⟨by decide +kernel, fun e h => by cases h⟩

def longName : Bytes := text "user_of_long_name_1"

/-- `n` sessions of one user. -/
def sessions (n : ℕ) : List Online := (List.range n).map (fun i : ℕ => ⟨i, 0, longName⟩)

/-- The lines of 35 such sessions take 1049 bytes. -/
theorem many_users_do_not_round_trip :
    ¬ RoundTrips Sqlite.silent (.zero 20) { Server.start () with online := sessions 35 } 4
      { Msg.zero with action := 6 } := by
  have hword : IsWord isspace longName := ⟨by decide +kernel, by decide +kernel⟩
  have hzero : 0 ∉ longName := by decide +kernel
  have hlength : longName.length ≤ 19 := by decide +kernel
  have hnames : ∀ e ∈ sessions 35, Named e := by
    intro e he
    obtain ⟨i, -, rfl⟩ := List.mem_map.mp he
    exact ⟨hword, hzero, hlength⟩
  have hne : sessions 35 ≠ [] := by decide +kernel
  have hlen := length_userText hne hnames
  have hsum : ((sessions 35).map (fun e => e.name.length + 11)).sum = 1050 := by decide +kernel
  exact not_roundTrips_of_long rfl hne hnames (show 1024 ≤ (userText (sessions 35)).length by omega)

end LinuxCat.UserLists
