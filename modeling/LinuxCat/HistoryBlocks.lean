import LinuxCat.FileStreams
import LinuxCat.MessageHistory

/-! # A history cut into records

Action 9 of the server reads `message.text` in blocks as long as the buffer it measures them in.
A full block leaves no place for the zero `strlen` looks for. -/
namespace LinuxCat.ServerModel
open ByteLayouts Messages FileStreams FileStreams.Stream

/-- The loop of action 9: the `message` of each record it writes. -/
def historyLoop : ℕ → Stream UInt8 → CharArray 1024 → Option (List (CharArray 1024))
  | 0, _, _ => none
  | fuel + 1, fp, message =>
    if fp.atEnd then some []
    else
      let r := fp.read 1024
      -- `buf` was all zeros; `strlen` is taken within it
      let buf := pad 1024 r.1
      (historyLoop fuel r.2 (.zero 1024)).map (List.cons (message.memcpy (cstr buf)))

variable {DB : Type}

/-- Action 9 ends, every record it writes holds a string, and the strings are the history. -/
def RelaysHistory (sql : Sqlite DB) (srv : Server DB) (cfd : ℤ) (pmsg : Msg) : Prop :=
  ∃ fuel messages,
    historyLoop fuel (.opened (selectMessage sql srv.db pmsg).2) pmsg.message = some messages ∧
    (case9 sql srv cfd pmsg).1.written =
      srv.written ++ messages.map (fun message => (cfd, .record { pmsg with message := message })) ∧
    (∀ message ∈ messages, 0 ∈ message.bytes) ∧
    messages.flatMap CharArray.str = (selectMessage sql srv.db pmsg).2

/-- The `message` of the records for these blocks. -/
def recordMessages : CharArray 1024 → List Bytes → List (CharArray 1024)
  | _, [] => []
  | message, block :: blocks => message.memcpy block :: recordMessages (.zero 1024) blocks

theorem blocks_eq_freadBlocks {content : Bytes} {m : ℕ} (hm : content.length ≤ m) :
    blocks 1024 (m + 2) (.opened content) = some (freadBlocks (m + 1) content) := by
  induction m generalizing content with
  | zero =>
    obtain rfl : content = [] := by simpa using hm
    rfl
  | succ m ih =>
    rw [blocks, freadBlocks, if_neg (by simp [Stream.opened])]
    rcases Nat.lt_or_ge content.length 1024 with hlt | hge
    · rw [read_short hlt, if_pos hlt]
      rfl
    · have hlen : (content.drop 1024).length ≤ m := by
        rw [List.length_drop]
        omega
      rw [read_full hge, if_neg (Nat.not_lt.mpr hge)]
      simp only [ih hlen]
      rfl

/-- Blocks without a zero are copied whole. -/
theorem historyLoop_eq {fuel : ℕ} {fp : Stream UInt8} {message : CharArray 1024}
    (hz : 0 ∉ fp.rest) :
    historyLoop fuel fp message = (blocks 1024 fuel fp).map (recordMessages message) := by
  induction fuel generalizing fp message with
  | zero => rfl
  | succ fuel ih =>
    rw [historyLoop, blocks]
    split_ifs with hend
    · rfl
    · have hblock : 0 ∉ fp.rest.take 1024 := fun h => hz (List.mem_of_mem_take h)
      have hrest : 0 ∉ fp.rest.drop 1024 := fun h => hz (List.mem_of_mem_drop h)
      have hbuf : cstr (pad 1024 (fp.rest.take 1024)) = fp.rest.take 1024 := by
        have h := cstr_pad_append (n := 1024) [] (List.length_take_le 1024 fp.rest) hblock rfl
        rwa [List.append_nil] at h
      have hnext : historyLoop fuel (fp.read 1024).2 (.zero 1024) =
          (blocks 1024 fuel (fp.read 1024).2).map (recordMessages (.zero 1024)) := ih hrest
      simp only [Stream.read] at hnext
      simp only [Stream.read, hbuf, hnext, Option.map_map]
      rfl

theorem recordMessages_zero (blocks : List Bytes) :
    recordMessages (.zero 1024) blocks = blocks.map (CharArray.zero 1024).memcpy := by
  induction blocks with
  | nil => rfl
  | cons block blocks ih => rw [recordMessages, ih, List.map_cons]

/-- What action 9 writes. -/
theorem case9_written (sql : Sqlite DB) (srv : Server DB) (cfd : ℤ) (pmsg : Msg) {content : Bytes}
    (hcontent : (selectMessage sql srv.db pmsg).2 = content) :
    (case9 sql srv cfd pmsg).1.written =
      srv.written ++ (recordMessages pmsg.message (freadBlocks (content.length + 1) content)).map
        (fun message => (cfd, .record { pmsg with message := message })) := by
  subst hcontent
  simp only [case9]
  congr 1
  cases freadBlocks _ _ with
  | nil => rfl
  | cons block blocks =>
    rw [recordMessages, recordMessages_zero, List.mapIdx_cons, List.map_cons, List.map_map]
    simp only [if_true, Nat.add_eq_zero_iff, one_ne_zero, and_false, if_false]
    congr 1
    rw [List.mapIdx_eq_iff]
    intro i
    simp [Function.comp_def]

theorem zero_notMem_callback {row : List Bytes} (name toname : Bytes)
    (h : ∀ value ∈ row, 0 ∉ value) : 0 ∉ myGetmessageCallback name toname row := by
  have hcolumn (i : ℕ) : 0 ∉ row.getD i [] := by
    rw [List.getD_eq_getElem?_getD]
    cases hi : row[i]? with
    | none => simp
    | some value => exact h value (List.mem_of_getElem? hi)
  have htexts : 0 ∉ text ":我，时间:" ∧ 0 ∉ text "\n" ∧ 0 ∉ text "时间:" ∧ 0 ∉ text "," ∧
      0 ∉ text ":" := by decide
  obtain ⟨hown, hnewline, htime, hcomma, hcolon⟩ := htexts
  simp only [myGetmessageCallback]
  split_ifs
  · simp only [List.mem_append, not_or]
    exact ⟨⟨⟨hcolumn 2, hown⟩, hcolumn 3⟩, hnewline⟩
  · simp only [List.mem_append, not_or]
    exact ⟨⟨⟨⟨⟨⟨htime, hcolumn 3⟩, hcomma⟩, hcolumn 0⟩, hcolon⟩, hcolumn 2⟩, hnewline⟩
  · exact List.not_mem_nil

/-- The rows of the history are C strings. -/
def HistoryRows (sql : Sqlite DB) (db : DB) (pmsg : Msg) : Prop :=
  ∀ row ∈ (sql.exec db (selectMessageText pmsg.name.str pmsg.toname.str)).2, ∀ value ∈ row, 0 ∉ value

theorem zero_notMem_history {sql : Sqlite DB} {db : DB} {pmsg : Msg}
    (h : HistoryRows sql db pmsg) : 0 ∉ (selectMessage sql db pmsg).2 := by
  intro hz
  obtain ⟨row, hrow, hz⟩ := List.mem_flatMap.mp hz
  exact zero_notMem_callback _ _ (h row hrow) hz

/-- The loop always ends, with a record for each block. -/
theorem historyLoop_ends {content : Bytes} (hz : 0 ∉ content) (message : CharArray 1024) :
    historyLoop (content.length + 2) (.opened content) message =
      some (recordMessages message (freadBlocks (content.length + 1) content)) := by
  rw [historyLoop_eq (by simpa [Stream.opened] using hz), blocks_eq_freadBlocks (Nat.le_refl _)]
  rfl

/-- All that has to be asked of the records. -/
theorem relaysHistory_iff {sql : Sqlite DB} {srv : Server DB} {pmsg : Msg} {content : Bytes}
    (hcontent : (selectMessage sql srv.db pmsg).2 = content) (hz : 0 ∉ content) (cfd : ℤ)
    {messages : List (CharArray 1024)}
    (hmessages : recordMessages pmsg.message (freadBlocks (content.length + 1) content) = messages) :
    RelaysHistory sql srv cfd pmsg ↔
      (∀ message ∈ messages, 0 ∈ message.bytes) ∧ messages.flatMap CharArray.str = content := by
  have hwritten := case9_written sql srv cfd pmsg hcontent
  have hends := historyLoop_ends hz pmsg.message
  rw [hmessages] at hwritten hends
  constructor
  · rintro ⟨fuel, messages', -, hwritten', hzero, hflat⟩
    have hmap := List.append_cancel_left (hwritten'.symm.trans hwritten)
    have hinj : Function.Injective (fun message : CharArray 1024 =>
        (cfd, Out.record { pmsg with message := message })) := by
      intro a b hab
      exact congrArg Msg.message (Out.record.inj (Prod.mk.inj hab).2)
    obtain rfl := List.map_injective_iff.mpr hinj hmap
    exact ⟨hzero, hflat.trans hcontent⟩
  · rintro ⟨hzero, hflat⟩
    exact ⟨content.length + 2, messages, by rw [hcontent, hends], hwritten, hzero,
      hflat.trans hcontent.symm⟩

/-- A full block leaves no zero in its record. -/
theorem not_relaysHistory_of_full {sql : Sqlite DB} {srv : Server DB} {pmsg : Msg} (cfd : ℤ)
    (hrows : HistoryRows sql srv.db pmsg)
    (hfull : 1024 ≤ (selectMessage sql srv.db pmsg).2.length) : ¬ RelaysHistory sql srv cfd pmsg := by
  have hz := zero_notMem_history hrows
  rw [relaysHistory_iff rfl hz cfd rfl, freadBlocks, if_neg (Nat.not_lt.mpr hfull)]
  rintro ⟨hzero, -⟩
  have hblock := hzero _ List.mem_cons_self
  have hlen : ((selectMessage sql srv.db pmsg).2.take 1024).length = 1024 :=
    List.length_take_of_le hfull
  rw [CharArray.bytes_memcpy _ (Nat.le_of_eq hlen), hlen, List.drop_eq_nil_of_le
    (Nat.le_of_eq pmsg.message.length_bytes), List.append_nil] at hblock
  exact hz (List.mem_of_mem_take hblock)

/-- Action 9 relays a history exactly when it is at most 1023 bytes long and the request has a zero
where it ends. -/
theorem history_relayed_iff (sql : Sqlite DB) (srv : Server DB) (cfd : ℤ) (pmsg : Msg)
    (hrows : HistoryRows sql srv.db pmsg) :
    RelaysHistory sql srv cfd pmsg ↔
      (selectMessage sql srv.db pmsg).2.length ≤ 1023 ∧
        pmsg.message.bytes[(selectMessage sql srv.db pmsg).2.length]? = some 0 := by
  have hz := zero_notMem_history hrows
  rcases Nat.lt_or_ge (selectMessage sql srv.db pmsg).2.length 1024 with hlt | hge
  · have hblocks : recordMessages pmsg.message
        (freadBlocks ((selectMessage sql srv.db pmsg).2.length + 1) (selectMessage sql srv.db pmsg).2) =
          [pmsg.message.memcpy (selectMessage sql srv.db pmsg).2] := by
      rw [freadBlocks, if_pos hlt]
      rfl
    rw [relaysHistory_iff rfl hz cfd hblocks, and_iff_right (Nat.le_of_lt_succ hlt)]
    generalize (selectMessage sql srv.db pmsg).2 = content at hz hlt
    have hle : content.length ≤ 1024 := Nat.le_of_lt hlt
    have hstr := CharArray.str_memcpy pmsg.message hle hz
    have hnext : content.length < pmsg.message.bytes.length := by
      rw [pmsg.message.length_bytes]
      exact hlt
    have hnil : cstr (pmsg.message.bytes.drop content.length) = [] ↔
        pmsg.message.bytes[content.length]? = some 0 := by
      rw [cstr_eq_nil_iff, List.drop_eq_getElem_cons hnext, List.headD_cons,
        List.getElem?_eq_getElem hnext, Option.some.injEq]
    simp only [List.mem_singleton, forall_eq, List.flatMap_cons, List.flatMap_nil, List.append_nil]
    rw [← hnil, hstr, List.append_right_eq_self]
    constructor
    · exact fun h => h.2
    · intro h
      refine ⟨CharArray.zero_mem_bytes ?_, h⟩
      rw [hstr, h, List.append_nil]
      exact hlt
  · refine iff_of_false (not_relaysHistory_of_full cfd hrows hge) ?_
    rintro ⟨hle, -⟩
    omega

/-- A request of `a` for the history with `b`. -/
def historyRequest : Msg :=
  { Msg.zero with action := 9, name := .ofBytes 20 [97], toname := .ofBytes 20 [98] }

/-- A database whose only message is one of `a` to `b`. -/
def oneMessage (message : Bytes) : Sqlite Unit :=
  ⟨fun _ _ => ((), [[[97], [98], message, [49]]])⟩

theorem short_history_relayed :
    RelaysHistory (oneMessage [104, 105]) (.start ()) 4 historyRequest :=
  (history_relayed_iff (oneMessage [104, 105]) (.start ()) 4 historyRequest (by
    intro row hrow
    obtain rfl := List.mem_singleton.mp hrow
    decide)).mpr (by decide)

/-- With its timestamp and its sender, the longest message is a block and more. -/
theorem oneMessage_full {message : Bytes} (hz : 0 ∉ message) (hlen : message.length = 1023) :
    ¬ RelaysHistory (oneMessage message) (.start ()) 4 historyRequest := by
  apply not_relaysHistory_of_full
  · intro row hrow value hvalue
    obtain rfl := List.mem_singleton.mp hrow
    simp only [List.mem_cons, List.not_mem_nil, or_false] at hvalue
    rcases hvalue with rfl | rfl | rfl | rfl
    · decide
    · decide
    · exact hz
    · decide
  · have hname : historyRequest.name.str = [97] := by decide
    have hnewline : (text "\n").length = 1 := by decide
    have hcontent : (selectMessage (oneMessage message) () historyRequest).2 =
        message ++ text ":我，时间:" ++ [49] ++ text "\n" ++ [] := by
      simp only [selectMessage, oneMessage, List.flatMap_cons, List.flatMap_nil,
        myGetmessageCallback, hname]
      rfl
    rw [show (Server.start ()).db = () from rfl, hcontent]
    simp only [List.length_append, hlen, hnewline]
    omega

theorem long_message_not_relayed :
    ¬ RelaysHistory (oneMessage (List.replicate 1023 97)) (.start ()) 4 historyRequest :=
  oneMessage_full (fun h => absurd (List.eq_of_mem_replicate h) (by decide)) List.length_replicate

end LinuxCat.ServerModel
