import LinuxCat.ClientProtocol

/-! # The bytes of what a client writes

The server reads the bytes of a record into a record of its own. Whatever was typed, every number of
a record that a client writes is of its type, so the server has the same record behind the `recv`. -/
namespace LinuxCat.ClientModel
open LabelledMachines LabelledMachines.Machine ByteLayouts Messages FileBlocks Histories StreamReads
open ServerModel (Record Sqlite Server StreamState StreamAction streamMachine text)
open SenderModel (stSize)

variable {DB : Type}

/-! ## The numbers of a record -/

theorem isInt_stSize (file : Bytes) : IsInt (stSize file) := by
  have hlow := Int.le_bmod (x := file.length) (m := 2 ^ 32) (by norm_num)
  have hhigh := Int.bmod_lt (x := file.length) (m := 2 ^ 32) (by norm_num)
  exact ⟨le_trans (by norm_num) hlow, hhigh.trans_le (by norm_num)⟩

/-- The quotient of `send_file`, and the offset behind its full blocks. -/
theorem tdiv_bounds {size : ℤ} (h : IsInt size) :
    (-5000000 ≤ size.tdiv BLOCKSIZE ∧ size.tdiv BLOCKSIZE ≤ 5000000) ∧
      BLOCKSIZE * ((size.tdiv BLOCKSIZE).toNat : ℤ) < 2 ^ 31 := by
  obtain ⟨hlow, hhigh⟩ := h
  have hsum := Int.mul_tdiv_add_tmod size 500
  have hmod := Int.tmod_lt_of_pos size (by norm_num : (0 : ℤ) < 500)
  have hmod' := Int.lt_tmod_of_pos size (by norm_num : (0 : ℤ) < 500)
  simp only [BLOCKSIZE]
  refine ⟨by omega, ?_⟩
  rcases le_total 0 size with hpos | hneg
  · have hle := Int.mul_tdiv_self_le (k := 500) hpos
    have hquot := Int.tdiv_nonneg hpos (by norm_num : (0 : ℤ) ≤ 500)
    rw [Int.toNat_of_nonneg hquot]
    omega
  · have hquot : size.tdiv 500 ≤ 0 := by omega
    rw [Int.toNat_of_nonpos hquot]
    norm_num

theorem typed_fileRequest {m : Msg} (h : m.Typed) {size : ℤ} (hsize : IsInt size) :
    (fileRequest m size).Typed := by
  obtain ⟨hquot, -⟩ := tdiv_bounds hsize
  refine ⟨(by decide : IsInt 3), h.sfileId, hsize, ?_, (by decide : IsInt BLOCKSIZE), h.offset,
    h.cfd⟩
  simp only [fileRequest]
  split_ifs
  · exact ⟨by omega, by omega⟩
  · exact ⟨by omega, by omega⟩

/-- `send_file` on the record it has made makes as many heads as there are full blocks. -/
theorem afterSendFile_offset (m : Msg) (size sfileId : ℤ) :
    afterSendFile (fileRequest m size) sfileId =
      { fileRequest m size with
        sfileId := sfileId
        offset := BLOCKSIZE * ((size.tdiv BLOCKSIZE).toNat : ℤ) } := by
  have hlast : lastBs size = size.tmod BLOCKSIZE := by
    have hsum := Int.mul_tdiv_add_tmod size BLOCKSIZE
    unfold lastBs
    split_ifs with hmod
    · exact hmod.symm
    · omega
  have hheads : (if lastBs size = 0 then (fileRequest m size).count
      else (fileRequest m size).count - 1) = size.tdiv BLOCKSIZE := by
    simp only [hlast, fileRequest]
    split_ifs
    · rfl
    · omega
  simp only [afterSendFile]
  rw [show (fileRequest m size).filesize = size from rfl, hheads, newFbHeads_snd, zero_add]

theorem typed_afterSendFile {m : Msg} (h : m.Typed) {size : ℤ} (hsize : IsInt size) {sfileId : ℤ}
    (hid : IsInt sfileId) : (afterSendFile (fileRequest m size) sfileId).Typed := by
  obtain ⟨-, hoffset⟩ := tdiv_bounds hsize
  have htyped := typed_fileRequest h hsize
  rw [afterSendFile_offset]
  refine ⟨htyped.action, hid, htyped.filesize, htyped.count, htyped.bs, ⟨?_, hoffset⟩, htyped.cfd⟩
  simp only [BLOCKSIZE]
  omega

theorem Scans.typed {f : Field} {m m' : Msg} (h : Scans f m m') (hm : m.Typed) : m'.Typed := by
  rcases h with rfl | ⟨word, h⟩
  · exact hm
  · exact Msg.scanned_typed h

/-! ## Runs -/

/-- `main` does not work with `pmsg` here. -/
def Pc.idle : Pc → Bool
  | .top | .menu | .exited | .fault => true
  | _ => false

structure AllTyped (c : Client) : Prop where
  pmsg : c.pc.idle = false → c.pmsg.Typed
  sfileId : IsInt c.sfileId
  waitId : c.pc = .waitId →
    ∃ m size, c.pmsg = fileRequest m size ∧ m.Typed ∧ IsInt size
  written : ∀ m ∈ c.written, m.Typed

/-- `main` goes on with a record of the types, and writes it or nothing. -/
theorem AllTyped.goes {c t : Client} (h : AllTyped c) (hpmsg : t.pc.idle = false → t.pmsg.Typed)
    (hpc : t.pc ≠ .waitId) (hid : t.sfileId = c.sfileId)
    (hwritten : t.written = c.written ∨ t.written = c.written ++ [t.pmsg] ∧ t.pmsg.Typed) :
    AllTyped t := by
  refine ⟨hpmsg, hid ▸ h.sfileId, fun hw => absurd hw hpc, ?_⟩
  rcases hwritten with hw | ⟨hw, htyped⟩
  · rw [hw]
    exact h.written
  · rw [hw]
    exact List.forall_mem_append.mpr ⟨h.written, List.forall_mem_singleton.mpr htyped⟩

/-- The process has ended. -/
theorem AllTyped.stops {c : Client} {pc : Pc} (h : AllTyped c) (hpc : pc = .exited ∨ pc = .fault) :
    AllTyped (c.goto pc) := by
  rcases hpc with rfl | rfl <;>
    exact h.goes (fun hidle => by cases hidle) (by simp [Client.goto]) rfl (.inl rfl)

theorem AllTyped.pmsg_at {c : Client} (h : AllTyped c) {pc : Pc} (hpc : c.pc = pc)
    (hidle : pc.idle = false) : c.pmsg.Typed :=
  h.pmsg (by rw [hpc, hidle])

theorem allTyped_entry {c t : Client} (h : AllTyped c) (hstep : EntryStep c t) :
    AllTyped t := by
  cases hstep with
  | clear hpc => exact h.goes (fun hidle => by cases hidle) (by simp) rfl (.inl rfl)
  | again num stdin hpc => exact h.goes (fun hidle => by cases hidle) (by simp) rfl (.inl rfl)
  | leave num stdin hpc => exact h.goes (fun hidle => by cases hidle) (by simp) rfl (.inl rfl)
  | regUser num stdin hpc =>
    exact h.goes (fun _ => Msg.typed_action Msg.typed_zero (by decide)) (by simp [regUser]) rfl (.inl rfl)
  | logUser num stdin hpc =>
    exact h.goes (fun _ => Msg.typed_action Msg.typed_zero (by decide)) (by simp [logUser]) rfl (.inl rfl)
  | named stdin pmsg pc hscan hpc =>
    rcases hpc with ⟨hpc, rfl⟩ | ⟨hpc, rfl⟩ <;>
      exact h.goes (fun _ => hscan.typed (h.pmsg_at hpc rfl)) (by simp) rfl (.inl rfl)
  | registered stdin pmsg hscan hpc =>
    have htyped := hscan.typed (h.pmsg_at hpc rfl)
    exact h.goes (fun _ => htyped) (by simp [Client.write]) rfl (.inr ⟨rfl, htyped⟩)
  | asked stdin pmsg hscan hpc =>
    have htyped := hscan.typed (h.pmsg_at hpc rfl)
    exact h.goes (fun _ => htyped) (by simp [Client.write]) rfl (.inr ⟨rfl, htyped⟩)

theorem allTyped_waiting {c t : Client} (h : AllTyped c) (hstep : WaitStep c t) :
    AllTyped t := by
  cases hstep with
  | finished hpc => exact h.goes (fun hidle => by cases hidle) (by simp) rfl (.inl rfl)
  | wait pc hpc =>
    have htyped : c.pmsg.Typed := by
      rcases hpc with ⟨hpc, -⟩ | ⟨hpc, -⟩ | ⟨hpc, -⟩ <;> exact h.pmsg_at hpc rfl
    refine h.goes (fun _ => htyped) ?_ rfl (.inl rfl)
    rcases hpc with ⟨-, -, rfl⟩ | ⟨-, -, rfl⟩ | ⟨-, -, rfl⟩ <;> simp
  | viewUser hpc hlognum =>
    have htyped := Msg.typed_action (h.pmsg_at hpc rfl) (by decide : IsInt 6)
    exact h.goes (fun _ => htyped) (by simp [viewUser, Client.request, Client.write]) rfl
      (.inr ⟨rfl, htyped⟩)

theorem allTyped_home {c t : Client} (h : AllTyped c) (hstep : HomeStep c t) :
    AllTyped t := by
  cases hstep with
  | choose lognum stdin hpc =>
    exact h.goes (fun _ => h.pmsg_at hpc rfl) (by simp) rfl (.inl rfl)
  | tested pc hpc hto =>
    have htyped : c.pmsg.Typed := by
      rcases hpc with hpc | hpc | hpc <;> exact h.pmsg_at hpc rfl
    refine h.goes (fun _ => htyped) ?_ rfl (.inl rfl)
    rcases hto with rfl | rfl | rfl | rfl <;> simp
  | allUser hpc hlognum =>
    have htyped := h.pmsg_at hpc rfl
    exact h.goes (fun _ => Msg.typed_set (f := .toname) htyped _) (by simp [allUser]) rfl (.inl rfl)
  | quiteUser hpc hlognum =>
    have htyped := Msg.typed_action (h.pmsg_at hpc rfl) (by decide : IsInt 10)
    exact h.goes (fun _ => htyped) (by simp [quiteUser, Client.request, Client.write]) rfl
      (.inr ⟨rfl, htyped⟩)
  | chatUser stdin pmsg hscan hpc =>
    have htyped := Msg.typed_action (hscan.typed (h.pmsg_at hpc rfl)) (by decide : IsInt 9)
    exact h.goes (fun _ => htyped) (by simp [Client.request, Client.write]) rfl (.inr ⟨rfl, htyped⟩)

theorem allTyped_talking {c t : Client} (h : AllTyped c) (hstep : TalkStep c t) :
    AllTyped t := by
  cases hstep with
  | chatWord stdin pmsg hscan hpc =>
    have htyped := hscan.typed (Msg.typed_message (h.pmsg_at hpc rfl) _)
    have htyped' := Msg.typed_action htyped (by decide : IsInt 2)
    unfold chatWord
    split_ifs
    · exact h.goes (fun _ => htyped) (by simp [Client.goto]) rfl (.inl rfl)
    · exact h.goes (fun _ => htyped) (by simp [Client.goto]) rfl (.inl rfl)
    · exact h.goes (fun _ => htyped') (by simp [Client.request, Client.write]) rfl
        (.inr ⟨rfl, htyped'⟩)
  | filename stdin pmsg hscan hpc =>
    exact h.goes (fun _ => hscan.typed (h.pmsg_at hpc rfl)) (by simp) rfl (.inl rfl)
  | noFile hpc => exact h.goes (fun hidle => by cases hidle) (by simp) rfl (.inl rfl)
  | askFile file hpc =>
    have htyped := typed_fileRequest (h.pmsg_at hpc rfl) (isInt_stSize file)
    refine ⟨fun _ => htyped, h.sfileId, fun _ => ?_, ?_⟩
    · exact ⟨c.pmsg, stSize file, rfl, h.pmsg_at hpc rfl, isInt_stSize file⟩
    · exact List.forall_mem_append.mpr ⟨h.written, List.forall_mem_singleton.mpr htyped⟩
  | sentFile hpc =>
    obtain ⟨m, size, hm, htyped, hsize⟩ := h.waitId hpc
    have hafter := typed_afterSendFile htyped hsize h.sfileId
    rw [← hm] at hafter
    exact h.goes (fun _ => hafter) (by simp) rfl (.inl rfl)
  | allWord stdin pmsg hscan hpc =>
    have htyped := hscan.typed (Msg.typed_message (h.pmsg_at hpc rfl) _)
    have htyped' := Msg.typed_action htyped (by decide : IsInt 4)
    unfold allWord
    split_ifs
    · exact h.goes (fun _ => htyped) (by simp [Client.goto]) rfl (.inl rfl)
    · exact h.goes (fun _ => htyped') (by simp [Client.request, Client.write]) rfl
        (.inr ⟨rfl, htyped'⟩)

theorem allTyped_main {c t : Client} (h : AllTyped c) (hstep : MainStep c t) :
    AllTyped t := by
  cases hstep with
  | entry hstep => exact allTyped_entry h hstep
  | waiting hstep => exact allTyped_waiting h hstep
  | home hstep => exact allTyped_home h hstep
  | talking hstep => exact allTyped_talking h hstep
  | overrun stdin pmsg hpc => exact h.goes (fun hidle => by cases hidle) (by simp) rfl (.inl rfl)

/-- A round with a record of its types. -/
theorem AllTyped.read {c t : Client} {r : Round} {m : Msg} (h : AllTyped c) (hid : IsInt m.sfileId)
    (hstep : ReadStep c r m t) : AllTyped t := by
  cases hstep with
  | goes sfileId shown heq =>
    refine ⟨h.pmsg, ?_, h.waitId, h.written⟩
    dsimp only
    rw [heq]
    split_ifs
    · exact hid
    · exact h.sfileId
  | leaves hnot => exact h.stops (.inr rfl)

theorem allTyped_step {c t : Client} {a : ClientAction} (h : AllTyped c)
    (hstep : clientStep c a = some t) : AllTyped t := by
  cases a with
  | main file => exact allTyped_main h (mainStep_cases hstep)
  | read r m => exact h.read m.2.sfileId (clientStep_read hstep)
  | serverExit =>
    rw [clientStep_serverExit hstep]
    exact ⟨h.pmsg, h.sfileId, h.waitId, h.written⟩
  | kill =>
    rw [clientStep_kill hstep]
    exact h.stops (.inl rfl)

theorem allTyped_start (stdin : Bytes) (num : ℤ) (pmsg : Msg) :
    AllTyped (.start stdin num pmsg) :=
  ⟨fun hidle => (by simp [Client.start, Pc.idle] at hidle), (by decide : IsInt 0),
    fun hpc => (by simp [Client.start] at hpc), by simp [Client.start]⟩

theorem allTyped_run {stdin : Bytes} {num : ℤ} {pmsg : Msg} {as : List ClientAction} {c : Client}
    (h : clientMachine.run (.start stdin num pmsg) as = some c) : ∀ m ∈ c.written, m.Typed :=
  (run_invariant (M := clientMachine) (fun _ _ _ hs hstep => allTyped_step hs hstep)
    (allTyped_start stdin num pmsg) h).written

/-! ## From the client to the server -/

/-- The records of a client, of their types. -/
def Client.records (c : Client) (h : ∀ m ∈ c.written, m.Typed) : List Record :=
  c.written.attachWith Msg.Typed h

theorem Client.map_records {c : Client} (h : ∀ m ∈ c.written, m.Typed) :
    (c.records h).map Subtype.val = c.written :=
  List.attachWith_map_subtype_val h

theorem Client.flatMap_records {c : Client} (h : ∀ m ∈ c.written, m.Typed) :
    (c.records h).flatMap Record.frame = c.written.flatMap Msg.toBytes := by
  conv_rhs => rw [← c.map_records h, List.flatMap_map]
  rfl

variable {sql : Sqlite DB} {srv : Server DB} {stream : ℕ → Bytes} {stdin : Bytes} {num : ℤ}
  {pmsg : Msg} {as : List ClientAction} {client : Client} {c : ℕ} {bs : List StreamAction}
  {t : StreamState DB}

/-- While every `recv` on its connection returns a whole record, the requests that the server takes
from a client are the first records of the client. -/
theorem requests_prefix_written
    (hclient : clientMachine.run (.start stdin num pmsg) as = some client)
    (hstream : stream c = client.written.flatMap Msg.toBytes)
    (h : (streamMachine sql stream).run (.start srv) bs = some t)
    (hwhole : ∀ a ∈ bs, a.Whole c) : t.server.requests c <+: client.written := by
  have htyped : ∀ m ∈ client.written, m.Typed := allTyped_run hclient
  have hinv := run_invariant (M := streamMachine sql stream)
    (fun _ _ _ hs hstep => ServerModel.inStep_step hs hstep) (ServerModel.inStep_start srv) h
  have hwholes : t.WholeReads c :=
    (ServerModel.wholeReads_run c h).mpr
      ⟨by simp [StreamState.WholeReads, StreamState.start, StreamState.reads], hwhole⟩
  have hframes : ∀ f ∈ (client.records htyped).map Record.frame, f.length = sizeofMsg := by
    intro f hf
    obtain ⟨r, -, rfl⟩ := List.mem_map.mp hf
    exact r.1.length_toBytes
  have hdelivers : Delivers sizeofMsg ((client.records htyped).map Record.frame).flatten
      (t.reads c) := by
    rw [← List.flatMap_def, Client.flatMap_records, ← hstream]
    exact hinv.delivers c
  rw [hinv.requests c, ← Client.map_records htyped, ServerModel.requests_prefix_iff_buffers,
    buffers_prefix_iff_kept hframes hdelivers]
  exact kept_of_whole (by decide) hframes hdelivers hwholes

/-- A client, whatever is typed in it and whatever it is sent, and the server on the bytes that it
has written and on any bytes of other connections: the requests it takes from the client, while
every `recv` on its connection returns a whole record, are the first records of the client, and each
is a registration, a login, or a request of the user who has logged in last. -/
theorem requests_of_client (sql : Sqlite DB) (srv : Server DB) (stream : ℕ → Bytes) (stdin : Bytes)
    (num : ℤ) (pmsg : Msg) (as : List ClientAction) (client : Client)
    (hclient : clientMachine.run (.start stdin num pmsg) as = some client) (c : ℕ)
    (hstream : stream c = client.written.flatMap Msg.toBytes) (bs : List StreamAction)
    (t : StreamState DB) (h : (streamMachine sql stream).run (.start srv) bs = some t)
    (hwhole : ∀ a ∈ bs, a.Whole c) :
    t.server.requests c <+: client.written ∧ OneUser (t.server.requests c) := by
  have hbegins := requests_prefix_written hclient hstream h hwhole
  refine ⟨hbegins, ?_⟩
  obtain ⟨rest, hrest⟩ := hbegins
  have hone : OneUser client.written := (bound_run hclient).written
  rw [← hrest] at hone
  exact hone.of_append

/-- The server takes the login of `r` as it was written. -/
theorem loginOfR_taken :
    ∃ c t, clientMachine.run (.start (text "1 r 4") 0 .zero) loginActions = some c ∧
      (streamMachine .silent (fun _ => c.written.flatMap Msg.toBytes)).run
        (.start (Server.start ())) [.accept, .recv 0 1168 (.zero 20)] = some t ∧
      t.server.requests 0 <+: c.written ∧ OneUser (t.server.requests 0) := by
  obtain ⟨c, hrun, hwritten⟩ := loginActions_run
  have hserver : ((streamMachine .silent (fun _ => c.written.flatMap Msg.toBytes)).run
      (.start (Server.start ())) [.accept, .recv 0 1168 (.zero 20)]).isSome = true := by
    rw [hwritten]
    decide +kernel
  obtain ⟨t, ht⟩ := Option.isSome_iff_exists.mp hserver
  exact ⟨c, t, hrun, ht, requests_of_client .silent _ _ _ _ _ _ c hrun 0 rfl _ t ht (by decide)⟩

end LinuxCat.ClientModel
