import LinuxCat.Messages

/-! # The sender of a file

`send_file` of the client cuts a file into blocks of `BLOCKSIZE` bytes and a shorter last one;
`send_filedata` writes a block on a connection of its own, its header first. -/
namespace LinuxCat.FileBlocks
open ByteLayouts Messages

def SEND_SIZE : ℕ := 100

def BLOCKSIZE : ℤ := 500

/-- The record `send_file` asks the server for a transfer with. -/
def fileRequest (pmsg : Msg) (size : ℤ) : Msg :=
  let count := size.tdiv BLOCKSIZE
  { pmsg with
    action := 3
    filesize := size
    count := if size.tmod BLOCKSIZE = 0 then count else count + 1
    bs := BLOCKSIZE }

def lastBs (size : ℤ) : ℤ :=
  if size.tmod BLOCKSIZE = 0 then 0 else size - BLOCKSIZE * size.tdiv BLOCKSIZE

/-- What both kinds of header copy. -/
def blockHead (pmsg : Msg) (bs : ℤ) : Msg :=
  { Msg.zero with
    filename := (CharArray.zero 20).strcpy pmsg.filename.str
    name := (CharArray.zero 20).strcpy pmsg.name.str
    toname := (CharArray.zero 20).strcpy pmsg.toname.str
    sfileId := pmsg.sfileId
    offset := pmsg.offset
    bs := bs }

/-- The header, and the request with its offset moved on. -/
def newFbHead (pmsg : Msg) : Msg × Msg :=
  (blockHead pmsg BLOCKSIZE, { pmsg with offset := pmsg.offset + BLOCKSIZE })

/-- The loop of `send_file` over the full blocks. -/
def newFbHeads : ℕ → Msg → List Msg × Msg
  | 0, pmsg => ([], pmsg)
  | n + 1, pmsg =>
    let r := newFbHead pmsg
    let rs := newFbHeads n r.2
    (r.1 :: rs.1, rs.2)

/-- The headers `send_file` starts its threads with, once the reply has given `sfileId`. -/
def sendFile (pmsg : Msg) : List Msg :=
  let pmsg := { pmsg with offset := 0 }
  if lastBs pmsg.filesize = 0 then (newFbHeads pmsg.count.toNat pmsg).1
  else
    let r := newFbHeads (pmsg.count - 1).toNat pmsg
    r.1 ++ [blockHead r.2 (lastBs pmsg.filesize)]

/-- The writes of `send_filedata` from `fp` on, `num` full ones and the rest. -/
def sendLoop : ℕ → Bytes → ℤ → List Bytes
  | 0, fp, bs => [fp.take bs.toNat]
  | num + 1, fp, bs => fp.take SEND_SIZE :: sendLoop num (fp.drop SEND_SIZE) (bs - SEND_SIZE)

/-- The writes of one block's thread on its connection. -/
def sendFiledata (mbegin : Bytes) (omsg : Msg) : List Bytes :=
  let omsg := { omsg with action := 5 }
  omsg.toBytes :: sendLoop (omsg.bs.tdiv SEND_SIZE).toNat (mbegin.drop omsg.offset.toNat) omsg.bs

/-- Who opened a connection: a user for its session, the thread of block `j`, or the thread the
receiver started for the `i`-th block it was told of. -/
inductive Peer
  | session
  | sender (j : ℕ)
  | receiver (i : ℕ) (m : Msg)
  deriving DecidableEq, Repr

/-- The record with which a connection begins. The sessions have sent theirs. -/
def Peer.record (heads : List Msg) : Peer → Option Msg
  | .session => none
  | .sender j => (heads[j]?).map (fun m => { m with action := 5 })
  | .receiver _ m => some { m with action := -5 }

theorem sendLoop_flatten (num : ℕ) (fp : Bytes) (bs : ℤ) (h : (num : ℤ) * SEND_SIZE ≤ bs) :
    (sendLoop num fp bs).flatten = fp.take bs.toNat := by
  induction num generalizing fp bs with
  | zero => simp [sendLoop]
  | succ num ih =>
    simp only [SEND_SIZE, Nat.cast_add, Nat.cast_one, Nat.cast_ofNat] at h
    have hbs : bs.toNat = SEND_SIZE + (bs - SEND_SIZE).toNat := by
      simp only [SEND_SIZE]
      omega
    simp only [sendLoop, List.flatten_cons]
    rw [ih _ _ (by simp only [SEND_SIZE, Nat.cast_ofNat]; omega), hbs, List.take_add]

/-- A block's thread writes its header and then the bytes of the block. -/
theorem sendFiledata_flatten (mbegin : Bytes) (omsg : Msg) (h : 0 ≤ omsg.bs) :
    (sendFiledata mbegin omsg).flatten =
      { omsg with action := 5 }.toBytes ++ (mbegin.drop omsg.offset.toNat).take omsg.bs.toNat := by
  simp only [sendFiledata, List.flatten_cons]
  rw [sendLoop_flatten]
  rw [Int.tdiv_eq_ediv_of_nonneg h, Int.toNat_of_nonneg (Int.ediv_nonneg h (by simp))]
  exact Int.ediv_mul_le omsg.bs (by simp [SEND_SIZE])

theorem newFbHeads_snd (n : ℕ) (pmsg : Msg) :
    (newFbHeads n pmsg).2 = { pmsg with offset := pmsg.offset + BLOCKSIZE * n } := by
  induction n generalizing pmsg with
  | zero => simp [newFbHeads]
  | succ n ih =>
    simp only [newFbHeads, ih, newFbHead, Nat.cast_add, Nat.cast_one]
    congr 1
    ring

theorem newFbHeads_fst (n : ℕ) (pmsg : Msg) :
    (newFbHeads n pmsg).1 = (List.range n).map (fun j : ℕ =>
      blockHead { pmsg with offset := pmsg.offset + BLOCKSIZE * j } BLOCKSIZE) := by
  induction n generalizing pmsg with
  | zero => rfl
  | succ n ih =>
    simp only [newFbHeads, ih, newFbHead, List.range_succ_eq_map, List.map_cons, List.map_map,
      Nat.cast_zero, mul_zero, add_zero, List.cons.injEq, true_and]
    refine List.map_congr_left fun j _ => ?_
    simp only [Function.comp_apply, Nat.succ_eq_add_one, Nat.cast_add, Nat.cast_one]
    congr 2
    ring

/-- How many blocks a file of `n` bytes has. -/
def blockCount (n : ℕ) : ℕ := (n + 499) / 500

/-- How many bytes the `j`-th of them has. -/
def blockLength (n j : ℕ) : ℕ := min 500 (n - 500 * j)

/-- The header of the `j`-th block. -/
def head (pmsg : Msg) (n j : ℕ) : Msg :=
  blockHead { pmsg with offset := 500 * j } (blockLength n j)

theorem tdiv_blocksize (n : ℕ) : (n : ℤ).tdiv BLOCKSIZE = (n / 500 : ℕ) := by
  simp [BLOCKSIZE, Int.tdiv_eq_ediv_of_nonneg]

theorem tmod_blocksize (n : ℕ) : (n : ℤ).tmod BLOCKSIZE = (n % 500 : ℕ) := by
  simp [BLOCKSIZE, Int.tmod_eq_emod_of_nonneg]

theorem fileRequest_count (pmsg : Msg) (n : ℕ) : (fileRequest pmsg n).count = blockCount n := by
  simp only [fileRequest, tdiv_blocksize, tmod_blocksize, blockCount]
  split_ifs <;> omega

theorem lastBs_eq (n : ℕ) : lastBs n = (n % 500 : ℕ) := by
  rw [lastBs, tmod_blocksize, tdiv_blocksize]
  simp only [BLOCKSIZE]
  split_ifs <;> omega

/-- The blocks lie side by side from the first byte of the file to its last. -/
theorem sendFile_eq (pmsg : Msg) (n : ℕ) :
    sendFile (fileRequest pmsg n) =
      (List.range (blockCount n)).map (head (fileRequest pmsg n) n) := by
  have hfull : ∀ j, 500 * (j + 1) ≤ n → (blockLength n j : ℤ) = BLOCKSIZE := by
    intro j hj
    simp only [blockLength, BLOCKSIZE]
    omega
  have hcount := fileRequest_count pmsg n
  have hlast : lastBs (fileRequest pmsg n).filesize = (n % 500 : ℕ) := lastBs_eq n
  simp only [sendFile, hlast]
  split_ifs with hz
  · rw [newFbHeads_fst, hcount, Int.toNat_natCast]
    refine List.map_congr_left fun j hj => ?_
    have hj := List.mem_range.mp hj
    rw [head, hfull j (by simp only [blockCount] at hj; omega)]
    simp [BLOCKSIZE, blockHead]
  · obtain ⟨c, hc⟩ : ∃ c, blockCount n = c + 1 :=
      ⟨blockCount n - 1, by simp only [blockCount]; omega⟩
    rw [newFbHeads_fst, newFbHeads_snd, hcount, hc, List.range_succ, List.map_append]
    simp only [Nat.cast_add, Nat.cast_one, add_sub_cancel_right, Int.toNat_natCast, zero_add]
    congr 1
    · refine List.map_congr_left fun j hj => ?_
      have hj := List.mem_range.mp hj
      rw [head, hfull j (by simp only [blockCount] at hc; omega)]
      simp [BLOCKSIZE, blockHead]
    · have hlen : blockLength n c = n % 500 := by
        simp only [blockCount] at hc
        simp only [blockLength]
        omega
      simp [head, hlen, BLOCKSIZE, blockHead]

end LinuxCat.FileBlocks
