import LinuxCat.FileBlocks
import Mathlib.Data.Int.ConditionallyCompleteOrder
import Mathlib.Data.Nat.SuccPred
import Mathlib.Order.CompletePartialOrder
import Mathlib.Order.SuccPred.IntervalSucc
import Mathlib.Order.Interval.Set.Union

/-! # The blocks of a file and the slots of their threads

`send_file` with what it leaves to the language checked: each `int` it computes must fit one, and
`pid` is indexed only where it has a slot. -/
namespace LinuxCat.FileBlocks
open ByteLayouts Messages

/-- The value of an `int` expression; none where it overflows. -/
def intValue (x : ℤ) : Option ℤ := if IsInt x then some x else none

/-- `pmsg->count` and `last_bs`. -/
def countInt (filesize : ℤ) : Option (ℤ × ℤ) := do
  let count ← intValue (filesize.tdiv BLOCKSIZE)
  if filesize.tmod BLOCKSIZE = 0 then some (count, 0)
  else
    let next ← intValue (count + 1)
    let whole ← intValue (BLOCKSIZE * count)
    let lastBs ← intValue (filesize - whole)
    some (next, lastBs)

/-- The head of `send_file`: the record it asks with, and `last_bs`. -/
def fileRequestInt (pmsg : Msg) (size : ℤ) : Option (Msg × ℤ) := do
  let filesize ← intValue size
  let r ← countInt filesize
  some ({ pmsg with action := 3, filesize := filesize, count := r.1, bs := BLOCKSIZE }, r.2)

def newFbHeadInt (pmsg : Msg) : Option (Msg × Msg) := do
  let offset ← intValue (pmsg.offset + BLOCKSIZE)
  some (blockHead pmsg BLOCKSIZE, { pmsg with offset := offset })

/-- The threads a call has started, by their headers, and its array `pid`, in which a slot holds
the number of its thread. -/
structure SlotThreads where
  heads : List Msg
  pid : List (Option ℕ)
  deriving DecidableEq, Repr

/-- `pthread_t pid[pmsg->count]`, cleared. -/
def SlotThreads.declare (count : ℤ) : Option SlotThreads :=
  if 0 ≤ count then some ⟨[], List.replicate count.toNat none⟩ else none

/-- `pthread_create(&pid[i_count], …)`; none where `pid` has no such slot. -/
def SlotThreads.create (t : SlotThreads) (iCount : ℤ) (head : Msg) : Option SlotThreads :=
  if 0 ≤ iCount ∧ iCount < t.pid.length then
    some ⟨t.heads ++ [head], t.pid.set iCount.toNat (some t.heads.length)⟩
  else none

/-- `for(; i_count < pmsg->count - less; i_count++)` with a full block in each round; none also
when the fuel ends before the loop. -/
def createLoop (less : ℤ) : ℕ → ℤ → Msg → SlotThreads → Option (ℤ × Msg × SlotThreads)
  | 0, _, _, _ => none
  | fuel + 1, iCount, pmsg, t => do
    let bound ← intValue (pmsg.count - less)
    if iCount < bound then
      let head ← newFbHeadInt pmsg
      let t ← t.create iCount head.1
      let iCount ← intValue (iCount + 1)
      createLoop less fuel iCount head.2 t
    else some (iCount, pmsg, t)

/-- The loop of `pthread_join`, with the threads it waits for; none where a slot is outside `pid`
or was not filled. -/
def joinLoop (count : ℤ) (pid : List (Option ℕ)) : ℕ → ℤ → Option (List ℕ)
  | 0, _ => none
  | fuel + 1, iCount =>
    if iCount < count then do
      let id ← if 0 ≤ iCount then (pid[iCount.toNat]?).join else none
      let iCount ← intValue (iCount + 1)
      let ids ← joinLoop count pid fuel iCount
      some (id :: ids)
    else some []

/-- The threads of the call: one for each full block, and one for the rest if there is one. -/
def createThreads (fuel : ℕ) (pmsg : Msg) (lastBs : ℤ) : Option SlotThreads := do
  let t ← SlotThreads.declare pmsg.count
  if lastBs = 0 then
    let r ← createLoop 0 fuel 0 pmsg t
    some r.2.2
  else
    let r ← createLoop 1 fuel 0 pmsg t
    r.2.2.create r.1 (blockHead r.2.1 lastBs)

/-- What a call has done when it returns. -/
structure SentFile where
  request : Msg
  threads : SlotThreads
  joined : List ℕ
  deriving DecidableEq, Repr

/-- What follows the reply. -/
def sendBlocks (fuel : ℕ) (pmsg : Msg) (lastBs : ℤ) : Option (SlotThreads × List ℕ) := do
  let t ← createThreads fuel { pmsg with offset := 0 } lastBs
  let joined ← joinLoop pmsg.count t.pid fuel 0
  some (t, joined)

/-- `send_file` on a file of `size` bytes, answered with `sfileId`. -/
def sendFileInt (fuel : ℕ) (pmsg : Msg) (size sfileId : ℤ) : Option SentFile := do
  let r ← fileRequestInt pmsg size
  let sent ← sendBlocks fuel { r.1 with sfileId := sfileId } r.2
  some ⟨r.1, sent.1, sent.2⟩

theorem intValue_eq {x : ℤ} (h0 : 0 ≤ x) (h1 : x ≤ 2147483647) : intValue x = some x := by
  have hint : IsInt x := by
    norm_num [IsInt]
    omega
  rw [intValue, if_pos hint]

theorem intValue_bind {α : Type} {x : ℤ} (h0 : 0 ≤ x) (h1 : x ≤ 2147483647) (f : ℤ → Option α) :
    (intValue x >>= f) = f x := by
  rw [intValue_eq h0 h1, Option.bind_eq_bind, Option.bind_some]

theorem newFbHeadInt_eq {pmsg : Msg} (h0 : 0 ≤ pmsg.offset)
    (h1 : pmsg.offset + BLOCKSIZE ≤ 2147483647) : newFbHeadInt pmsg = some (newFbHead pmsg) := by
  rw [newFbHeadInt, intValue_bind (by simp only [BLOCKSIZE]; omega) h1]
  rfl

theorem countInt_eq {n : ℕ} (hn : n ≤ 2147483647) :
    countInt n = some ((blockCount n : ℤ), lastBs n) := by
  rw [countInt, tdiv_blocksize, intValue_bind (by omega) (by omega), lastBs_eq, tmod_blocksize]
  split_ifs with hmod
  · rw [show n / 500 = blockCount n by simp only [blockCount]; omega, hmod]
  · rw [intValue_bind (by omega) (by omega)]
    rw [intValue_bind (by simp only [BLOCKSIZE]; omega) (by simp only [BLOCKSIZE]; omega)]
    rw [intValue_bind (by simp only [BLOCKSIZE]; omega) (by simp only [BLOCKSIZE]; omega)]
    congr 2
    · simp only [blockCount]
      omega
    · simp only [BLOCKSIZE]
      omega

theorem fileRequestInt_eq (pmsg : Msg) {n : ℕ} (hn : n ≤ 2147483647) :
    fileRequestInt pmsg n = some (fileRequest pmsg n, lastBs n) := by
  rw [fileRequestInt, intValue_bind (by omega) (by omega), countInt_eq hn,
    ← fileRequest_count pmsg n]
  rfl

/-- A thread for each header, and `m` slots left. -/
def SlotThreads.started (heads : List Msg) (m : ℕ) : SlotThreads :=
  ⟨heads, (List.range heads.length).map some ++ List.replicate m none⟩

theorem SlotThreads.declare_count (m : ℕ) : SlotThreads.declare m = some (started [] m) := by
  simp [SlotThreads.declare, started]

/-- The slot of the next thread is the first that is left. -/
theorem SlotThreads.create_started (heads : List Msg) (m : ℕ) (head : Msg) :
    (started heads (m + 1)).create heads.length head = some (started (heads ++ [head]) m) := by
  have hslot : (heads.length : ℤ) < (started heads (m + 1)).pid.length := by
    simp only [started, List.length_append, List.length_map, List.length_range,
      List.length_replicate]
    omega
  rw [SlotThreads.create, if_pos ⟨by omega, hslot⟩]
  simp [started, List.range_succ, List.replicate_succ]

/-- Each round takes the next slot, as long as `offset` stays an `int`. -/
theorem createLoop_eq {less : ℤ} (rounds m fuel : ℕ) (heads : List Msg) (pmsg : Msg)
    (hfuel : rounds < fuel) (hcount : pmsg.count - less = (heads.length + rounds : ℕ))
    (hint : heads.length + rounds ≤ 2147483647) (hoffset : 0 ≤ pmsg.offset)
    (hend : pmsg.offset + BLOCKSIZE * rounds ≤ 2147483647) :
    createLoop less fuel heads.length pmsg (.started heads (rounds + m)) =
      some (((heads.length + rounds : ℕ) : ℤ), (newFbHeads rounds pmsg).2,
        SlotThreads.started (heads ++ (newFbHeads rounds pmsg).1) m) := by
  induction rounds generalizing fuel heads pmsg with
  | zero =>
    obtain ⟨fuel, rfl⟩ := Nat.exists_eq_add_of_lt hfuel
    rw [createLoop, hcount, intValue_bind (by omega) (by omega), if_neg (by simp)]
    simp [newFbHeads]
  | succ rounds ih =>
    obtain ⟨fuel, rfl⟩ := Nat.exists_eq_add_of_lt hfuel
    simp only [BLOCKSIZE, Nat.cast_add, Nat.cast_one] at hend
    have hround := ih (rounds + 1 + fuel) (heads ++ [blockHead pmsg BLOCKSIZE])
      (newFbHead pmsg).2 (by omega)
      (by simp only [newFbHead, List.length_append, List.length_singleton, hcount]; congr 1; omega)
      (by simp only [List.length_append, List.length_singleton]; omega)
      (by simp only [newFbHead, BLOCKSIZE]; omega) (by simp only [newFbHead, BLOCKSIZE]; omega)
    rw [createLoop, hcount, intValue_bind (by omega) (by omega), if_pos (by omega),
      newFbHeadInt_eq hoffset (by simp only [BLOCKSIZE]; omega), Option.bind_eq_bind,
      Option.bind_some, show rounds + 1 + m = rounds + m + 1 by omega,
      SlotThreads.create_started, Option.bind_eq_bind, Option.bind_some,
      intValue_bind (by omega) (by omega)]
    rw [List.length_append, List.length_singleton, Nat.cast_add, Nat.cast_one] at hround
    rw [show (newFbHead pmsg).1 = blockHead pmsg BLOCKSIZE from rfl, hround,
      show heads.length + 1 + rounds = heads.length + (rounds + 1) by omega,
      List.append_assoc, List.singleton_append]
    rfl

/-- A cleared array of `rounds + m` slots, filled from its beginning. -/
theorem createLoop_declare (less : ℤ) (rounds m : ℕ) {fuel : ℕ} {pmsg : Msg} (hfuel : rounds < fuel)
    (hcount : pmsg.count - less = rounds) (hoffset : pmsg.offset = 0)
    (hend : BLOCKSIZE * rounds ≤ 2147483647) :
    createLoop less fuel 0 pmsg (.started [] (rounds + m)) =
      some ((rounds : ℤ), (newFbHeads rounds pmsg).2,
        SlotThreads.started (newFbHeads rounds pmsg).1 m) := by
  have hloop := createLoop_eq rounds m fuel [] pmsg hfuel (by simpa using hcount)
    (by simp only [BLOCKSIZE] at hend; simp only [List.length_nil]; omega) (by omega) (by omega)
  simpa using hloop

/-- The threads are those of the headers, and `pid` is full. -/
theorem createThreads_eq {fuel n : ℕ} {pmsg : Msg} (hn : n ≤ 2147483647)
    (hfuel : blockCount n < fuel) (hfile : pmsg.filesize = n) (hcount : pmsg.count = blockCount n)
    (hoffset : pmsg.offset = 0) :
    createThreads fuel pmsg (lastBs n) = some (.started (sendFile pmsg) 0) := by
  have hself : { pmsg with offset := 0 } = pmsg := by rw [← hoffset]
  rw [createThreads, hcount, SlotThreads.declare_count, Option.bind_eq_bind, Option.bind_some,
    sendFile, hself, hfile]
  split_ifs with hlast
  · rw [lastBs_eq] at hlast
    have hloop := createLoop_declare 0 (blockCount n) 0 hfuel (by rw [hcount, sub_zero]) hoffset
      (by simp only [BLOCKSIZE, blockCount]; omega)
    rw [Nat.add_zero] at hloop
    rw [hloop, hcount]
    rfl
  · rw [lastBs_eq] at hlast
    obtain ⟨c, hc⟩ : ∃ c, blockCount n = c + 1 :=
      ⟨blockCount n - 1, by simp only [blockCount]; omega⟩
    have hlength : (newFbHeads c pmsg).1.length = c := by
      rw [newFbHeads_fst, List.length_map, List.length_range]
    have hless : pmsg.count - 1 = c := by
      rw [hcount, hc]
      push_cast
      ring
    have hrounds : c < fuel := by omega
    have hloop := createLoop_declare 1 c 1 hrounds hless hoffset
      (by simp only [blockCount] at hc; simp only [BLOCKSIZE]; omega)
    have hcreate := SlotThreads.create_started (newFbHeads c pmsg).1 0
      (blockHead (newFbHeads c pmsg).2 (lastBs n))
    rw [hlength] at hcreate
    rw [hc, hloop, Option.bind_eq_bind, Option.bind_some, hless, Int.toNat_natCast]
    exact hcreate

/-- Every slot of a full `pid` is joined. -/
theorem joinLoop_eq (k r : ℕ) {fuel : ℕ} (hfuel : r < fuel) (hint : k + r ≤ 2147483647) :
    joinLoop (k + r : ℕ) ((List.range (k + r)).map some) fuel k = some (List.range' k r) := by
  induction r generalizing fuel k with
  | zero =>
    obtain ⟨fuel, rfl⟩ := Nat.exists_eq_add_of_lt hfuel
    rw [joinLoop, if_neg (by simp)]
    rfl
  | succ r ih =>
    obtain ⟨fuel, rfl⟩ := Nat.exists_eq_add_of_lt hfuel
    have hrest := ih (k + 1) (show r < r + 1 + fuel by omega) (by omega)
    have hslot : (((List.range (k + (r + 1))).map some)[k]?).join = some k := by
      rw [List.getElem?_map, List.getElem?_range (by omega), Option.map_some, Option.join_some]
    rw [show k + 1 + r = k + (r + 1) by omega, Nat.cast_add k 1, Nat.cast_one] at hrest
    rw [joinLoop, if_pos (by omega), if_pos (by omega), Int.toNat_natCast, hslot,
      Option.bind_eq_bind, Option.bind_some]
    beta_reduce
    rw [intValue_bind (by omega) (by omega), hrest]
    rfl

/-- Nothing `send_file` computes overflows, it finds a slot for every thread, and it joins the
threads it has started. -/
theorem sendBlocks_eq {fuel n : ℕ} {pmsg : Msg} (hn : n ≤ 2147483647)
    (hfuel : blockCount n < fuel) (hfile : pmsg.filesize = n) (hcount : pmsg.count = blockCount n)
    (hlength : (sendFile pmsg).length = blockCount n) :
    sendBlocks fuel pmsg (lastBs n) =
      some (.started (sendFile pmsg) 0, List.range (blockCount n)) := by
  have hthreads : createThreads fuel { pmsg with offset := 0 } (lastBs n) =
      some (.started (sendFile pmsg) 0) := createThreads_eq hn hfuel hfile hcount rfl
  have hpid : (SlotThreads.started (sendFile pmsg) 0).pid = (List.range (blockCount n)).map some := by
    rw [SlotThreads.started, hlength, List.replicate_zero, List.append_nil]
  have hjoin := joinLoop_eq 0 (blockCount n) hfuel (by simp only [blockCount]; omega)
  rw [Nat.zero_add, ← List.range_eq_range', Nat.cast_zero] at hjoin
  rw [sendBlocks, hthreads, Option.bind_eq_bind, Option.bind_some, hcount, hpid, hjoin]
  rfl

/-- The bytes of the file a header stands for. -/
def span (head : Msg) : Set ℤ := Set.Ico head.offset (head.offset + head.bs)

/-- Where block `j` begins, the end of the file for all behind it. -/
def cut (n j : ℕ) : ℤ := min (500 * j : ℕ) n

theorem cut_monotone (n : ℕ) : Monotone (cut n) := by
  intro i j hij
  simp only [cut]
  omega

theorem span_head (pmsg : Msg) {n j : ℕ} (hj : j < blockCount n) :
    span (head pmsg n j) = Set.Ico (cut n j) (cut n (j + 1)) := by
  simp only [blockCount] at hj
  simp only [span, head, blockHead, blockLength, cut]
  congr 1 <;> omega

theorem cut_zero (n : ℕ) : cut n 0 = 0 := by simp [cut]

theorem cut_blockCount (n : ℕ) : cut n (blockCount n) = n := by
  simp only [cut, blockCount]
  omega

theorem cut_mem (n j : ℕ) : 0 ≤ cut n j ∧ cut n j ≤ n := by
  simp only [cut]
  omega

theorem span_head_subset (pmsg : Msg) {n j : ℕ} (hj : j < blockCount n) :
    span (head pmsg n j) ⊆ Set.Ico 0 n := by
  rw [span_head pmsg hj]
  exact Set.Ico_subset_Ico (cut_mem n j).1 (cut_mem n (j + 1)).2

theorem disjoint_span_head (pmsg : Msg) {n i j : ℕ} (hi : i < blockCount n) (hj : j < blockCount n)
    (hij : i ≠ j) : Disjoint (span (head pmsg n i)) (span (head pmsg n j)) := by
  have hcut := (cut_monotone n).pairwise_disjoint_on_Ico_succ hij
  rw [span_head pmsg hi, span_head pmsg hj]
  simpa only [Function.onFun, Order.succ_eq_add_one] using hcut

theorem pairwise_span (pmsg : Msg) (n : ℕ) :
    ((List.range (blockCount n)).map (head pmsg n)).Pairwise
      (fun head head' => Disjoint (span head) (span head')) := by
  rw [List.pairwise_map]
  refine List.Pairwise.imp_of_mem ?_ List.pairwise_lt_range
  intro i j hi hj hij
  exact disjoint_span_head pmsg (List.mem_range.mp hi) (List.mem_range.mp hj) hij.ne

theorem iUnion_span (pmsg : Msg) (n : ℕ) :
    (⋃ h ∈ (List.range (blockCount n)).map (head pmsg n), span h) = Set.Ico 0 (n : ℤ) := by
  apply Set.Subset.antisymm
  · refine Set.iUnion₂_subset fun h hmem => ?_
    obtain ⟨j, hj, rfl⟩ := List.mem_map.mp hmem
    exact span_head_subset pmsg (List.mem_range.mp hj)
  · intro x hx
    rw [← cut_zero n, ← cut_blockCount n] at hx
    obtain ⟨j, hj, hxj⟩ := Set.mem_iUnion₂.mp (Ico_subset_biUnion_Ico _ _ hx)
    have hj := Finset.mem_range.mp hj
    refine Set.mem_iUnion₂.mpr ⟨_, List.mem_map_of_mem (List.mem_range.mpr hj), ?_⟩
    rwa [span_head pmsg hj]

theorem blockLength_bounds {n j : ℕ} (hj : j < blockCount n) :
    1 ≤ blockLength n j ∧ blockLength n j ≤ 500 := by
  simp only [blockCount] at hj
  simp only [blockLength]
  omega

/-- The call returns, with every `int` in its range and every index inside `pid`; its headers
number `count`, divide the bytes that the record gives as the file's into blocks of at most
`BLOCKSIZE`, and each of its threads, no other, is in a slot that is joined. -/
theorem blocks_partition_file (pmsg : Msg) (size sfileId : ℤ) (h0 : 0 ≤ size)
    (h1 : size ≤ 2 ^ 31 - 1) :
    ∃ sent : SentFile,
      (∀ fuel : ℕ, sent.request.count < fuel → sendFileInt fuel pmsg size sfileId = some sent) ∧
      sent.request = fileRequest pmsg size ∧
      sent.threads.heads = sendFile { sent.request with sfileId := sfileId } ∧
      (sent.threads.heads.length : ℤ) = sent.request.count ∧
      (∀ head ∈ sent.threads.heads, 1 ≤ head.bs ∧ head.bs ≤ BLOCKSIZE ∧
        span head ⊆ Set.Ico 0 sent.request.filesize) ∧
      sent.threads.heads.Pairwise (fun head head' => Disjoint (span head) (span head')) ∧
      (⋃ head ∈ sent.threads.heads, span head) = Set.Ico 0 sent.request.filesize ∧
      sent.threads.pid = (List.range sent.threads.heads.length).map some ∧
      sent.joined = List.range sent.threads.heads.length := by
  obtain ⟨n, rfl⟩ := Int.eq_ofNat_of_zero_le h0
  have hn : n ≤ 2147483647 := by
    norm_num at h1
    omega
  have hcount := fileRequest_count pmsg n
  have hheads : sendFile { fileRequest pmsg n with sfileId := sfileId } =
      (List.range (blockCount n)).map (head { fileRequest pmsg n with sfileId := sfileId } n) :=
    sendFile_eq { pmsg with sfileId := sfileId } n
  have hlength : (sendFile { fileRequest pmsg n with sfileId := sfileId }).length = blockCount n := by
    rw [hheads, List.length_map, List.length_range]
  refine ⟨⟨fileRequest pmsg n, .started (sendFile { fileRequest pmsg n with sfileId := sfileId }) 0,
    List.range (blockCount n)⟩, fun fuel hfuel => ?_, rfl, rfl, ?_, ?_, ?_, ?_, ?_, ?_⟩
  · have hfuel : blockCount n < fuel := by
      rw [hcount] at hfuel
      exact_mod_cast hfuel
    have hblocks : sendBlocks fuel { fileRequest pmsg n with sfileId := sfileId } (lastBs n) = _ :=
      sendBlocks_eq hn hfuel rfl hcount hlength
    rw [sendFileInt, fileRequestInt_eq pmsg hn, Option.bind_eq_bind, Option.bind_some,
      hblocks, Option.bind_eq_bind, Option.bind_some]
  · exact (congrArg Nat.cast hlength).trans hcount.symm
  · simp only [SlotThreads.started, hheads]
    intro h hmem
    obtain ⟨j, hj, rfl⟩ := List.mem_map.mp hmem
    have hj := List.mem_range.mp hj
    have hbounds := blockLength_bounds hj
    refine ⟨?_, ?_, span_head_subset _ hj⟩
    · simp only [head, blockHead]
      omega
    · simp only [head, blockHead, BLOCKSIZE]
      omega
  · simp only [SlotThreads.started, hheads]
    exact pairwise_span _ n
  · simp only [SlotThreads.started, hheads]
    exact iUnion_span _ n
  · simp only [SlotThreads.started, List.replicate_zero, List.append_nil]
  · exact congrArg List.range hlength.symm

/-- A file of 1001 bytes: two full blocks and one of a byte. -/
theorem blocks_partition_file_rest :
    ∃ sent : SentFile, (sent.threads.heads.length : ℤ) = sent.request.count ∧
      sent.request.count = 3 ∧
      (⋃ head ∈ sent.threads.heads, span head) = Set.Ico 0 1001 := by
  obtain ⟨sent, -, hrequest, -, hcount, -, -, hunion, -⟩ :=
    blocks_partition_file .zero 1001 0 (by decide) (by decide)
  rw [hrequest] at hcount hunion
  refine ⟨sent, by rw [hrequest]; exact hcount, ?_, hunion⟩
  rw [hrequest]
  rfl

end LinuxCat.FileBlocks
