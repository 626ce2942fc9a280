import LinuxCat.FileAnswers

/-! # The mapping a block is read from

A thread looks at `mbegin` once, behind its header. A call replaces `mbegin` without looking at
the threads of earlier calls; the joins at its end wait only for threads that have not detached
themselves. -/
namespace LinuxCat.SenderModel
open LabelledMachines LabelledMachines.Machine ByteLayouts Messages FileBlocks ServerModel

variable {DB : Type} {sockfd : ℤ}

/-- The thread has still to evaluate `mbegin + omsg->offset`. -/
def BlockPc.unread : BlockPc → Bool
  | .created | .detached | .headed => true
  | _ => false

/-- The thread writes its header and the bytes of the block from this mapping. -/
def Block.SendsFrom (b : Block) (map : Mapping) : Prop :=
  b.written ++ b.rest = FileBlocks.sendFiledata map.content b.header

/-- What holds of a thread whatever mapping it has found. -/
structure Block.Formed (maps : List Mapping) (b : Block) : Prop where
  named : ∃ map, maps[b.call]? = some map ∧ map.filename = b.header.filename.str
  unread : b.base = none ↔ b.pc.unread = true
  headed : b.pc = .headed → b.written = [{ b.header with action := 5 }.toBytes]
  sends : ∀ (n : ℕ), b.base = some n → ∃ map, maps[n]? = some map ∧ b.SendsFrom map

theorem Block.Formed.append {maps : List Mapping} {b : Block} (h : b.Formed maps) (map : Mapping) :
    b.Formed (maps ++ [map]) := by
  have hgrow {n : ℕ} {map' : Mapping} (hn : maps[n]? = some map') :
      (maps ++ [map])[n]? = some map' :=
    (List.getElem?_append_left (List.getElem?_eq_some_iff.mp hn).1).trans hn
  refine ⟨?_, h.unread, h.headed, fun n hn => ?_⟩
  · obtain ⟨map', hmap, hname⟩ := h.named
    exact ⟨map', hgrow hmap, hname⟩
  · obtain ⟨map', hmap, hsends⟩ := h.sends n hn
    exact ⟨map', hgrow hmap, hsends⟩

/-- A step of a thread; the one that reads `mbegin` gives it its base. -/
theorem sendFiledata_formed {s : Sender} {b b' : Block} (h : b.Formed s.maps)
    (hstep : sendFiledata s b = some b') :
    b'.Formed s.maps ∧ (b'.base = b.base ∨ b.base = none ∧ b'.base = s.mbegin) := by
  obtain ⟨hcall, hheader⟩ := sendFiledata_kept hstep
  have hnamed : ∃ map, s.maps[b'.call]? = some map ∧ map.filename = b'.header.filename.str := by
    rw [hcall, hheader]
    exact h.named
  unfold sendFiledata at hstep
  split at hstep
  next hpc =>
    cases hstep
    exact ⟨⟨hnamed, h.unread.trans (by simp [hpc, BlockPc.unread]), by simp, h.sends⟩, .inl rfl⟩
  next hpc =>
    cases hstep
    refine ⟨⟨hnamed, h.unread.trans (by simp [hpc, BlockPc.unread]), fun _ => rfl, ?_⟩, .inl rfl⟩
    intro n hn
    have hnone := h.unread.mpr (by rw [hpc]; rfl)
    exact absurd (hn.symm.trans hnone) (by simp)
  next hpc =>
    obtain ⟨map, hmap, rfl⟩ := Option.map_eq_some_iff.mp hstep
    obtain ⟨n, hn, hmap⟩ := Option.bind_eq_some_iff.mp hmap
    refine ⟨⟨hnamed, by simp [hn, BlockPc.unread], by simp, fun n' hn' => ?_⟩,
      .inr ⟨h.unread.mpr (by rw [hpc]; rfl), rfl⟩⟩
    obtain rfl : n = n' := Option.some.inj (hn.symm.trans hn')
    refine ⟨map, hmap, ?_⟩
    simp only [Block.SendsFrom, h.headed hpc]
    rfl
  next hpc =>
    split at hstep
    next hrest =>
      cases hstep
      exact ⟨⟨hnamed, h.unread.trans (by simp [hpc, BlockPc.unread]), by simp, h.sends⟩, .inl rfl⟩
    next bs rest hrest =>
      cases hstep
      refine ⟨⟨hnamed, h.unread, by simp [hpc], fun n hn => ?_⟩, .inl rfl⟩
      obtain ⟨map, hmap, hsends⟩ := h.sends n hn
      refine ⟨map, hmap, ?_⟩
      simp only [Block.SendsFrom, hrest] at hsends ⊢
      simpa using hsends
  next => cases hstep

/-- The mappings, and the threads that were created for them. -/
structure Blocks (s : Sender) : Prop where
  mbegin : ∀ n, n + 1 = s.maps.length → s.mbegin = some n
  formed : ∀ b ∈ s.threads, b.Formed s.maps
  heads : ∀ c heads pids, s.caller = .creating c heads pids →
    ∀ head ∈ heads, ∃ map, s.maps[c.number]? = some map ∧ map.filename = head.filename.str

theorem blocks_start : Blocks Sender.start :=
  ⟨by simp [Sender.start], by simp [Sender.start], by simp [Sender.start]⟩

/-- The steps that touch neither the mappings nor the threads. -/
theorem Blocks.frame {s t : Sender} (h : Blocks s) (hmbegin : t.mbegin = s.mbegin)
    (hmaps : t.maps = s.maps) (hthreads : t.threads = s.threads)
    (hcaller : t.caller = s.caller ∨ ∀ c heads pids, t.caller ≠ .creating c heads pids) :
    Blocks t := by
  refine ⟨by rw [hmbegin, hmaps]; exact h.mbegin, by rw [hmaps, hthreads]; exact h.formed,
    fun c heads pids hc => ?_⟩
  rw [hmaps]
  rcases hcaller with hcaller | hnot
  · exact h.heads c heads pids (hcaller ▸ hc)
  · exact absurd hc (hnot c heads pids)

/-- The call that maps has the number of its mapping. -/
theorem Numbered.mapping {s : Sender} (h : Numbered s) {c : Call} (hpc : s.caller = .mapping c) :
    c.number = s.maps.length := by
  have hnumber := h.number c (by rw [hpc]; rfl)
  have hmaps := h.maps
  rw [hpc] at hmaps
  simp only [CallerPc.unmapped] at hmaps
  omega

theorem Numbered.creating {s : Sender} (h : Numbered s) {c : Call} {heads : List Msg}
    {pids : List ℕ} (hpc : s.caller = .creating c heads pids) : c.number + 1 = s.maps.length := by
  have hnumber := h.number c (by rw [hpc]; rfl)
  have hmaps := h.maps
  rw [hpc] at hmaps
  simp only [CallerPc.unmapped] at hmaps
  omega

theorem blocks_step {s t : Sender} {a : SendAction DB} (h : Numbered s) (hs : Blocks s)
    (hstep : senderStep sockfd s a = some t) : Blocks t := by
  cases senderStep_cases hstep with
  | call pmsg file hpc => exact hs.frame rfl rfl rfl (.inr (by simp))
  | lock c hpc => exact hs.frame rfl rfl rfl (.inr (by simp))
  | wait c hpc => exact hs.frame rfl rfl rfl (.inr (by simp))
  | goOn c hpc => exact hs.frame rfl rfl rfl (.inr (by simp))
  | map c hpc =>
    have hnumber := h.mapping hpc
    refine ⟨fun n hn => ?_, fun b hb => (hs.formed b hb).append _, fun c' heads pids hc' head hhead => ?_⟩
    · rw [List.length_append, List.length_singleton] at hn
      exact congrArg some (by omega)
    · cases hc'
      refine ⟨_, by rw [hnumber]; exact List.getElem?_concat_length, ?_⟩
      obtain ⟨offset, bs, rfl⟩ := eq_blockHead_of_mem_sendFile hhead
      exact (CharArray.str_strcpy _ _).symm
  | create c head heads pids hpc =>
    have hheads := hs.heads c _ pids hpc
    refine ⟨hs.mbegin, WaitQueues.forall_mem_concat hs.formed ?_,
      fun c' heads' pids' hc' head' hhead => ?_⟩
    · exact ⟨hheads head List.mem_cons_self, by simp [Block.new, BlockPc.unread],
        by simp [Block.new], by simp [Block.new]⟩
    · cases hc'
      exact hheads head' (List.mem_cons_of_mem _ hhead)
  | join caller hpc hcaller =>
    refine hs.frame rfl rfl rfl (.inr ?_)
    obtain rfl | ⟨pids, rfl⟩ | ⟨pid, pids, rfl⟩ := hcaller <;> simp
  | spurious c hpc => exact hs.frame rfl rfl rfl (.inr (by simp))
  | serve srv pmsg requests m hreq hm => exact hs.frame rfl rfl rfl (.inl rfl)
  | read m answers hpc hanswers =>
    unfold switch
    split <;> exact hs.frame rfl rfl rfl (.inl rfl)
  | signal hpc =>
    unfold signal
    split
    · exact hs.frame rfl rfl rfl (.inr (by simp))
    · exact hs.frame rfl rfl rfl (.inl rfl)
  | otherRecord m hpc hact => exact hs
  | serverExit hpc => exact hs.frame rfl rfl rfl (.inl rfl)
  | block i b b' hb hb' =>
    have hformed := (sendFiledata_formed (hs.formed b (List.mem_of_getElem? hb)) hb').1
    exact ⟨hs.mbegin, WaitQueues.forall_mem_set hs.formed hformed, hs.heads⟩

/-! ## The mapping of its own call -/

/-- Every thread that has looked at `mbegin` sends the block from the mapping of its own call,
which is that of the file its header names; and for those that have still to look, `mbegin` holds
this mapping. -/
structure OwnMapping (s : Sender) : Prop where
  found : ∀ b ∈ s.threads, ∀ n, b.base = some n → n = b.call ∧
    ∃ map, s.maps[b.call]? = some map ∧ map.filename = b.header.filename.str ∧ b.SendsFrom map
  stays : ∀ b ∈ s.threads, b.base = none → s.mbegin = some b.call

/-- When a call makes its mapping, every thread of the earlier calls has looked at `mbegin`. -/
def MapsBehindReads (s : Sender) : SendAction DB → Prop
  | .sendFile => ∀ c, s.caller = .mapping c → ∀ b ∈ s.threads, b.pc.unread = false
  | _ => True

/-- Only where `mbegin` points matters. -/
theorem ownMapping_iff {s : Sender} (h : Blocks s) : OwnMapping s ↔
    (∀ b ∈ s.threads, ∀ n, b.base = some n → n = b.call) ∧
      ∀ b ∈ s.threads, b.base = none → s.mbegin = some b.call := by
  constructor
  · intro hs
    exact ⟨fun b hb n hn => (hs.found b hb n hn).1, hs.stays⟩
  · rintro ⟨hfound, hstays⟩
    refine ⟨fun b hb n hn => ?_, hstays⟩
    have hcall := hfound b hb n hn
    obtain ⟨map, hmap, hname⟩ := (h.formed b hb).named
    obtain ⟨map', hmap', hsends⟩ := (h.formed b hb).sends n hn
    rw [hcall, hmap] at hmap'
    exact ⟨hcall, map, hmap, hname, Option.some.inj hmap' ▸ hsends⟩

theorem ownMapping_step {s t : Sender} {a : SendAction DB} (hc : Numbered s) (h : Blocks s)
    (hs : OwnMapping s) (hstep : senderStep sockfd s a = some t) :
    OwnMapping t ↔ MapsBehindReads s a := by
  have ht := blocks_step hc h hstep
  obtain ⟨hfound, hstays⟩ := (ownMapping_iff h).mp hs
  rw [ownMapping_iff ht]
  cases senderStep_cases hstep with
  | call pmsg file hpc => exact iff_of_true ⟨hfound, hstays⟩ trivial
  | lock c hpc => exact iff_of_true ⟨hfound, hstays⟩ (by simp [MapsBehindReads, hpc])
  | wait c hpc => exact iff_of_true ⟨hfound, hstays⟩ (by simp [MapsBehindReads, hpc])
  | goOn c hpc => exact iff_of_true ⟨hfound, hstays⟩ (by simp [MapsBehindReads, hpc])
  | map c hpc =>
    have hnumber := hc.mapping hpc
    constructor
    · rintro ⟨-, hstays'⟩ c' - b hb
      cases hunread : b.pc.unread with
      | false => rfl
      | true =>
        -- the new mapping is not the one of a thread that was there before
        have hcall : c.number = b.call :=
          Option.some.inj (hstays' b hb ((h.formed b hb).unread.mpr hunread))
        obtain ⟨map, hmap, -⟩ := (h.formed b hb).named
        have := (List.getElem?_eq_some_iff.mp hmap).1
        omega
    · intro hq
      refine ⟨hfound, fun b hb hnone => ?_⟩
      have := hq c hpc b hb
      rw [(h.formed b hb).unread.mp hnone] at this
      cases this
  | create c head heads pids hpc =>
    refine iff_of_true ⟨WaitQueues.forall_mem_concat hfound (by simp [Block.new]),
      WaitQueues.forall_mem_concat hstays fun _ => ?_⟩ (by simp [MapsBehindReads, hpc])
    exact h.mbegin c.number (hc.creating hpc)
  | join caller hpc hcaller =>
    refine iff_of_true ⟨hfound, hstays⟩ fun c hmap => ?_
    obtain ⟨c', pids, hpc⟩ | ⟨pids, hpc⟩ | ⟨pid, pids, hpc⟩ := hpc <;> simp [hpc] at hmap
  | spurious c hpc => exact iff_of_true ⟨hfound, hstays⟩ trivial
  | serve srv pmsg requests m hreq hm => exact iff_of_true ⟨hfound, hstays⟩ trivial
  | read m answers hpc hanswers =>
    refine iff_of_true ?_ trivial
    unfold switch
    split <;> exact ⟨hfound, hstays⟩
  | signal hpc =>
    refine iff_of_true ?_ trivial
    unfold signal
    split <;> exact ⟨hfound, hstays⟩
  | otherRecord m hpc hact => exact iff_of_true ⟨hfound, hstays⟩ trivial
  | serverExit hpc => exact iff_of_true ⟨hfound, hstays⟩ trivial
  | block i b b' hb hb' =>
    have hmem := List.mem_of_getElem? hb
    obtain ⟨hcall, -⟩ := sendFiledata_kept hb'
    obtain ⟨-, hbase⟩ := sendFiledata_formed (h.formed b hmem) hb'
    refine iff_of_true ⟨WaitQueues.forall_mem_set hfound fun n hn => ?_,
      WaitQueues.forall_mem_set hstays fun hnone => ?_⟩ trivial
    · rw [hcall]
      rcases hbase with hbase | ⟨hnone, hbase⟩
      · exact hfound b hmem n (hbase ▸ hn)
      · exact Option.some.inj (hn.symm.trans (hbase.trans (hstays b hmem hnone)))
    · rw [hcall]
      rcases hbase with hbase | ⟨hnone', hbase⟩
      · exact hstays b hmem (hbase ▸ hnone)
      · exact hstays b hmem hnone'

/-- In every run of calls, the blocks are read from the mappings of their own files exactly if no
call makes its mapping before all threads of the earlier calls have looked at theirs. -/
theorem ownMapping_iff_maps_behind_reads (sockfd : ℤ) (as : List (SendAction DB)) (t : Sender)
    (h : (senderMachine DB sockfd).run Sender.start as = some t) :
    (senderMachine DB sockfd).EachState OwnMapping Sender.start as ↔
      (senderMachine DB sockfd).EachStep MapsBehindReads Sender.start as :=
  eachState_iff_eachStep (M := senderMachine DB sockfd) (I := fun s => Counted s ∧ Blocks s)
    (fun _ _ _ hs hstep => ⟨counted_step hs.1 hstep, blocks_step hs.1.toNumbered hs.2 hstep⟩)
    (fun _ _ _ hi hs hstep => ownMapping_step hi.1.toNumbered hi.2 hs hstep)
    ⟨counted_start, blocks_start⟩ ⟨by simp [Sender.start], by simp [Sender.start]⟩ h

/-- A call up to the creation of the thread for its only block. -/
def callOneBlock (file : Bytes) (srv : Server Unit) : List (SendAction Unit) :=
  [.call (requestFor [98]) file, .sendFile, .sendFile, .serve srv, .threadRead, .threadRead,
    .sendFile, .sendFile, .sendFile]

/-- The thread of the first file detaches itself and is not joined; the second file is mapped
before it goes on. -/
def lateBlock : List (SendAction Unit) :=
  callOneBlock [7] serverOfB ++ [.block 0, .sendFile, .sendFile, .sendFile] ++
    callOneBlock [8] { serverOfB with addr := serverOfB.addr.set 0 1 } ++
    [.block 0, .block 0, .block 0]

/-- The block of the first file is sent with the byte of the second. -/
theorem lateBlock_sends_other :
    ∃ t, (senderMachine Unit 0).run Sender.start lateBlock = some t ∧
      t.maps.map Mapping.content = [[7], [8]] ∧
      t.threads.map Block.call = [0, 1] ∧
      (t.threads[0]?).map (fun b => b.written.tail) = some [[8]] ∧
      ¬ (senderMachine Unit 0).EachState OwnMapping Sender.start lateBlock := by
  refine ⟨_, rfl, rfl, rfl, by decide, fun hall => ?_⟩
  obtain ⟨hcall, -⟩ := (hall.last rfl).found _ (List.mem_of_getElem? (i := 0) rfl) 1 rfl
  cases hcall

theorem lateBlock_maps_early :
    ¬ (senderMachine Unit 0).EachStep MapsBehindReads Sender.start lateBlock := by
  rw [← ownMapping_iff_maps_behind_reads 0 lateBlock _ rfl]
  intro hall
  obtain ⟨hcall, -⟩ := (hall.last rfl).found _ (List.mem_of_getElem? (i := 0) rfl) 1 rfl
  cases hcall

end LinuxCat.SenderModel
