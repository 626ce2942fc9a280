import LinuxCat.LabelledMachines
import LinuxCat.ReceiverModel
import Mathlib.Data.PNat.Basic

/-! # A block that arrives in pieces

The loop of `recv_file` on the stream the server relays. The label of a step is how many bytes are
ready when `recv` looks for them. The loop takes every short read for the end of the stream. -/
namespace LinuxCat.ReceiverModel
open LabelledMachines LabelledMachines.Machine ByteLayouts Messages MemoryStores

/-- The mappings, the place `recv` stores at, what is left of the stream, and whether the loop has
ended. -/
structure Receipt where
  client : Receiver
  fp : ℤ
  rest : Bytes
  ended : Bool
  deriving DecidableEq, Repr

/-- One round of the loop; at the end of the stream `recv` returns 0. -/
def recvStep (sfileId : ℤ) (s : Receipt) (ready : ℕ+) : Option Receipt :=
  if s.ended then none
  else
    let bs := s.rest.take (min RECVBUF_SIZE ready)
    let client := s.client.storeAt sfileId s.fp bs
    let rest := s.rest.drop (min RECVBUF_SIZE ready)
    if bs.length = RECVBUF_SIZE then some ⟨client, s.fp + RECVBUF_SIZE, rest, false⟩
    else some ⟨client, s.fp, rest, true⟩

def recvMachine (sfileId : ℤ) : Machine Receipt ℕ+ where
  step := recvStep sfileId

theorem step_recvMachine (sfileId : ℤ) : (recvMachine sfileId).step = recvStep sfileId := rfl

def Receipt.start (rc : Receiver) (omsg : Msg) (stream : Bytes) : Receipt :=
  ⟨rc, omsg.offset, stream, false⟩

/-- The loop ends, with `map` for the mapping of the transfer and nothing else changed. -/
def Leaves (rc : Receiver) (omsg : Msg) (stream : Bytes) (ready : ℕ → ℕ+) (map : Bytes) : Prop :=
  ∃ n t, (recvMachine omsg.sfileId).run (.start rc omsg stream) ((List.range n).map ready) = some t ∧
    t.ended = true ∧
    t.client = { rc with gconn := rc.gconn.set omsg.sfileId.toNat (some map) }

/-- Call `i` is the first that returns less than a buffer, and leaves some of the block. -/
def ShortAt (block : Bytes) (ready : ℕ → ℕ+) (i : ℕ) : Prop :=
  (∀ j < i, RECVBUF_SIZE ≤ ready j) ∧
    (ready i : ℕ) < min RECVBUF_SIZE (block.length - RECVBUF_SIZE * i)

/-- What such a call leaves is what the mapping held there before. -/
def NothingMissed (old block : Bytes) (ready : ℕ → ℕ+) : Prop :=
  ∀ i, ShortAt block ready i →
    block.drop (RECVBUF_SIZE * i + ready i) = old.drop (RECVBUF_SIZE * i + ready i)

/-! ## The mapping behind a part of the block -/

/-- The place of the block in its mapping, once `p` bytes of the block are stored. -/
def storedPart (old block : Bytes) (p : ℕ) : Bytes := block.take p ++ old.drop p

section
variable {rc : Receiver} {omsg : Msg} {before old block after : Bytes} {ready : ℕ → ℕ+}

/-- The receiver with this in the mapping of the transfer. -/
def Receiver.withPart (rc : Receiver) (omsg : Msg) (before old block after : Bytes) (p : ℕ) :
    Receiver :=
  { rc with
    gconn := rc.gconn.set omsg.sfileId.toNat (some (before ++ (storedPart old block p ++ after))) }

theorem storedPart_add (old block : Bytes) (p n : ℕ) (hlen : old.length = block.length)
    (hp : p ≤ block.length) :
    storedPart old block (p + n) =
      block.take p ++ ((block.drop p).take n ++ (old.drop p).drop ((block.drop p).take n).length) := by
  rw [storedPart, List.take_add, List.append_assoc, List.drop_drop, List.length_take,
    List.length_drop]
  rcases le_total n (block.length - p) with hn | hn
  · rw [min_eq_left hn]
  · rw [min_eq_right hn, List.drop_eq_nil_of_le (show old.length ≤ p + n by omega),
      List.drop_eq_nil_of_le (show old.length ≤ p + (block.length - p) by omega)]

/-- The next piece goes behind those that are stored. -/
theorem storeAt_withPart (hid : 0 ≤ omsg.sfileId)
    (hmap : rc.gconn[omsg.sfileId.toNat]? = some (some (before ++ (old ++ after))))
    (hlen : old.length = block.length) {p : ℕ} (hp : p ≤ block.length) (n : ℕ) :
    (rc.withPart omsg before old block after p).storeAt omsg.sfileId ((before.length + p : ℕ) : ℤ)
        ((block.drop p).take n) =
      rc.withPart omsg before old block after (p + n) := by
  have hlt : omsg.sfileId.toNat < rc.gconn.length := (List.getElem?_eq_some_iff.mp hmap).1
  have hadd := storedPart_add old block p n hlen hp
  by_cases hnil : (block.drop p).take n = []
  · rw [hnil, List.nil_append, List.length_nil, List.drop_zero] at hadd
    rw [hnil, Receiver.storeAt, if_pos rfl, Receiver.withPart, Receiver.withPart, hadd, storedPart]
  · have hget : (rc.withPart omsg before old block after p).gconn[omsg.sfileId.toNat]? =
        some (some (before ++ (storedPart old block p ++ after))) := List.getElem?_set_self hlt
    have hpiece : ((block.drop p).take n).length ≤ block.length - p := by
      rw [List.length_take, List.length_drop]
      exact min_le_right _ _
    have hpart : (storedPart old block p).length = block.length := by
      rw [storedPart, List.length_append, List.length_take, List.length_drop]
      omega
    have hstore : store (before ++ (storedPart old block p ++ after)) (before.length + p)
        ((block.drop p).take n) = before ++ (storedPart old block (p + n) ++ after) := by
      have htake : (block.take p).length = p := List.length_take_of_le hp
      have hsplit : before ++ (storedPart old block p ++ after) =
          (before ++ block.take p) ++ ((old.drop p).take ((block.drop p).take n).length ++
            ((old.drop p).drop ((block.drop p).take n).length ++ after)) := by
        rw [storedPart]
        simp only [List.append_assoc]
        rw [← List.append_assoc (List.take _ (List.drop p old)), List.take_append_drop]
      have hplace : before.length + p = (before ++ block.take p).length := by
        rw [List.length_append, htake]
      rw [hsplit, hplace, store_middle _ (by rw [List.length_take, List.length_drop]; omega), hadd]
      simp only [List.append_assoc]
    rw [Receiver.storeAt, if_neg hnil, hget]
    dsimp only
    rw [if_pos, Int.toNat_natCast, hstore]
    · simp only [Receiver.withPart, List.set_set]
    · refine ⟨hid, Int.natCast_nonneg _, ?_⟩
      rw [List.length_append, List.length_append, hpart]
      omega

/-! ## The rounds -/

/-- The loop behind `k` full buffers. -/
def Receipt.behind (rc : Receiver) (omsg : Msg) (before old block after : Bytes) (k : ℕ) : Receipt :=
  ⟨rc.withPart omsg before old block after (100 * k), (before.length + 100 * k : ℕ),
    block.drop (100 * k), false⟩

theorem length_piece (block : Bytes) (ready : ℕ → ℕ+) (k : ℕ) :
    ((block.drop (100 * k)).take (min RECVBUF_SIZE (ready k))).length =
      min (min 100 (ready k : ℕ)) (block.length - 100 * k) := by
  rw [List.length_take, List.length_drop]
  rfl

/-- A round that fills the buffer. -/
theorem recvStep_full (hid : 0 ≤ omsg.sfileId)
    (hmap : rc.gconn[omsg.sfileId.toNat]? = some (some (before ++ (old ++ after))))
    (hlen : old.length = block.length) {k : ℕ} (hk : 100 * (k + 1) ≤ block.length)
    (hready : 100 ≤ (ready k : ℕ)) :
    recvStep omsg.sfileId (.behind rc omsg before old block after k) (ready k) =
      some (.behind rc omsg before old block after (k + 1)) := by
  have hpiece := length_piece block ready k
  have hmin : min RECVBUF_SIZE (ready k : ℕ) = 100 := min_eq_left hready
  have hstore := storeAt_withPart hid hmap hlen (show 100 * k ≤ block.length by omega) 100
  rw [hmin] at hpiece
  have hfull : ((block.drop (100 * k)).take 100).length = RECVBUF_SIZE := by
    rw [hpiece]
    simp only [RECVBUF_SIZE]
    omega
  simp only [recvStep, Receipt.behind, Bool.false_eq_true, if_false, hmin, if_pos hfull, hstore,
    List.drop_drop, Nat.mul_succ, ← add_assoc, Option.some.injEq, Receipt.mk.injEq, and_self,
    and_true, true_and]
  rfl

/-- The round that ends the loop. -/
theorem recvStep_short (hid : 0 ≤ omsg.sfileId)
    (hmap : rc.gconn[omsg.sfileId.toNat]? = some (some (before ++ (old ++ after))))
    (hlen : old.length = block.length) {k : ℕ} (hk : 100 * k ≤ block.length)
    (hready : (ready k : ℕ) < 100 ∨ block.length < 100 * (k + 1)) :
    ∃ t, recvStep omsg.sfileId (.behind rc omsg before old block after k) (ready k) = some t ∧
      t.ended = true ∧ t.client = rc.withPart omsg before old block after
        (100 * k + min 100 (ready k : ℕ)) := by
  have hpiece := length_piece block ready k
  have hstore := storeAt_withPart hid hmap hlen hk (min RECVBUF_SIZE (ready k))
  have hshort : ((block.drop (100 * k)).take (min RECVBUF_SIZE (ready k))).length ≠ RECVBUF_SIZE := by
    rw [hpiece]
    simp only [RECVBUF_SIZE]
    omega
  simp only [recvStep, Receipt.behind, Bool.false_eq_true, if_false, if_neg hshort, hstore]
  exact ⟨_, rfl, rfl, rfl⟩

theorem run_full (hid : 0 ≤ omsg.sfileId)
    (hmap : rc.gconn[omsg.sfileId.toNat]? = some (some (before ++ (old ++ after))))
    (hlen : old.length = block.length) (hoff : omsg.offset = before.length) {k : ℕ}
    (hk : 100 * k ≤ block.length) (hready : ∀ j < k, 100 ≤ (ready j : ℕ)) :
    (recvMachine omsg.sfileId).run (.start rc omsg block) ((List.range k).map ready) =
      some (.behind rc omsg before old block after k) := by
  induction k with
  | zero =>
    have hset : rc.gconn.set omsg.sfileId.toNat (some (before ++ (old ++ after))) = rc.gconn := by
      obtain ⟨hlt, hget⟩ := List.getElem?_eq_some_iff.mp hmap
      rw [← hget, List.set_getElem_self]
    simp [Receipt.start, Receipt.behind, Receiver.withPart, storedPart, hset, hoff]
  | succ k ih =>
    rw [List.range_succ, List.map_append, run_append,
      ih (by omega) fun j hj => hready j (by omega), Option.bind_some]
    have hstep := recvStep_full hid hmap hlen hk (hready k (by omega))
    rw [List.map_singleton, run_cons, step_recvMachine, hstep]
    rfl

/-- Some round ends the loop. -/
theorem exists_last (block : Bytes) (ready : ℕ → ℕ+) :
    ∃ q, 100 * q ≤ block.length ∧ (∀ j < q, 100 ≤ (ready j : ℕ)) ∧
      ((ready q : ℕ) < 100 ∨ block.length < 100 * (q + 1)) := by
  have hex : ∃ q, (ready q : ℕ) < 100 ∨ block.length < 100 * (q + 1) :=
    ⟨block.length, .inr (by omega)⟩
  have hbefore : ∀ j < Nat.find hex, 100 ≤ (ready j : ℕ) ∧ 100 * (j + 1) ≤ block.length := by
    intro j hj
    have hnot := Nat.find_min hex hj
    omega
  refine ⟨Nat.find hex, ?_, fun j hj => (hbefore j hj).1, Nat.find_spec hex⟩
  rcases Nat.eq_zero_or_pos (Nat.find hex) with hz | hpos
  · omega
  · have := (hbefore (Nat.find hex - 1) (by omega)).2
    omega

/-- Whatever the calls return, the loop ends, and it ends behind the first short round. -/
theorem recv_ends (hid : 0 ≤ omsg.sfileId)
    (hmap : rc.gconn[omsg.sfileId.toNat]? = some (some (before ++ (old ++ after))))
    (hlen : old.length = block.length) (hoff : omsg.offset = before.length) {q : ℕ}
    (hq : 100 * q ≤ block.length) (hfull : ∀ j < q, 100 ≤ (ready j : ℕ))
    (hlast : (ready q : ℕ) < 100 ∨ block.length < 100 * (q + 1)) :
    ∃ t, (recvMachine omsg.sfileId).run (.start rc omsg block) ((List.range (q + 1)).map ready) =
        some t ∧ t.ended = true ∧
      t.client = rc.withPart omsg before old block after (100 * q + min 100 (ready q : ℕ)) := by
  obtain ⟨t, hstep, hended, hclient⟩ := recvStep_short hid hmap hlen hq hlast
  refine ⟨t, ?_, hended, hclient⟩
  rw [List.range_succ, List.map_append, run_append, run_full hid hmap hlen hoff hq hfull,
    Option.bind_some, List.map_singleton, run_cons, step_recvMachine, hstep]
  rfl

/-- What the loop leaves is the mapping behind its last round, and nothing else. -/
theorem leaves_iff (hid : 0 ≤ omsg.sfileId)
    (hmap : rc.gconn[omsg.sfileId.toNat]? = some (some (before ++ (old ++ after))))
    (hlen : old.length = block.length) (hoff : omsg.offset = before.length) {q : ℕ}
    (hq : 100 * q ≤ block.length) (hfull : ∀ j < q, 100 ≤ (ready j : ℕ))
    (hlast : (ready q : ℕ) < 100 ∨ block.length < 100 * (q + 1)) :
    Leaves rc omsg block ready (before ++ (block ++ after)) ↔
      block.drop (100 * q + min 100 (ready q : ℕ)) = old.drop (100 * q + min 100 (ready q : ℕ)) := by
  obtain ⟨t, hrun, hended, hclient⟩ := recv_ends hid hmap hlen hoff hq hfull hlast
  have hstuck {u : Receipt} (hu : u.ended = true) : ∀ a, (recvMachine omsg.sfileId).step u a = none := by
    intro a
    rw [step_recvMachine, recvStep, if_pos hu]
  have hlt : omsg.sfileId.toNat < rc.gconn.length := (List.getElem?_eq_some_iff.mp hmap).1
  have hwhole : Leaves rc omsg block ready (before ++ (block ++ after)) ↔
      storedPart old block (100 * q + min 100 (ready q : ℕ)) = block := by
    constructor
    · rintro ⟨n, u, hrun', hended', hclient'⟩
      obtain rfl := run_eq_of_stuck hrun (hstuck hended) hrun' (hstuck hended')
      have hgconn := congrArg (fun r : Receiver => r.gconn[omsg.sfileId.toNat]?)
        (hclient.symm.trans hclient')
      simp only [Receiver.withPart, List.getElem?_set_self hlt, Option.some.injEq] at hgconn
      exact List.append_cancel_right (List.append_cancel_left hgconn)
    · intro hpart
      refine ⟨_, t, hrun, hended, ?_⟩
      rw [hclient, Receiver.withPart, hpart]
  rw [hwhole, storedPart]
  constructor
  · intro h
    have hsplit := List.take_append_drop (100 * q + min 100 (ready q : ℕ)) block
    exact (List.append_cancel_left (h.trans hsplit.symm)).symm
  · intro h
    rw [← h, List.take_append_drop]

end

/-- `recv_file` stores the block and changes nothing else exactly when its first short read misses
nothing that the mapping did not hold already. -/
theorem received_iff (rc : Receiver) (omsg : Msg) (before old block after : Bytes) (ready : ℕ → ℕ+)
    (hid : 0 ≤ omsg.sfileId)
    (hmap : rc.gconn[omsg.sfileId.toNat]? = some (some (before ++ (old ++ after))))
    (hlen : old.length = block.length) (hoff : omsg.offset = before.length) :
    Leaves rc omsg block ready (before ++ (block ++ after)) ↔ NothingMissed old block ready := by
  obtain ⟨q, hq, hfull, hlast⟩ := exists_last block ready
  rw [leaves_iff hid hmap hlen hoff hq hfull hlast]
  have hbuf : RECVBUF_SIZE = 100 := rfl
  simp only [NothingMissed, ShortAt, hbuf]
  constructor
  · rintro h i ⟨hbefore, hshort⟩
    -- only the last round can be short of the block
    obtain rfl : i = q := by
      rcases lt_trichotomy i q with hlt | rfl | hgt
      · have := hfull i hlt
        omega
      · rfl
      · have := hbefore q hgt
        omega
    rwa [min_eq_right (by omega)] at h
  · intro h
    by_cases hshort : (ready q : ℕ) < min 100 (block.length - 100 * q)
    · rw [min_eq_right (by omega)]
      exact h q ⟨hfull, hshort⟩
    · rw [List.drop_eq_nil_of_le (by omega), List.drop_eq_nil_of_le (by omega)]

/-- A receiver that has mapped a file of three bytes. -/
def mappedThree : Receiver := Receiver.start.caseMinus3 { Msg.zero with filesize := 3 } []

/-- All three at once. -/
theorem three_at_once :
    Leaves mappedThree .zero [1, 2, 3] (fun _ => 3) ([] ++ ([1, 2, 3] ++ [])) :=
  (received_iff mappedThree .zero [] [0, 0, 0] [1, 2, 3] [] (fun _ => 3) (by decide) (by decide)
    rfl rfl).mpr fun i hshort => by
      have hlt := hshort.2
      simp only [List.length_cons, List.length_nil, PNat.val_ofNat] at hlt
      omega

/-- The first of the three comes alone. -/
theorem one_of_three :
    ¬ Leaves mappedThree .zero [1, 2, 3] (fun _ => 1) ([] ++ ([1, 2, 3] ++ [])) := by
  have hmap : mappedThree.gconn[Msg.zero.sfileId.toNat]? = some (some ([] ++ ([0, 0, 0] ++ []))) := by
    decide
  have hlast : (((fun _ => 1 : ℕ → ℕ+) 0 : ℕ+) : ℕ) < 100 ∨ ([1, 2, 3] : Bytes).length < 100 * (0 + 1) :=
    .inr (by decide)
  have hid : 0 ≤ Msg.zero.sfileId := by decide
  have hlen : ([0, 0, 0] : Bytes).length = ([1, 2, 3] : Bytes).length := rfl
  rw [leaves_iff hid hmap hlen rfl (by decide) (fun j hj => absurd hj (Nat.not_lt_zero j)) hlast]
  decide

end LinuxCat.ReceiverModel
