import LinuxCat.FileBlocks
import Mathlib.Algebra.Order.BigOperators.Group.List

/-! # A block whose writes may be incomplete

The loop of `send_filedata` moves on behind a full write only, and leaves what other rounds have
missed to the last write. A round that has sent a part sends it again. -/
namespace LinuxCat.FileBlocks
open ByteLayouts Messages

/-- What a `write` of `SEND_SIZE` bytes returns. -/
inductive Wrote
  | failed
  | sent (n : Fin (SEND_SIZE + 1))
  deriving DecidableEq, Repr

/-- How many bytes it has put on the connection. -/
def Wrote.count : Wrote → ℕ
  | .failed => 0
  | .sent n => n

/-- The writes of the loop with these results, and the last one, which is complete. -/
def sendRounds : List Wrote → Bytes → ℤ → List Bytes
  | [], fp, bs => [fp.take bs.toNat]
  | w :: ws, fp, bs =>
    fp.take w.count ::
      if w.count = SEND_SIZE then sendRounds ws (fp.drop SEND_SIZE) (bs - SEND_SIZE)
      else sendRounds ws fp bs

/-- What `send_filedata` writes when round `i` of its loop has the result `results i`. -/
def sendFiledataOver (results : ℕ → Wrote) (mbegin : Bytes) (omsg : Msg) : List Bytes :=
  let omsg := { omsg with action := 5 }
  omsg.toBytes ::
    sendRounds ((List.range (omsg.bs.tdiv SEND_SIZE).toNat).map results)
      (mbegin.drop omsg.offset.toNat) omsg.bs

theorem Wrote.count_le (w : Wrote) : w.count ≤ SEND_SIZE := by
  cases w with
  | failed => exact Nat.zero_le _
  | sent n => exact Nat.le_of_lt_succ n.isLt

/-- The bytes a round sends that another one sends again. -/
def Wrote.repeated (w : Wrote) : ℕ := if w.count = SEND_SIZE then 0 else w.count

/-- Each of them comes on top of the block. -/
theorem length_sendRounds {ws : List Wrote} (fp : Bytes) {bs : ℤ}
    (hbs : (SEND_SIZE * ws.length : ℕ) ≤ bs) (hfp : bs ≤ fp.length) :
    ((sendRounds ws fp bs).flatten.length : ℤ) = bs + (ws.map Wrote.repeated).sum := by
  induction ws generalizing fp bs with
  | nil =>
    rw [sendRounds, List.flatten_singleton, List.length_take, List.map_nil, List.sum_nil]
    simp only [List.length_nil] at hbs
    omega
  | cons w ws ih =>
    have hle := w.count_le
    rw [List.length_cons, Nat.mul_succ] at hbs
    rw [sendRounds, List.flatten_cons, List.length_append, List.length_take, List.map_cons,
      List.sum_cons, Wrote.repeated]
    split_ifs with hfull
    · have hrest := ih (fp.drop SEND_SIZE) (show (SEND_SIZE * ws.length : ℕ) ≤ bs - SEND_SIZE by omega)
        (by rw [List.length_drop]; omega)
      omega
    · have hrest := ih fp (show (SEND_SIZE * ws.length : ℕ) ≤ bs by omega) hfp
      omega

/-- Rounds that send all or nothing leave the last write just what is missing. -/
theorem sendRounds_flatten {ws : List Wrote} {fp : Bytes} {bs : ℤ}
    (hbs : (SEND_SIZE * ws.length : ℕ) ≤ bs) (hws : ∀ w ∈ ws, w.repeated = 0) :
    (sendRounds ws fp bs).flatten = fp.take bs.toNat := by
  induction ws generalizing fp bs with
  | nil => rw [sendRounds, List.flatten_singleton]
  | cons w ws ih =>
    have hw := hws w List.mem_cons_self
    have hrest := fun w hw => hws w (List.mem_cons_of_mem _ hw)
    rw [List.length_cons, Nat.mul_succ] at hbs
    rw [sendRounds, List.flatten_cons]
    rw [Wrote.repeated] at hw
    split_ifs at hw ⊢ with hfull
    · have htotal : bs.toNat = SEND_SIZE + (bs - SEND_SIZE).toNat := by omega
      rw [ih (by omega) hrest, hfull, htotal, List.take_add]
    · rw [ih (by omega) hrest, hw, List.take_zero, List.nil_append]

/-- What was put on the connection behind the header is the block exactly when every round has sent
all of its bytes or none. -/
theorem incomplete_writes_iff (results : ℕ → Wrote) (before block after : Bytes) (omsg : Msg) :
    (sendFiledataOver results (before ++ block ++ after)
        { omsg with offset := before.length, bs := block.length }).flatten =
        { omsg with action := 5, offset := before.length, bs := block.length }.toBytes ++ block ↔
      ∀ i < block.length / SEND_SIZE, (results i).count = 0 ∨ (results i).count = SEND_SIZE := by
  have hnum : ((block.length : ℤ).tdiv SEND_SIZE).toNat = block.length / SEND_SIZE := by
    rw [Int.tdiv_eq_ediv_of_nonneg (Int.natCast_nonneg _)]
    norm_cast
  have hfp : (before ++ block ++ after).drop before.length = block ++ after := by
    rw [List.append_assoc, List.drop_left]
  have hbs : ((SEND_SIZE * ((List.range (block.length / SEND_SIZE)).map results).length : ℕ) : ℤ) ≤
      block.length := by
    rw [List.length_map, List.length_range]
    exact Int.ofNat_le.mpr (Nat.mul_div_le _ _)
  simp only [sendFiledataOver, List.flatten_cons, hnum, Int.toNat_natCast, hfp,
    List.append_right_inj]
  constructor
  · intro hflat i hi
    have hlen := length_sendRounds (block ++ after) hbs (by simp)
    rw [hflat] at hlen
    have hsum : (((List.range (block.length / SEND_SIZE)).map results).map Wrote.repeated).sum = 0 := by
      omega
    have hmem : (results i).repeated ∈
        ((List.range (block.length / SEND_SIZE)).map results).map Wrote.repeated :=
      List.mem_map_of_mem (List.mem_map_of_mem (List.mem_range.mpr hi))
    have hle := List.le_sum_of_mem hmem
    rw [hsum, Nat.le_zero, Wrote.repeated] at hle
    split_ifs at hle with hfull
    · exact .inr hfull
    · exact .inl hle
  · intro hall
    rw [sendRounds_flatten hbs, Int.toNat_natCast, List.take_left]
    intro w hw
    obtain ⟨i, hi, rfl⟩ := List.mem_map.mp hw
    rw [Wrote.repeated]
    rcases hall i (List.mem_range.mp hi) with hnone | hfull
    · rw [hnone, if_neg (by decide)]
    · rw [if_pos hfull]

/-- A full buffer of which half is sent, and then all. -/
theorem half_sent_twice :
    (sendFiledataOver (fun _ => .sent 50) (List.replicate 100 7) { Msg.zero with bs := 100 }).flatten ≠
      { Msg.zero with action := 5, bs := 100 }.toBytes ++ List.replicate 100 7 := by
  decide +kernel

end LinuxCat.FileBlocks
