import LinuxCat.ByteLayouts

/-! # Frames of one width read from a byte stream

A reader clears a buffer of `w` bytes, reads into it once, and takes what it then holds for a
frame, however much the read delivered. The frames it takes are those of the stream exactly
if its first incomplete read misses nothing but zeros, and only zeros follow. -/
namespace StreamReads
open ByteLayouts

section Frames
variable {α : Type*} {f : α → Bytes} {w : ℕ}

theorem length_flatMap_frames (hf : ∀ a, (f a).length = w) (as : List α) :
    (as.flatMap f).length = w * as.length := by
  induction as with
  | nil => rfl
  | cons a as ih => rw [List.flatMap_cons, List.length_append, hf, ih, List.length_cons, Nat.mul_succ,
      Nat.add_comm]

/-- The `n`-th frame of a stream of frames. -/
theorem frame_of_flatMap (hf : ∀ a, (f a).length = w) {as : List α} {n : ℕ} {a : α}
    (h : as[n]? = some a) : ((as.flatMap f).drop (w * n)).take w = f a := by
  induction as generalizing n with
  | nil => simp at h
  | cons b as ih =>
    rw [List.flatMap_cons]
    cases n with
    | zero =>
      obtain rfl : b = a := by simpa using h
      rw [Nat.mul_zero, List.drop_zero, ← hf b, List.take_left]
    | succ n =>
      rw [Nat.mul_succ, Nat.add_comm, ← hf b, List.drop_length_add_append, hf b]
      exact ih (by simpa using h)

end Frames

/-- The result of one read: an error, or some bytes. -/
inductive Read
  | failed
  | piece (bs : Bytes)
  deriving DecidableEq, Repr

def Read.bytes : Read → Bytes
  | .failed => []
  | .piece bs => bs

/-- The buffer behind the read. -/
def Read.buffer (w : ℕ) (r : Read) : Bytes := pad w r.bytes

/-- The reads deliver the stream in order, in nonempty pieces no longer than a frame. -/
structure Delivers (w : ℕ) (stream : Bytes) (rs : List Read) : Prop where
  pieces : ∀ r ∈ rs, r.bytes.length ≤ w ∧ (r.bytes = [] → r = .failed)
  inOrder : rs.flatMap Read.bytes <+: stream

/-- Nothing but zeros. -/
def Blank (bs : Bytes) : Prop := ∀ b ∈ bs, b = 0

instance (bs : Bytes) : Decidable (Blank bs) := inferInstanceAs (Decidable (∀ b ∈ bs, b = 0))

/-- The frames as far as the reads go: whole ones, then one whose unread rest is blank, and
blank ones. -/
def Kept (w : ℕ) : List Bytes → List Read → Prop
  | _, [] => True
  | [], _ :: _ => False
  | f :: fs, r :: rs =>
    if r.bytes.length = w then Kept w fs rs
    else Blank (f.drop r.bytes.length) ∧ rs.length ≤ fs.length ∧ ∀ g ∈ fs.take rs.length, Blank g

instance Kept.decidable (w : ℕ) : ∀ fs rs, Decidable (Kept w fs rs)
  | _, [] => .isTrue (by simp [Kept])
  | [], _ :: _ => .isFalse (by simp [Kept])
  | f :: fs, r :: rs =>
    have := Kept.decidable w fs rs
    inferInstanceAs (Decidable (if r.bytes.length = w then Kept w fs rs else _))

theorem blank_iff {n : ℕ} {bs : Bytes} (h : bs.length = n) : Blank bs ↔ bs = List.replicate n 0 :=
  ⟨fun hb => List.eq_replicate_iff.mpr ⟨h, hb⟩, fun hb => (List.eq_replicate_iff.mp hb).2⟩

theorem Delivers.tail {w : ℕ} {stream : Bytes} {r : Read} {rs : List Read}
    (h : Delivers w stream (r :: rs)) : Delivers w (stream.drop r.bytes.length) rs := by
  refine ⟨fun r' hr' => h.pieces r' (List.mem_cons_of_mem r hr'), ?_⟩
  obtain ⟨rest, hrest⟩ := h.inOrder
  exact ⟨rest, by simp [← hrest]⟩

theorem Delivers.head {w : ℕ} {stream : Bytes} {r : Read} {rs : List Read}
    (h : Delivers w stream (r :: rs)) : r.bytes = stream.take r.bytes.length := by
  obtain ⟨rest, hrest⟩ := h.inOrder
  simp [← hrest]

/-- One more read, from where the last one stopped. -/
theorem Delivers.snoc {w pos : ℕ} {stream : Bytes} {rs : List Read} {r : Read}
    (h : Delivers w stream rs) (hpos : rs.flatMap Read.bytes = stream.take pos)
    (hr : r.bytes = (stream.drop pos).take r.bytes.length) (hw : r.bytes.length ≤ w)
    (hne : r.bytes = [] → r = .failed) :
    (rs ++ [r]).flatMap Read.bytes = stream.take (pos + r.bytes.length) ∧
      Delivers w stream (rs ++ [r]) := by
  have hflat : (rs ++ [r]).flatMap Read.bytes = stream.take (pos + r.bytes.length) := by
    rw [List.flatMap_append, hpos, List.take_add, ← hr]
    simp
  refine ⟨hflat, fun r' hr' => ?_, ?_⟩
  · rcases List.mem_append.mp hr' with hr' | hr'
    · exact h.pieces r' hr'
    · rw [List.mem_singleton.mp hr']
      exact ⟨hw, hne⟩
  · rw [hflat]
    exact List.take_prefix _ stream

/-- Behind `z` zeros that were not read in time, a frame of the reader is one of the stream
only if it is blank. -/
theorem pad_eq_iff_blank {w z : ℕ} {f p : Bytes} (rest : Bytes) (hz : 0 < z) (hf : f.length = w)
    (hp : p.length ≤ w) (h : p = (List.replicate z 0 ++ f ++ rest).take p.length) :
    pad w p = f ↔ Blank f := by
  have hget : ∀ i, i < p.length → p[i]? = (List.replicate z 0 ++ f ++ rest)[i]? := by
    intro i hi
    rw [h, List.getElem?_take_of_lt (by simpa using hi)]
  have hpad : ∀ i, i < w → (pad w p)[i]? = if i < p.length then p[i]? else some 0 := by
    intro i hi
    rw [pad, List.take_of_length_le hp]
    split_ifs with hlt
    · rw [List.getElem?_append_left hlt]
    · rw [List.getElem?_append_right (by omega), List.getElem?_replicate, if_pos (by omega)]
  constructor
  · intro he
    -- byte `i` of the frame is byte `i - z` of it, or one of the zeros
    have hzero : ∀ i, i < w → f[i]? = some 0 := by
      intro i
      induction i using Nat.strong_induction_on with
      | _ i ih =>
        intro hi
        rw [← he, hpad i hi]
        split_ifs with hlt
        · rw [hget i hlt, List.append_assoc]
          by_cases hiz : i < z
          · rw [List.getElem?_append_left (by simpa using hiz), List.getElem?_replicate,
              if_pos hiz]
          · rw [List.getElem?_append_right (by simpa using hiz), List.length_replicate,
              List.getElem?_append_left (by omega)]
            exact ih (i - z) (by omega) (by omega)
        · rfl
    intro b hb
    obtain ⟨i, hi⟩ := List.mem_iff_getElem?.mp hb
    have hlt : i < w := hf ▸ (List.getElem?_eq_some_iff.mp hi).1
    exact Option.some.inj (hi.symm.trans (hzero i hlt))
  · intro hb
    rw [(blank_iff hf).mp hb] at h ⊢
    have hpz : p = List.replicate p.length 0 := by
      rw [List.append_assoc, ← List.append_assoc, List.replicate_append_replicate,
        List.take_append_of_le_length (by simp; omega), List.take_replicate] at h
      rw [h]
      simp
    rw [pad, List.take_of_length_le hp, hpz]
    simp only [List.length_replicate, List.replicate_append_replicate]
    congr 1
    omega

/-- Once a byte is missing, only blank frames are taken as they are. -/
theorem buffers_prefix_iff_blank {w z : ℕ} {fs : List Bytes} {rs : List Read} (hz : 0 < z)
    (hw : ∀ f ∈ fs, f.length = w) (h : Delivers w (List.replicate z 0 ++ fs.flatten) rs) :
    rs.map (Read.buffer w) <+: fs ↔
      rs.length ≤ fs.length ∧ ∀ g ∈ fs.take rs.length, Blank g := by
  induction rs generalizing fs z with
  | nil => simp
  | cons r rs ih =>
    cases fs with
    | nil => simp
    | cons f fs =>
      have hf : f.length = w := hw f (by simp)
      have hp := (h.pieces r (by simp)).1
      have hhead : r.buffer w = f ↔ Blank f := by
        refine pad_eq_iff_blank fs.flatten hz hf hp ?_
        simpa [List.append_assoc] using h.head
      simp only [List.map_cons, List.cons_prefix_cons, hhead, List.length_cons,
        Nat.add_le_add_iff_right, List.take_succ_cons, List.mem_cons, forall_eq_or_imp]
      by_cases hb : Blank f
      · have htail := h.tail
        rw [List.flatten_cons, (blank_iff hf).mp hb, ← List.append_assoc,
          List.replicate_append_replicate, List.drop_append_of_le_length (by simp; omega),
          List.drop_replicate] at htail
        rw [ih (by omega) (fun g hg => hw g (by simp [hg])) htail]
        tauto
      · tauto

/-- The frames a reader takes are the first ones of the stream exactly if they are kept. -/
theorem buffers_prefix_iff_kept {w : ℕ} {fs : List Bytes} {rs : List Read}
    (hw : ∀ f ∈ fs, f.length = w) (h : Delivers w fs.flatten rs) :
    rs.map (Read.buffer w) <+: fs ↔ Kept w fs rs := by
  induction rs generalizing fs with
  | nil => simp [Kept]
  | cons r rs ih =>
    cases fs with
    | nil => simp [Kept]
    | cons f fs =>
      have hf : f.length = w := hw f (by simp)
      have hws : ∀ g ∈ fs, g.length = w := fun g hg => hw g (by simp [hg])
      have hp := (h.pieces r (by simp)).1
      have hhead : r.bytes = f.take r.bytes.length := by
        have := h.head
        rwa [List.flatten_cons, List.take_append_of_le_length (by omega)] at this
      have htail := h.tail
      rw [List.flatten_cons, List.drop_append_of_le_length (by omega)] at htail
      simp only [List.map_cons, List.cons_prefix_cons, Kept]
      split_ifs with hfull
      · have hbuf : r.buffer w = f := by
          rw [Read.buffer, pad_of_length hfull, hhead, hfull, ← hf, List.take_length]
        rw [List.drop_of_length_le (by omega), List.nil_append] at htail
        rw [ih hws htail]
        simp [hbuf]
      · have hbuf : r.buffer w = f ↔ Blank (f.drop r.bytes.length) := by
          have hsplit : f = r.bytes ++ f.drop r.bytes.length := by
            nth_rewrite 1 [hhead]
            exact (List.take_append_drop _ f).symm
          rw [blank_iff (n := w - r.bytes.length) (by simp [hf])]
          conv_lhs => rw [hsplit]
          rw [Read.buffer, pad, List.take_of_length_le hp, List.append_right_inj]
          exact eq_comm
        rw [hbuf]
        refine and_congr_right fun hb => ?_
        rw [(blank_iff (n := w - r.bytes.length) (by simp [hf])).mp hb] at htail
        exact buffers_prefix_iff_blank (by omega) hws htail

/-- Whole reads keep the frames. -/
theorem kept_of_whole {w : ℕ} {fs : List Bytes} {rs : List Read} (hpos : 0 < w)
    (hw : ∀ f ∈ fs, f.length = w) (h : Delivers w fs.flatten rs)
    (hrs : ∀ r ∈ rs, r.bytes.length = w) : Kept w fs rs := by
  induction rs generalizing fs with
  | nil => simp [Kept]
  | cons r rs ih =>
    have hlen := hrs r (by simp)
    cases fs with
    | nil =>
      have := h.head
      rw [List.flatten_nil, List.take_nil] at this
      simp [this] at hlen
      omega
    | cons f fs =>
      have hf := hw f (by simp)
      have htail := h.tail
      rw [List.flatten_cons, hlen, ← hf, List.drop_left, hf] at htail
      rw [Kept, if_pos hlen]
      exact ih (fun g hg => hw g (by simp [hg])) htail fun r' hr' => hrs r' (by simp [hr'])

end StreamReads
