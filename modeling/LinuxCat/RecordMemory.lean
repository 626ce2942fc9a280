import LinuxCat.MemoryStores
import LinuxCat.Messages

/-! # The record as the memory that `scanf` writes to

`scanf("%s", ...)` has no bound: a word that is longer than its field goes on in the fields behind
it. It changes nothing before its field, and a word that fits changes nothing else at all. -/
namespace LinuxCat.Messages
open ByteLayouts MemoryStores

/-- The fields that the client scans words into. -/
inductive Field
  | name
  | password
  | toname
  | filename
  | message
  deriving DecidableEq, Repr

namespace Field

def width : Field → ℕ
  | .name | .password | .toname | .filename => 20
  | .message => 1024

def offset : Field → ℕ
  | .name => 32
  | .password => 52
  | .toname => 72
  | .filename => 92
  | .message => 112

end Field

namespace Msg

def get (m : Msg) : (f : Field) → CharArray f.width
  | .name => m.name
  | .password => m.password
  | .toname => m.toname
  | .filename => m.filename
  | .message => m.message

def set (m : Msg) : (f : Field) → CharArray f.width → Msg
  | .name, a => { m with name := a }
  | .password, a => { m with password := a }
  | .toname, a => { m with toname := a }
  | .filename, a => { m with filename := a }
  | .message, a => { m with message := a }

/-- The word and its terminator, written from the field on; none beyond the record. -/
def scanned (m : Msg) (f : Field) (word : Bytes) : Option Msg :=
  if f.offset + (word ++ [0]).length ≤ sizeofMsg then
    some (Msg.ofBytes (store m.toBytes f.offset (word ++ [0])))
  else none

end Msg

variable {m m' : Msg} {f g : Field} {word : Bytes}

@[simp] theorem Msg.get_set (m : Msg) (f : Field) (a : CharArray f.width) : (m.set f a).get f = a := by
  cases f <;> rfl

theorem Msg.get_set_of_ne (m : Msg) (a : CharArray f.width) (h : g ≠ f) :
    (m.set f a).get g = m.get g := by
  cases f <;> cases g <;> first | rfl | exact absurd rfl h

@[simp] theorem Msg.action_set (m : Msg) (f : Field) (a : CharArray f.width) :
    (m.set f a).action = m.action := by
  cases f <;> rfl

/-! ## What a buffer is read as -/

theorem leNat_lt (bs : Bytes) : leNat bs < 256 ^ bs.length := by
  induction bs with
  | nil => simp [leNat]
  | cons b bs ih =>
    have hb := b.toNat_lt
    rw [leNat, List.length_cons, pow_succ]
    omega

theorem leInt_bounds (bs : Bytes) :
    -(256 ^ bs.length : ℤ) ≤ 2 * leInt bs ∧ 2 * leInt bs < 256 ^ bs.length := by
  have hlt := leNat_lt bs
  have hcast : (leNat bs : ℤ) < 256 ^ bs.length := by exact_mod_cast hlt
  have hpos : (0 : ℤ) ≤ leNat bs := Int.natCast_nonneg _
  unfold leInt
  split_ifs with h
  · have h' : (2 * leNat bs : ℤ) < 256 ^ bs.length := by exact_mod_cast h
    constructor <;> linarith
  · have h' : (256 ^ bs.length : ℤ) ≤ 2 * leNat bs := by exact_mod_cast Nat.le_of_not_lt h
    constructor <;> linarith

theorem isInt_leInt {bs : Bytes} (h : bs.length = 4) : IsInt (leInt bs) := by
  obtain ⟨hlow, hhigh⟩ := leInt_bounds bs
  rw [h] at hlow hhigh
  norm_num at hlow hhigh
  unfold IsInt
  omega

theorem isLong_leInt {bs : Bytes} (h : bs.length = 8) : IsLong (leInt bs) := by
  obtain ⟨hlow, hhigh⟩ := leInt_bounds bs
  rw [h] at hlow hhigh
  norm_num at hlow hhigh
  unfold IsLong
  omega

/-- Whatever a buffer holds, the record it is read as has values of its types. -/
theorem Msg.typed_ofBytes {bs : Bytes} (h : bs.length = sizeofMsg) : (Msg.ofBytes bs).Typed := by
  have hlen (k n : ℕ) (hk : k + n ≤ sizeofMsg) : ((bs.drop k).take n).length = n := by
    rw [List.length_take, List.length_drop, h]
    omega
  have hint (k : ℕ) (hk : k + 4 ≤ sizeofMsg) : IsInt (leInt ((bs.drop k).take 4)) :=
    isInt_leInt (hlen k 4 hk)
  have h4 := hint 4 (by decide)
  have h8 := hint 8 (by decide)
  have h12 := hint 12 (by decide)
  have h16 := hint 16 (by decide)
  have h20 := hint 20 (by decide)
  have h24 := isLong_leInt (hlen 24 8 (by decide))
  constructor
  · exact hint 0 (by decide)
  all_goals simpa only [Msg.ofBytes, Msg.widths, splitFields, List.drop_drop, Nat.reduceAdd]

theorem Msg.typed_zero : Msg.zero.Typed := by
  rw [← Msg.ofBytes_zero]
  exact Msg.typed_ofBytes (by simp)

theorem Msg.typed_action (h : m.Typed) {action : ℤ} (hact : IsInt action) :
    Msg.Typed { m with action := action } :=
  ⟨hact, h.sfileId, h.filesize, h.count, h.bs, h.offset, h.cfd⟩

theorem Msg.typed_sfileId (h : m.Typed) {sfileId : ℤ} (hid : IsInt sfileId) :
    Msg.Typed { m with sfileId := sfileId } :=
  ⟨h.action, hid, h.filesize, h.count, h.bs, h.offset, h.cfd⟩

theorem Msg.typed_message (h : m.Typed) (message : CharArray 1024) :
    Msg.Typed { m with message := message } :=
  ⟨h.action, h.sfileId, h.filesize, h.count, h.bs, h.offset, h.cfd⟩

/-- A field of the record a buffer is read as. -/
theorem Msg.get_ofBytes (bs : Bytes) (f : Field) :
    (Msg.ofBytes bs).get f = .ofBytes f.width ((bs.drop f.offset).take f.width) := by
  cases f <;>
    simp only [Msg.get, Msg.ofBytes, Msg.widths, splitFields, List.drop_drop, Nat.reduceAdd,
      Field.offset, Field.width]

theorem Msg.action_ofBytes (bs : Bytes) : (Msg.ofBytes bs).action = leInt (bs.take 4) := rfl

/-! ## What a scanned word changes -/

/-- A word leaves a record of the types. -/
theorem Msg.scanned_typed (h : m.scanned f word = some m') : m'.Typed := by
  unfold Msg.scanned at h
  split_ifs at h with hfit
  obtain rfl := Option.some.inj h
  exact Msg.typed_ofBytes ((length_store (by rw [length_toBytes]; exact hfit)).trans m.length_toBytes)

theorem Field.offset_le (f : Field) : f.offset ≤ sizeofMsg := by
  cases f <;> decide

/-- The bytes of a record around one of its fields. -/
theorem Msg.toBytes_set (m : Msg) (f : Field) : ∃ before after : Bytes,
    before.length = f.offset ∧ m.toBytes = before ++ ((m.get f).bytes ++ after) ∧
      ∀ a, (m.set f a).toBytes = before ++ (a.bytes ++ after) := by
  let ints : Bytes := leBytes 4 m.action ++ leBytes 4 m.sfileId ++ leBytes 4 m.filesize ++
    leBytes 4 m.count ++ leBytes 4 m.bs ++ leBytes 4 m.offset ++ leBytes 8 m.cfd
  cases f with
  | name =>
    exact ⟨ints, m.password.bytes ++ m.toname.bytes ++ m.filename.bytes ++ m.message.bytes ++
      m.nowTime.bytes, by simp [ints, Field.offset], by simp [ints, Msg.toBytes, Msg.fields, Msg.get],
      fun a => by simp [ints, Msg.toBytes, Msg.fields, Msg.set]⟩
  | password =>
    exact ⟨ints ++ m.name.bytes, m.toname.bytes ++ m.filename.bytes ++ m.message.bytes ++
      m.nowTime.bytes, by simp [ints, Field.offset, CharArray.length_bytes],
      by simp [ints, Msg.toBytes, Msg.fields, Msg.get],
      fun a => by simp [ints, Msg.toBytes, Msg.fields, Msg.set]⟩
  | toname =>
    exact ⟨ints ++ m.name.bytes ++ m.password.bytes, m.filename.bytes ++ m.message.bytes ++
      m.nowTime.bytes, by simp [ints, Field.offset, CharArray.length_bytes],
      by simp [ints, Msg.toBytes, Msg.fields, Msg.get],
      fun a => by simp [ints, Msg.toBytes, Msg.fields, Msg.set]⟩
  | filename =>
    exact ⟨ints ++ m.name.bytes ++ m.password.bytes ++ m.toname.bytes, m.message.bytes ++
      m.nowTime.bytes, by simp [ints, Field.offset, CharArray.length_bytes],
      by simp [ints, Msg.toBytes, Msg.fields, Msg.get],
      fun a => by simp [ints, Msg.toBytes, Msg.fields, Msg.set]⟩
  | message =>
    exact ⟨ints ++ m.name.bytes ++ m.password.bytes ++ m.toname.bytes ++ m.filename.bytes,
      m.nowTime.bytes, by simp [ints, Field.offset, CharArray.length_bytes],
      by simp [ints, Msg.toBytes, Msg.fields, Msg.get],
      fun a => by simp [ints, Msg.toBytes, Msg.fields, Msg.set]⟩

/-- A buffer with the bytes of a record holds its fields. -/
theorem Msg.get_ofBytes_toBytes (m : Msg) (f : Field) : (Msg.ofBytes m.toBytes).get f = m.get f := by
  obtain ⟨before, after, hlen, hbytes, -⟩ := m.toBytes_set f
  rw [get_ofBytes, hbytes, List.drop_left' hlen, List.take_left' (m.get f).length_bytes,
    CharArray.ofBytes_bytes]

/-- The fields before that of the word stay, however long the word is. -/
theorem Msg.get_scanned (h : m.scanned f word = some m') (hg : g.offset + g.width ≤ f.offset) :
    m'.get g = m.get g := by
  unfold Msg.scanned at h
  split_ifs at h with hfit
  obtain rfl := Option.some.inj h
  rw [get_ofBytes, take_drop_store hg (by rw [length_toBytes]; exact f.offset_le), ← get_ofBytes,
    get_ofBytes_toBytes]

theorem Msg.action_scanned (hm : IsInt m.action) (h : m.scanned f word = some m') :
    m'.action = m.action := by
  have hf : 0 + 4 ≤ f.offset := by cases f <;> decide
  unfold Msg.scanned at h
  split_ifs at h with hfit
  obtain rfl := Option.some.inj h
  have htake : ((store m.toBytes f.offset (word ++ [0])).drop 0).take 4 = (m.toBytes.drop 0).take 4 :=
    take_drop_store hf (by rw [length_toBytes]; exact f.offset_le)
  rw [List.drop_zero, List.drop_zero] at htake
  have hfirst : m.toBytes.take 4 = leBytes 4 m.action := by
    simp [Msg.toBytes, Msg.fields]
  rw [action_ofBytes, htake, hfirst, leInt_leBytes_int hm]

theorem Msg.typed_set (hm : m.Typed) (a : CharArray f.width) : (m.set f a).Typed := by
  cases f <;> exact ⟨hm.action, hm.sfileId, hm.filesize, hm.count, hm.bs, hm.offset, hm.cfd⟩

/-- A word that fits is a `strcpy` to its field: the record is read back from its bytes. -/
theorem Msg.scanned_of_fits (m : Msg) (h : word.length < f.width) :
    m.scanned f word = some (.ofBytes (m.set f ((m.get f).strcpy word)).toBytes) := by
  obtain ⟨before, after, hlen, hbytes, hset⟩ := m.toBytes_set f
  have hroom : (word ++ [0]).length ≤ (m.get f).bytes.length := by
    rw [CharArray.length_bytes, List.length_append, List.length_singleton]
    exact h
  have hfit : f.offset + (word ++ [0]).length ≤ sizeofMsg := by
    have hall := m.length_toBytes
    rw [hbytes, List.length_append, List.length_append, hlen] at hall
    omega
  have hstore : store m.toBytes f.offset (word ++ [0]) =
      (m.set f ((m.get f).strcpy word)).toBytes := by
    rw [hset, hbytes, ← hlen, store_stretch after hroom, CharArray.strcpy, CharArray.bytes_memcpy]
    rwa [← (m.get f).length_bytes]
  rw [Msg.scanned, if_pos hfit, hstore]

end LinuxCat.Messages
