import Mathlib.Algebra.Order.Group.Int
import Mathlib.Tactic.Ring
import Mathlib.Tactic.Linarith
import Mathlib.Data.List.Basic

/-! # Fixed layouts of bytes

Two's complement integers in little-endian order, character arrays that carry their
width, and records cut into consecutive fields. -/
namespace ByteLayouts

abbrev Bytes := List UInt8

/-- The `k` low bytes of `x` in two's complement, the least significant first. -/
def leBytes : ℕ → ℤ → Bytes
  | 0, _ => []
  | k + 1, x => UInt8.ofNat (x % 256).toNat :: leBytes k (x / 256)

def leNat : Bytes → ℕ
  | [] => 0
  | b :: bs => b.toNat + 256 * leNat bs

def leInt (bs : Bytes) : ℤ :=
  if 2 * leNat bs < 256 ^ bs.length then (leNat bs : ℤ) else leNat bs - 256 ^ bs.length

@[simp] theorem length_leBytes (k : ℕ) (x : ℤ) : (leBytes k x).length = k := by
  induction k generalizing x with
  | zero => rfl
  | succ k ih => simp [leBytes, ih]

theorem leNat_leBytes (k : ℕ) (x : ℤ) : (leNat (leBytes k x) : ℤ) = x % 256 ^ k := by
  induction k generalizing x with
  | zero => simp [leBytes, leNat]
  | succ k ih =>
    have hbyte : ((UInt8.ofNat (x % 256).toNat).toNat : ℤ) = x % 256 := by
      rw [UInt8.toNat_ofNat']
      omega
    have hsplit : x % 256 ^ (k + 1) = x % 256 + 256 * (x / 256 % 256 ^ k) := by
      rw [pow_succ', Int.emod_def x (256 * 256 ^ k), ← Int.ediv_ediv_of_nonneg (by norm_num),
        Int.emod_def x 256, Int.emod_def (x / 256)]
      ring
    simp only [leBytes, leNat, Nat.cast_add, Nat.cast_mul, Nat.cast_ofNat, hbyte, ih, hsplit]

/-- An integer that fits `k` bytes is read back from them. -/
theorem leInt_leBytes {k : ℕ} {x : ℤ} (hlow : -(256 ^ k) ≤ 2 * x) (hhigh : 2 * x < 256 ^ k) :
    leInt (leBytes k x) = x := by
  have hnat := leNat_leBytes k x
  have hpos : (0 : ℤ) < 256 ^ k := by positivity
  have hcast : (2 * leNat (leBytes k x) < 256 ^ (leBytes k x).length) ↔
      2 * (x % 256 ^ k) < 256 ^ k := by
    rw [length_leBytes, ← hnat]
    norm_cast
  unfold leInt
  rw [length_leBytes] at *
  by_cases hx : 0 ≤ x
  · have hmod : x % 256 ^ k = x := Int.emod_eq_of_lt hx (by linarith)
    rw [if_pos (hcast.mpr (by rw [hmod]; exact hhigh)), hnat, hmod]
  · have hmod : x % 256 ^ k = x + 256 ^ k := by
      rw [← Int.add_emod_right]
      exact Int.emod_eq_of_lt (by linarith) (by linarith)
    rw [if_neg (fun hc => ?_), hnat, hmod]
    · ring
    · have := hcast.mp hc
      rw [hmod] at this
      linarith

theorem leBytes_leNat (bs : Bytes) : leBytes bs.length (leNat bs) = bs := by
  induction bs with
  | nil => rfl
  | cons b bs ih =>
    have hb := b.toNat_lt
    have hmod : ((leNat (b :: bs) : ℤ) % 256).toNat = b.toNat := by
      simp only [leNat]
      omega
    have hdiv : (leNat (b :: bs) : ℤ) / 256 = leNat bs := by
      simp only [leNat]
      omega
    rw [List.length_cons, leBytes, hmod, hdiv, ih, UInt8.ofNat_toNat]

/-- Only the residue of an integer shows in its low bytes. -/
theorem leBytes_add_mul (k : ℕ) (x j : ℤ) : leBytes k (x + 256 ^ k * j) = leBytes k x := by
  induction k generalizing x with
  | zero => rfl
  | succ k ih =>
    have hmul : (256 : ℤ) ^ (k + 1) * j = 256 * (256 ^ k * j) := by ring
    rw [leBytes, leBytes, hmul, Int.add_mul_emod_self_left,
      Int.add_mul_ediv_left _ _ (by norm_num), ih]

/-- Bytes are those of the integer they hold. -/
theorem leBytes_leInt (bs : Bytes) : leBytes bs.length (leInt bs) = bs := by
  unfold leInt
  split_ifs
  · exact leBytes_leNat bs
  · have h := leBytes_add_mul bs.length (leNat bs) (-1)
    rw [mul_neg_one, ← sub_eq_add_neg] at h
    rw [h, leBytes_leNat]

theorem leInt_replicate_zero (k : ℕ) : leInt (List.replicate k 0) = 0 := by
  have hz : leNat (List.replicate k 0) = 0 := by
    induction k with
    | zero => rfl
    | succ k ih => simp [List.replicate_succ, leNat, ih]
  simp [leInt, hz]

/-- Cut to `n` bytes, or fill up with zeros. -/
def pad (n : ℕ) (bs : Bytes) : Bytes := bs.take n ++ List.replicate (n - bs.length) 0

@[simp] theorem length_pad (n : ℕ) (bs : Bytes) : (pad n bs).length = n := by
  simp only [pad, List.length_append, List.length_take, List.length_replicate]
  omega

theorem pad_of_length {n : ℕ} {bs : Bytes} (h : bs.length = n) : pad n bs = bs := by
  simp [pad, ← h]

/-- The C string at the start of a character array. -/
def cstr (bs : Bytes) : Bytes := bs.takeWhile (· ≠ 0)

theorem cstr_cons (b : UInt8) (bs : Bytes) :
    cstr (b :: bs) = if b = 0 then [] else b :: cstr bs := by
  by_cases hb : b = 0 <;> simp [cstr, hb]

theorem cstr_eq_nil_iff {bs : Bytes} : cstr bs = [] ↔ bs.headD 0 = 0 := by
  cases bs with
  | nil => simp [cstr]
  | cons b bs =>
    rw [cstr_cons, List.headD_cons]
    split_ifs with hb <;> simp [hb]

theorem take_pad {k n : ℕ} (h : k ≤ n) (bs : Bytes) : (pad n bs).take k = pad k bs := by
  simp only [pad, List.take_append, List.take_take, List.take_replicate, List.length_take]
  congr 2 <;> omega

theorem pad_append {n : ℕ} {s : Bytes} (h : s.length ≤ n) (rest : Bytes) :
    pad n (s ++ rest) = s ++ pad (n - s.length) rest := by
  rw [pad, List.take_append, List.take_of_length_le h, List.append_assoc, pad, List.length_append,
    Nat.sub_add_eq]

/-- A string goes on until there is a zero. -/
theorem cstr_append_of_notMem {s : Bytes} (hz : 0 ∉ s) (rest : Bytes) :
    cstr (s ++ rest) = s ++ cstr rest := by
  refine List.takeWhile_append_of_pos fun b hb => ?_
  simpa using fun h : b = 0 => hz (h ▸ hb)

theorem cstr_of_notMem {s : Bytes} (hz : 0 ∉ s) : cstr s = s := by
  have h := cstr_append_of_notMem hz []
  rwa [show cstr [] = [] from rfl, List.append_nil] at h

/-- What lies behind a terminator does not count. -/
theorem cstr_pad_append {n : ℕ} {s : Bytes} (rest : Bytes) (hlen : s.length ≤ n) (hz : 0 ∉ s)
    (hrest : rest.headD 0 = 0) : cstr (pad n (s ++ rest)) = s := by
  have hnil : cstr (pad (n - s.length) rest) = [] := by
    rw [cstr_eq_nil_iff]
    cases rest with
    | nil => cases n - s.length <;> simp [pad, List.replicate_succ]
    | cons b rest =>
      obtain rfl : b = 0 := hrest
      cases n - s.length <;> simp [pad]
  rw [pad_append hlen, cstr_append_of_notMem hz, hnil, List.append_nil]

theorem length_cstr_le (bs : Bytes) : (cstr bs).length ≤ bs.length :=
  (List.takeWhile_sublist _).length_le

theorem zero_notMem_cstr (bs : Bytes) : 0 ∉ cstr bs := by
  intro h
  simpa using List.all_eq_true.mp (List.all_takeWhile (l := bs) (p := fun b => decide (b ≠ 0))) 0 h

/-- A `char` array of `n` bytes. -/
structure CharArray (n : ℕ) where
  bytes : Bytes
  length_bytes : bytes.length = n
  deriving DecidableEq, Repr

namespace CharArray

variable {n : ℕ}

@[ext] theorem ext {a b : CharArray n} (h : a.bytes = b.bytes) : a = b := by
  cases a
  cases b
  congr

def ofBytes (n : ℕ) (bs : Bytes) : CharArray n := ⟨pad n bs, length_pad n bs⟩

theorem ofBytes_bytes (a : CharArray n) : ofBytes n a.bytes = a :=
  ext (pad_of_length a.length_bytes)

def zero (n : ℕ) : CharArray n := ofBytes n []

/-- The string the array holds. One without a terminator goes on behind the array in C and ends
with it here, so what is said about strings is about those that end within their arrays. -/
def str (a : CharArray n) : Bytes := cstr a.bytes

theorem length_str_le (a : CharArray n) : a.str.length ≤ n :=
  (length_cstr_le a.bytes).trans a.length_bytes.le

/-- `memcpy(a, bs, bs.length)`; what would fall behind the array is dropped. -/
def memcpy (a : CharArray n) (bs : Bytes) : CharArray n := ofBytes n (bs ++ a.bytes.drop bs.length)

/-- `strcpy(a, s)`: the string and its terminator. -/
def strcpy (a : CharArray n) (s : Bytes) : CharArray n := a.memcpy (s ++ [0])

theorem bytes_memcpy (a : CharArray n) {s : Bytes} (hs : s.length ≤ n) :
    (a.memcpy s).bytes = s ++ a.bytes.drop s.length := by
  refine pad_of_length ?_
  rw [List.length_append, List.length_drop, a.length_bytes]
  omega

/-- The bytes behind a copied string stay, and go on with it. -/
theorem str_memcpy (a : CharArray n) {s : Bytes} (hs : s.length ≤ n) (hz : 0 ∉ s) :
    (a.memcpy s).str = s ++ cstr (a.bytes.drop s.length) := by
  rw [str, bytes_memcpy a hs, cstr_append_of_notMem hz]

/-- A string that is shorter than its array ends inside it. -/
theorem zero_mem_bytes {a : CharArray n} (h : a.str.length < n) : 0 ∈ a.bytes := by
  by_contra hz
  rw [str, cstr_of_notMem hz, a.length_bytes] at h
  exact lt_irrefl n h

/-- The string of an array with a zero in it ends before the array does. -/
theorem length_str_lt {a : CharArray n} (hz : 0 ∈ a.bytes) : a.str.length < n := by
  refine lt_of_le_of_ne a.length_str_le fun hlen => ?_
  have hall : cstr a.bytes = a.bytes :=
    (List.takeWhile_sublist _).eq_of_length (hlen.trans a.length_bytes.symm)
  exact zero_notMem_cstr a.bytes (hall.symm ▸ hz)

theorem str_strcpy_of (a : CharArray n) {s : Bytes} (hlen : s.length ≤ n) (hz : 0 ∉ s) :
    (a.strcpy s).str = s := by
  rw [strcpy, memcpy, str, ofBytes, List.append_assoc]
  exact cstr_pad_append _ hlen hz rfl

/-- A string copied between arrays of one width. -/
theorem str_strcpy (a b : CharArray n) : (a.strcpy b.str).str = b.str :=
  a.str_strcpy_of b.length_str_le (zero_notMem_cstr b.bytes)

theorem str_ofBytes {s : Bytes} (hlen : s.length ≤ n) (hz : 0 ∉ s) : (ofBytes n s).str = s := by
  have h := cstr_pad_append [] hlen hz rfl
  rwa [List.append_nil] at h

end CharArray

/-- Cut a record into fields of the given widths. -/
def splitFields : List ℕ → Bytes → List Bytes
  | [], _ => []
  | n :: ns, bs => bs.take n :: splitFields ns (bs.drop n)

theorem splitFields_flatten (fs : List Bytes) :
    splitFields (fs.map List.length) fs.flatten = fs := by
  induction fs with
  | nil => rfl
  | cons f fs ih => simp [splitFields, ih]

theorem flatten_splitFields (ns : List ℕ) (bs : Bytes) (h : ns.sum = bs.length) :
    (splitFields ns bs).flatten = bs := by
  induction ns generalizing bs with
  | nil => simpa [splitFields, eq_comm] using h
  | cons n ns ih =>
    rw [List.sum_cons] at h
    rw [splitFields, List.flatten_cons, ih _ (by simp; omega), List.take_append_drop]

theorem map_length_splitFields (ns : List ℕ) (bs : Bytes) (h : ns.sum = bs.length) :
    (splitFields ns bs).map List.length = ns := by
  induction ns generalizing bs with
  | nil => rfl
  | cons n ns ih =>
    rw [List.sum_cons] at h
    rw [splitFields, List.map_cons, ih _ (by simp; omega), List.length_take_of_le (by omega)]

theorem splitFields_replicate (ns : List ℕ) (n : ℕ) (b : UInt8) (h : ns.sum = n) :
    splitFields ns (List.replicate n b) = ns.map (fun k => List.replicate k b) := by
  induction ns generalizing n with
  | nil => rfl
  | cons k ns ih =>
    rw [List.sum_cons] at h
    rw [splitFields, List.take_replicate, List.drop_replicate, ih _ (by omega), List.map_cons,
      Nat.min_eq_left (by omega)]

end ByteLayouts
