import LinuxCat.ByteLayouts

/-! # The record `Msg` and its bytes on a connection -/
namespace LinuxCat.Messages
open ByteLayouts

/-- `Msg` of both programs; the two headers declare it alike. -/
structure Msg where
  action : ℤ
  sfileId : ℤ
  filesize : ℤ
  count : ℤ
  bs : ℤ
  offset : ℤ
  cfd : ℤ
  name : CharArray 20
  password : CharArray 20
  toname : CharArray 20
  filename : CharArray 20
  message : CharArray 1024
  nowTime : CharArray 32
  deriving DecidableEq, Repr

/-- A record all of whose bytes are zero. -/
def Msg.zero : Msg where
  action := 0
  sfileId := 0
  filesize := 0
  count := 0
  bs := 0
  offset := 0
  cfd := 0
  name := .zero 20
  password := .zero 20
  toname := .zero 20
  filename := .zero 20
  message := .zero 1024
  nowTime := .zero 32

/-- Six `int` fields and a `long`, then the arrays; no padding falls between them. -/
def Msg.widths : List ℕ := [4, 4, 4, 4, 4, 4, 8, 20, 20, 20, 20, 1024, 32]

def sizeofMsg : ℕ := 1168

theorem sum_widths : Msg.widths.sum = sizeofMsg := by decide

def Msg.fields (m : Msg) : List Bytes :=
  [leBytes 4 m.action, leBytes 4 m.sfileId, leBytes 4 m.filesize, leBytes 4 m.count,
    leBytes 4 m.bs, leBytes 4 m.offset, leBytes 8 m.cfd, m.name.bytes, m.password.bytes,
    m.toname.bytes, m.filename.bytes, m.message.bytes, m.nowTime.bytes]

def Msg.toBytes (m : Msg) : Bytes := m.fields.flatten

/-- The record a buffer of `sizeofMsg` bytes holds. -/
def Msg.ofBytes (bs : Bytes) : Msg :=
  match splitFields Msg.widths bs with
  | [action, sfileId, filesize, count, blk, offset, cfd, name, password, toname, filename,
      message, nowTime] =>
    { action := leInt action
      sfileId := leInt sfileId
      filesize := leInt filesize
      count := leInt count
      bs := leInt blk
      offset := leInt offset
      cfd := leInt cfd
      name := .ofBytes 20 name
      password := .ofBytes 20 password
      toname := .ofBytes 20 toname
      filename := .ofBytes 20 filename
      message := .ofBytes 1024 message
      nowTime := .ofBytes 32 nowTime }
  | _ => .zero

/-- The value fits an `int`. -/
def IsInt (x : ℤ) : Prop := -2 ^ 31 ≤ x ∧ x < 2 ^ 31

def IsLong (x : ℤ) : Prop := -2 ^ 63 ≤ x ∧ x < 2 ^ 63

instance (x : ℤ) : Decidable (IsInt x) := inferInstanceAs (Decidable (_ ∧ _))

instance (x : ℤ) : Decidable (IsLong x) := inferInstanceAs (Decidable (_ ∧ _))

/-- Every numeric field holds a value of its type. -/
structure Msg.Typed (m : Msg) : Prop where
  action : IsInt m.action
  sfileId : IsInt m.sfileId
  filesize : IsInt m.filesize
  count : IsInt m.count
  bs : IsInt m.bs
  offset : IsInt m.offset
  cfd : IsLong m.cfd

theorem leInt_leBytes_int {x : ℤ} (h : IsInt x) : leInt (leBytes 4 x) = x :=
  leInt_leBytes (by have := h.1; norm_num at *; linarith) (by have := h.2; norm_num at *; linarith)

theorem leInt_leBytes_long {x : ℤ} (h : IsLong x) : leInt (leBytes 8 x) = x :=
  leInt_leBytes (by have := h.1; norm_num at *; linarith) (by have := h.2; norm_num at *; linarith)

theorem Msg.map_length_fields (m : Msg) : m.fields.map List.length = Msg.widths := by
  simp [Msg.fields, Msg.widths, CharArray.length_bytes]

@[simp] theorem Msg.length_toBytes (m : Msg) : m.toBytes.length = sizeofMsg := by
  rw [Msg.toBytes, List.length_flatten, m.map_length_fields, sum_widths]

/-- A written record is read back as it was, when a `recv` returns all of it. -/
theorem Msg.ofBytes_toBytes {m : Msg} (h : m.Typed) : Msg.ofBytes m.toBytes = m := by
  have hsplit : splitFields Msg.widths m.toBytes = m.fields := by
    rw [← m.map_length_fields]
    exact splitFields_flatten m.fields
  rw [Msg.ofBytes, hsplit]
  simp only [Msg.fields, leInt_leBytes_int h.action, leInt_leBytes_int h.sfileId,
    leInt_leBytes_int h.filesize, leInt_leBytes_int h.count, leInt_leBytes_int h.bs,
    leInt_leBytes_int h.offset, leInt_leBytes_long h.cfd, CharArray.ofBytes_bytes]

/-- A buffer holds the bytes of the record it is read as. -/
theorem Msg.toBytes_ofBytes {bs : Bytes} (h : bs.length = sizeofMsg) :
    (Msg.ofBytes bs).toBytes = bs := by
  have hsum : Msg.widths.sum = bs.length := sum_widths.trans h.symm
  have hflat := flatten_splitFields Msg.widths bs hsum
  have hlens := map_length_splitFields Msg.widths bs hsum
  obtain ⟨f₁, f₂, f₃, f₄, f₅, f₆, f₇, f₈, f₉, f₁₀, f₁₁, f₁₂, f₁₃, hfs⟩ :
      ∃ f₁ f₂ f₃ f₄ f₅ f₆ f₇ f₈ f₉ f₁₀ f₁₁ f₁₂ f₁₃, splitFields Msg.widths bs =
        [f₁, f₂, f₃, f₄, f₅, f₆, f₇, f₈, f₉, f₁₀, f₁₁, f₁₂, f₁₃] :=
    ⟨_, _, _, _, _, _, _, _, _, _, _, _, _, rfl⟩
  have hle {k : ℕ} {f : Bytes} (hk : f.length = k) : leBytes k (leInt f) = f := by
    subst hk
    exact leBytes_leInt f
  rw [hfs] at hflat hlens
  simp only [List.map_cons, List.map_nil, Msg.widths, List.cons.injEq, and_true] at hlens
  obtain ⟨h₁, h₂, h₃, h₄, h₅, h₆, h₇, h₈, h₉, h₁₀, h₁₁, h₁₂, h₁₃⟩ := hlens
  rw [Msg.ofBytes, hfs]
  simp only [Msg.toBytes, Msg.fields, hle h₁, hle h₂, hle h₃, hle h₄, hle h₅, hle h₆, hle h₇,
    CharArray.ofBytes, pad_of_length h₈, pad_of_length h₉, pad_of_length h₁₀,
    pad_of_length h₁₁, pad_of_length h₁₂, pad_of_length h₁₃]
  exact hflat

/-- The cleared buffer. -/
theorem Msg.ofBytes_zero : Msg.ofBytes (List.replicate sizeofMsg 0) = Msg.zero := by
  have hz (k : ℕ) : CharArray.ofBytes k (List.replicate k 0) = CharArray.zero k := by
    apply CharArray.ext
    simp [CharArray.ofBytes, CharArray.zero, pad]
  rw [Msg.ofBytes, splitFields_replicate _ _ _ sum_widths]
  simp only [Msg.widths, List.map_cons, List.map_nil, leInt_replicate_zero, hz]
  rfl

end LinuxCat.Messages
