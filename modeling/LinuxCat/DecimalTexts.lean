import LinuxCat.ByteLayouts
import Mathlib.Data.Nat.Digits.Defs
import Mathlib.Data.Nat.Digits.Lemmas

/-! # Decimal numbers as texts

A run of decimal digits has a value, and a number has one canonical text. The text of the value
is the run itself exactly if the run has no leading zero. -/
namespace DecimalTexts
open ByteLayouts

def isDigit (b : UInt8) : Bool := 48 ≤ b ∧ b ≤ 57

/-- A run of at least one digit. -/
def IsNumber (bs : Bytes) : Prop := bs ≠ [] ∧ ∀ b ∈ bs, isDigit b = true

instance (bs : Bytes) : Decidable (IsNumber bs) := inferInstanceAs (Decidable (_ ∧ _))

def digit (b : UInt8) : ℕ := b.toNat - 48

def value (bs : Bytes) : ℕ := Nat.ofDigits 10 (bs.reverse.map digit)

/-- The canonical text. -/
def decimal (n : ℕ) : Bytes :=
  if n = 0 then [48] else ((Nat.digits 10 n).map (fun d => UInt8.ofNat (48 + d))).reverse

theorem isDigit_iff {b : UInt8} : isDigit b = true ↔ 48 ≤ b.toNat ∧ b.toNat ≤ 57 := by
  simp [isDigit, UInt8.le_iff_toNat_le]

theorem digit_lt {b : UInt8} (h : isDigit b = true) : digit b < 10 := by
  have := isDigit_iff.mp h
  simp only [digit]
  omega

theorem ofNat_digit {b : UInt8} (h : isDigit b = true) : UInt8.ofNat (48 + digit b) = b := by
  have := isDigit_iff.mp h
  rw [digit, Nat.add_sub_cancel' this.1, UInt8.ofNat_toNat]

theorem digit_eq_zero {b : UInt8} (h : isDigit b = true) : digit b = 0 ↔ b = 48 := by
  constructor
  · intro hz
    rw [← ofNat_digit h, hz]
    rfl
  · rintro rfl
    rfl

/-- The text of the value of a run without a leading zero. -/
theorem decimal_value {b : UInt8} {bs : Bytes} (h : IsNumber (b :: bs)) (hb : b ≠ 48) :
    decimal (value (b :: bs)) = b :: bs := by
  have hdigits : Nat.digits 10 (value (b :: bs)) = (b :: bs).reverse.map digit := by
    refine Nat.digits_ofDigits 10 (by norm_num) _ (fun d hd => ?_) (fun hne => ?_)
    · obtain ⟨c, hc, rfl⟩ := List.mem_map.mp hd
      exact digit_lt (h.2 c (List.mem_reverse.mp hc))
    · simpa using fun hz => hb ((digit_eq_zero (h.2 b List.mem_cons_self)).mp hz)
  have hne : value (b :: bs) ≠ 0 := by
    intro hz
    rw [hz] at hdigits
    simp at hdigits
  rw [decimal, if_neg hne, hdigits, List.map_map, List.map_reverse, List.reverse_reverse]
  conv_rhs => rw [← List.map_id (b :: bs)]
  exact List.map_congr_left fun c hc => ofNat_digit (h.2 c hc)

theorem value_zeros (n : ℕ) : value (List.replicate n 48) = 0 := by
  rw [value, List.reverse_replicate, List.map_replicate]
  exact Nat.ofDigits_replicate_zero

theorem value_eq_zero {bs : Bytes} (h : ∀ b ∈ bs, isDigit b = true) (hz : value bs = 0) :
    ∀ b ∈ bs, b = 48 := by
  intro b hb
  have hmem : digit b ∈ bs.reverse.map digit :=
    List.mem_map_of_mem (List.mem_reverse.mpr hb)
  exact (digit_eq_zero (h b hb)).mp (Nat.digits_zero_of_eq_zero (by norm_num) hz _ hmem)

/-- A canonical text begins with a zero only if it is that of zero. -/
theorem head_decimal {n : ℕ} (h : n ≠ 0) : (decimal n).head? ≠ some 48 := by
  have hne : Nat.digits 10 n ≠ [] := Nat.digits_ne_nil_iff_ne_zero.mpr h
  have hlast := Nat.getLast_digit_ne_zero 10 h
  have hlt : (Nat.digits 10 n).getLast hne < 10 :=
    Nat.digits_lt_base (by norm_num) (List.getLast_mem hne)
  rw [decimal, if_neg h, List.head?_reverse, List.getLast?_map, List.getLast?_eq_getLast_of_ne_nil hne]
  intro heq
  have hbyte := congrArg UInt8.toNat (Option.some.inj heq)
  simp only [UInt8.toNat_ofNat', UInt8.reduceToNat] at hbyte
  omega

theorem decimal_ne_nil (n : ℕ) : decimal n ≠ [] := by
  unfold decimal
  split_ifs with h
  · simp
  · simpa using Nat.digits_ne_nil_iff_ne_zero.mpr h

theorem isDigit_of_mem_decimal {n : ℕ} {b : UInt8} (h : b ∈ decimal n) : isDigit b = true := by
  unfold decimal at h
  split_ifs at h
  · rw [List.mem_singleton.mp h]
    rfl
  · obtain ⟨d, hd, rfl⟩ := List.mem_map.mp (List.mem_reverse.mp h)
    have hlt : d < 10 := Nat.digits_lt_base (by norm_num) hd
    rw [isDigit_iff, UInt8.toNat_ofNat']
    omega

theorem value_decimal (n : ℕ) : value (decimal n) = n := by
  by_cases h : n = 0
  · subst h
    decide
  · have hdigit : ∀ d ∈ Nat.digits 10 n, digit (UInt8.ofNat (48 + d)) = d := by
      intro d hd
      have hlt := Nat.digits_lt_base (by norm_num : 1 < 10) hd
      rw [digit, UInt8.toNat_ofNat_of_lt' (by simp [UInt8.size]; omega)]
      omega
    have hmap : (Nat.digits 10 n).map (digit ∘ fun d => UInt8.ofNat (48 + d)) = Nat.digits 10 n :=
      (List.map_congr_left hdigit).trans (List.map_id _)
    rw [value, decimal, if_neg h, List.reverse_reverse, List.map_map, hmap]
    exact Nat.ofDigits_digits 10 n

theorem length_decimal_value_le {bs : Bytes} (h : IsNumber bs) :
    (decimal (value bs)).length ≤ bs.length := by
  have hlt : value bs < 10 ^ bs.length := by
    have := Nat.ofDigits_lt_base_pow_length (b := 10) (l := bs.reverse.map digit) (by norm_num) ?_
    · simpa [value] using this
    · intro d hd
      obtain ⟨b, hb, rfl⟩ := List.mem_map.mp hd
      exact digit_lt (h.2 b (List.mem_reverse.mp hb))
  unfold decimal
  split_ifs
  · exact List.length_pos_iff.mpr h.1
  · rw [List.length_reverse, List.length_map]
    exact (Nat.digits_length_le_iff (by norm_num) (value bs)).mpr hlt

/-- The text of the value is the beginning of the run exactly if the run has no leading zero, or
nothing but zeros. -/
theorem decimal_value_prefix_iff {bs : Bytes} (h : IsNumber bs) :
    decimal (value bs) <+: bs ↔ bs.head? ≠ some 48 ∨ ∀ b ∈ bs, b = 48 := by
  obtain ⟨hne, hdigits⟩ := h
  cases bs with
  | nil => exact absurd rfl hne
  | cons b bs =>
    by_cases hb : b = 48
    · subst hb
      by_cases hz : value (48 :: bs) = 0
      · refine iff_of_true ?_ (.inr (value_eq_zero hdigits hz))
        rw [hz]
        exact ⟨bs, rfl⟩
      · refine iff_of_false (fun hprefix => ?_) (fun h => ?_)
        · obtain ⟨rest, hrest⟩ := hprefix
          cases htext : decimal (value (48 :: bs)) with
          | nil => exact decimal_ne_nil _ htext
          | cons c cs =>
            rw [htext] at hrest
            have hhead := head_decimal hz
            rw [htext, List.head?_cons, (List.cons.inj hrest).1] at hhead
            exact hhead rfl
        · rcases h with h | h
          · exact h rfl
          · have hzeros := List.eq_replicate_of_mem h
            exact hz (by rw [hzeros]; exact value_zeros _)
    · refine iff_of_true ?_ (.inl (by simpa using hb))
      rw [decimal_value ⟨hne, hdigits⟩ hb]

end DecimalTexts
