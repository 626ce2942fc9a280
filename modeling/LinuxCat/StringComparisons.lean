import LinuxCat.ServerModel
import LinuxCat.TerminatedStrings

/-! # The comparison of strings behind every password and name

`my_strcmp` on the memory its pointers lead into, with each character it reads. The loop moves on
before it looks for an end, and looks for the end of the first string only. -/
namespace LinuxCat.StringComparisons
open ByteLayouts Messages TerminatedStrings

/-- A character that is read. -/
inductive Read
  | dest (i : ℕ)
  | src (i : ℕ)
  deriving DecidableEq, Repr

/-- How a comparison ends; `i++` may leave the numbers an `int` has. -/
inductive Ending
  | returned (value : ℤ)
  | overflow
  | running
  deriving DecidableEq, Repr

structure Comparison where
  reads : List Read
  ending : Ending
  deriving DecidableEq, Repr

def Comparison.after (reads : List Read) (c : Comparison) : Comparison :=
  { c with reads := reads ++ c.reads }

/-- The loop of `my_strcmp` at `i`. -/
def myStrcmpLoop (dest src : ℕ → UInt8) : ℕ → ℕ → Comparison
  | 0, _ => ⟨[], .running⟩
  | fuel + 1, i =>
    if dest i = src i then
      if IsInt ((i : ℤ) + 1) then
        let reads : List Read := [.dest i, .src i, .dest (i + 1)]
        if dest (i + 1) = 0 then ⟨reads, .returned 1⟩
        else (myStrcmpLoop dest src fuel (i + 1)).after reads
      else ⟨[.dest i, .src i], .overflow⟩
    else ⟨[.dest i, .src i], .returned 0⟩

/-- `my_strcmp`; what it prints are the two strings. -/
def myStrcmp (dest src : ℕ → UInt8) (fuel : ℕ) : Comparison := myStrcmpLoop dest src fuel 0

/-- The character is not behind the end of its string. -/
def Read.Within (destEnd srcEnd : ℕ) : Read → Prop
  | .dest i => i ≤ destEnd
  | .src i => i ≤ srcEnd

/-- `my_strcmp` ends, reads no character behind a terminator, and returns 1 exactly if the strings
are equal. -/
def DecidesEquality (dest src : ℕ → UInt8) (s t : Bytes) : Prop :=
  ∃ fuel value, (myStrcmp dest src fuel).ending = .returned value ∧
    (∀ r ∈ (myStrcmp dest src fuel).reads, r.Within s.length t.length) ∧ (value = 1 ↔ s = t)

variable {dest src : ℕ → UInt8} {s t : Bytes} {c : UInt8} {fuel i room : ℕ} {value : ℤ}

/-! ## One round -/

theorem isInt_succ_iff : IsInt ((i : ℤ) + 1) ↔ i + 1 < 2 ^ 31 := by
  unfold IsInt
  omega

/-- What a round does at the character `c` that `s` follows. -/
inductive Round (dest src : ℕ → UInt8) (fuel i : ℕ) (c : UInt8) (s t : Bytes) : Comparison → Prop
  | differs (hdiffers : ∀ t', t ≠ c :: t') :
      Round dest src fuel i c s t ⟨[.dest i, .src i], .returned 0⟩
  | overflows (t' : Bytes) (ht : t = c :: t') (hlast : ¬ i + 1 < 2 ^ 31) :
      Round dest src fuel i c s t ⟨[.dest i, .src i], .overflow⟩
  | ends (t' : Bytes) (ht : t = c :: t') (hint : i + 1 < 2 ^ 31) (hs : s = []) :
      Round dest src fuel i c s t ⟨[.dest i, .src i, .dest (i + 1)], .returned 1⟩
  | goesOn (t' : Bytes) (ht : t = c :: t') (hint : i + 1 < 2 ^ 31) (hs : s ≠ [])
      (hsrc : Holds 0 src (i + 1) t') :
      Round dest src fuel i c s t
        ((myStrcmpLoop dest src fuel (i + 1)).after [.dest i, .src i, .dest (i + 1)])

theorem round_of_holds (hdest : Holds 0 dest i (c :: s)) (hsrc : Holds 0 src i t) :
    Round dest src fuel i c s t (myStrcmpLoop dest src (fuel + 1) i) := by
  rw [myStrcmpLoop]
  by_cases hchar : dest i = src i
  · obtain ⟨t', ht, hsrc'⟩ := (hdest.eq_char_iff hsrc).mp hchar
    rw [if_pos hchar]
    by_cases hint : IsInt ((i : ℤ) + 1)
    · have hlt := isInt_succ_iff.mp hint
      rw [if_pos hint]
      by_cases hend : dest (i + 1) = 0
      · rw [if_pos hend]
        exact .ends t' ht hlt (hdest.2.2.eq_terminator_iff.mp hend)
      · rw [if_neg hend]
        exact .goesOn t' ht hlt (fun hs => hend (hdest.2.2.eq_terminator_iff.mpr hs)) hsrc'
    · rw [if_neg hint]
      exact .overflows t' ht (fun hlt => hint (isInt_succ_iff.mpr hlt))
  · rw [if_neg hchar]
    refine .differs ?_
    rintro t' rfl
    exact hchar (hdest.1.trans hsrc.1.symm)

/-! ## The loop from a character on -/

/-- A comparison that returns has read within both strings and met no common beginning that fills
the room its index has, and it returns 1 if the first string is a beginning of the second. -/
theorem returned_spec (hdest : Holds 0 dest i s) (hsrc : Holds 0 src i t) (hne : s ≠ [])
    (hroom : i + room = 2 ^ 31) (hpos : 0 < room)
    (h : (myStrcmpLoop dest src fuel i).ending = .returned value) :
    ¬ Alike room s t ∧
      (∀ r ∈ (myStrcmpLoop dest src fuel i).reads, r.Within (i + s.length) (i + t.length)) ∧
      (value = 1 ↔ s <+: t) := by
  induction s generalizing i t fuel room with
  | nil => exact absurd rfl hne
  | cons c s ih =>
    obtain _ | fuel := fuel
    · cases h
    obtain _ | room := room
    · cases hpos
    have hround : Round dest src fuel i c s t (myStrcmpLoop dest src (fuel + 1) i) :=
      round_of_holds hdest hsrc
    generalize myStrcmpLoop dest src (fuel + 1) i = r at hround h ⊢
    cases hround with
    | differs hdiffers =>
      cases h
      refine ⟨fun halike => ?_, by simp [Read.Within], iff_of_false (by decide) ?_⟩
      · obtain ⟨t', ht⟩ := halike.exists_cons
        exact hdiffers t' ht
      · rintro ⟨rest, ht⟩
        exact hdiffers (s ++ rest) ht.symm
    | overflows => cases h
    | ends t' ht hint hs =>
      cases h
      subst ht hs
      refine ⟨?_, by simp [Read.Within], iff_of_true rfl ⟨t', rfl⟩⟩
      rw [alike_cons_succ]
      rintro ⟨hlen, -⟩
      rw [List.length_nil] at hlen
      omega
    | goesOn t' ht hint hs hsrc' =>
      subst ht
      obtain ⟨hlike, hreads, hvalue⟩ := ih hdest.2.2 hsrc' hs (show i + 1 + room = 2 ^ 31 by omega)
        (by omega) h
      rw [alike_cons_succ, List.cons_prefix_cons, and_iff_right rfl]
      refine ⟨hlike, fun r hr => ?_, hvalue⟩
      rcases List.mem_append.mp hr with hfirst | hrest
      · simp only [List.mem_cons, List.not_mem_nil, or_false] at hfirst
        rcases hfirst with rfl | rfl | rfl <;> simp only [Read.Within, List.length_cons] <;> omega
      · have hlen : i + 1 + s.length = i + (c :: s).length ∧
            i + 1 + t'.length = i + (c :: t').length := by
          simp only [List.length_cons]
          omega
        rw [← hlen.1, ← hlen.2]
        exact hreads r hrest

/-- Without such a common beginning the loop ends. -/
theorem exists_returned (hdest : Holds 0 dest i s) (hsrc : Holds 0 src i t) (hne : s ≠ [])
    (hroom : i + room = 2 ^ 31) (hlike : ¬ Alike room s t) (hfuel : s.length ≤ fuel) :
    ∃ value, (myStrcmpLoop dest src fuel i).ending = .returned value := by
  induction s generalizing i t fuel room with
  | nil => exact absurd rfl hne
  | cons c s ih =>
    obtain _ | fuel := fuel
    · cases hfuel
    have hround : Round dest src fuel i c s t (myStrcmpLoop dest src (fuel + 1) i) :=
      round_of_holds hdest hsrc
    generalize myStrcmpLoop dest src (fuel + 1) i = r at hround ⊢
    cases hround with
    | differs => exact ⟨0, rfl⟩
    | overflows t' ht hlast =>
      subst ht
      obtain _ | room := room
      · exact absurd (alike_zero _ _) hlike
      · obtain rfl : room = 0 := by omega
        exact absurd (alike_cons_succ.mpr (alike_zero _ _)) hlike
    | ends => exact ⟨1, rfl⟩
    | goesOn t' ht hint hs hsrc' =>
      subst ht
      obtain _ | room := room
      · omega
      rw [alike_cons_succ] at hlike
      exact ih hdest.2.2 hsrc' hs (by omega) hlike (Nat.le_of_succ_le_succ hfuel)

/-! ## Arrays -/

theorem headD_drop (bs : Bytes) (i : ℕ) : (bs.drop i).headD 0 = bs.getD i 0 := by
  rw [List.headD_eq_head?_getD, List.head?_drop, List.getD_eq_getElem?_getD]

/-- On arrays behind which a byte reads as zero, the loop returns what the comparison of arrays
does. -/
theorem loop_returned {dest : Bytes} (src : Bytes) (hlen : dest.length + 1 < 2 ^ 31) {rest : Bytes}
    (hrest : dest.drop i = rest) (hi : i ≤ dest.length) :
    (myStrcmpLoop (fun i => dest.getD i 0) (fun i => src.getD i 0) (rest.length + 1) i).ending =
      .returned (ServerModel.myStrcmp rest (src.drop i)) := by
  induction rest generalizing i with
  | nil =>
    have hint : IsInt ((i : ℤ) + 1) := isInt_succ_iff.mpr (by omega)
    have hend : dest.length ≤ i := List.drop_eq_nil_iff.mp hrest
    have hzero : dest.getD i 0 = 0 := by simp [hend]
    have hnext : dest.getD (i + 1) 0 = 0 := by simp [Nat.le_succ_of_le hend]
    rw [myStrcmpLoop, ServerModel.myStrcmp, headD_drop]
    simp only [hzero, hnext, if_pos hint, if_true, eq_comm (a := (0 : UInt8))]
    split_ifs <;> rfl
  | cons d rest ih =>
    have hint : IsInt ((i : ℤ) + 1) := isInt_succ_iff.mpr (by omega)
    have hchar : dest.getD i 0 = d := by rw [← headD_drop, hrest, List.headD_cons]
    have htail : dest.drop (i + 1) = rest := by rw [← List.tail_drop, hrest, List.tail_cons]
    have hnext : dest.getD (i + 1) 0 = rest.headD 0 := by rw [← headD_drop, htail]
    have hlt : i < dest.length := by
      by_contra hge
      rw [List.drop_eq_nil_of_le (Nat.le_of_not_lt hge)] at hrest
      cases hrest
    rw [List.length_cons, myStrcmpLoop, ServerModel.myStrcmp, headD_drop, List.tail_drop]
    simp only [hchar, hnext, if_pos hint]
    split_ifs with hsame hend
    · rfl
    · exact ih htail hlt
    · rfl

theorem myStrcmp_returned (dest src : Bytes) (hlen : dest.length + 1 < 2 ^ 31) :
    (myStrcmp (fun i => dest.getD i 0) (fun i => src.getD i 0) (dest.length + 1)).ending =
      .returned (ServerModel.myStrcmp dest src) :=
  loop_returned src hlen rfl (Nat.zero_le _)

theorem holds_cstr (bs : Bytes) : Holds 0 (fun i => bs.getD i 0) 0 (cstr bs) :=
  holds_takeWhile 0 bs 0

theorem Read.Within.mono {r : Read} {m n m' n' : ℕ} (h : r.Within m n) (hm : m ≤ m') (hn : n ≤ n') :
    r.Within m' n' := by
  cases r with
  | dest i => exact Nat.le_trans h hm
  | src i => exact Nat.le_trans h hn

theorem loop_of_ne (hchar : dest i ≠ src i) :
    myStrcmpLoop dest src (fuel + 1) i = ⟨[.dest i, .src i], .returned 0⟩ := by
  rw [myStrcmpLoop, if_neg hchar]

/-- Two buffers with a string in each, the second not empty, are compared without a read outside of
them. -/
theorem buffers_compared {n : ℕ} (dest src : CharArray n) (hn : n + 1 < 2 ^ 31)
    (hdest : 0 ∈ dest.bytes) (hsrc : 0 ∈ src.bytes) (hne : src.str ≠ []) :
    (myStrcmp (fun i => dest.bytes.getD i 0) (fun i => src.bytes.getD i 0) (n + 1)).ending =
        .returned (ServerModel.myStrcmp dest.bytes src.bytes) ∧
      ∀ r ∈ (myStrcmp (fun i => dest.bytes.getD i 0) (fun i => src.bytes.getD i 0) (n + 1)).reads,
        r.Within (n - 1) (n - 1) := by
  have hend := myStrcmp_returned dest.bytes src.bytes (by rwa [dest.length_bytes])
  rw [dest.length_bytes] at hend
  refine ⟨hend, fun r hr => ?_⟩
  by_cases hempty : dest.str = []
  · have hzero : dest.bytes.getD 0 0 = 0 := (holds_cstr dest.bytes).eq_terminator_iff.mpr hempty
    have hchar : src.bytes.getD 0 0 ≠ 0 := mt (holds_cstr src.bytes).eq_terminator_iff.mp hne
    rw [myStrcmp, loop_of_ne (by rw [hzero]; exact hchar.symm)] at hr
    simp only [List.mem_cons, List.not_mem_nil, or_false] at hr
    rcases hr with rfl | rfl <;> exact Nat.zero_le _
  · have hreads := (returned_spec (holds_cstr dest.bytes) (holds_cstr src.bytes) hempty
      (Nat.zero_add _) (by decide) hend).2.1 r hr
    have hlen : (cstr dest.bytes).length < n := CharArray.length_str_lt hdest
    have hlen' : (cstr src.bytes).length < n := CharArray.length_str_lt hsrc
    exact hreads.mono (by omega) (by omega)

/-! ## Equality -/

/-- The loop moves on from the two terminators. -/
theorem empty_reads (hdest : dest 0 = 0) (hsrc : src 0 = 0) :
    .dest 1 ∈ (myStrcmp dest src (fuel + 1)).reads := by
  have hint : IsInt (((0 : ℕ) : ℤ) + 1) := by decide
  rw [myStrcmp, myStrcmpLoop, if_pos (hdest.trans hsrc.symm), if_pos hint]
  dsimp only
  split_ifs <;> simp [Comparison.after]

/-- `my_strcmp` decides equality except for two empty strings, for a string and a nonempty proper
beginning of it, and where an `int` cannot count the characters that are the same. -/
theorem myStrcmp_decides_iff (hdest : Holds 0 dest 0 s) (hsrc : Holds 0 src 0 t) :
    DecidesEquality dest src s t ↔
      ¬ (s = [] ∧ t = []) ∧ ¬ (s ≠ [] ∧ s <+: t ∧ s ≠ t) ∧ ¬ Alike (2 ^ 31) s t := by
  have hroom : 0 + 2 ^ 31 = 2 ^ 31 := Nat.zero_add _
  by_cases hs : s = []
  · subst hs
    have hlike : ¬ Alike (2 ^ 31) [] t := fun h => absurd h.1 (by decide)
    constructor
    · rintro ⟨fuel, value, hend, hreads, -⟩
      refine ⟨?_, fun h => h.1 rfl, hlike⟩
      rintro ⟨-, rfl⟩
      obtain _ | fuel := fuel
      · cases hend
      · exact absurd (hreads _ (empty_reads hdest hsrc)) (by simp [Read.Within])
    · rintro ⟨hne, -⟩
      have hchar : dest 0 ≠ src 0 := by
        rw [show dest 0 = 0 from hdest]
        exact fun h => hne ⟨rfl, hsrc.eq_terminator_iff.mp h.symm⟩
      refine ⟨1, 0, ?_⟩
      rw [myStrcmp, loop_of_ne hchar]
      refine ⟨rfl, by simp [Read.Within], iff_of_false (by decide) ?_⟩
      exact fun h => hne ⟨rfl, h.symm⟩
  · constructor
    · rintro ⟨fuel, value, hend, -, hvalue⟩
      obtain ⟨hlike, -, hvalue'⟩ := returned_spec hdest hsrc hs hroom (by decide) hend
      refine ⟨fun h => hs h.1, ?_, hlike⟩
      rintro ⟨-, hbegins, hne⟩
      exact hne (hvalue.mp (hvalue'.mpr hbegins))
    · rintro ⟨-, hproper, hlike⟩
      obtain ⟨value, hend⟩ := exists_returned hdest hsrc hs hroom hlike (Nat.le_refl _)
      obtain ⟨-, hreads, hvalue'⟩ := returned_spec hdest hsrc hs hroom (by decide) hend
      refine ⟨s.length, value, hend, ?_, hvalue'.trans ⟨fun hbegins => ?_, ?_⟩⟩
      · rw [Nat.zero_add, Nat.zero_add] at hreads
        exact hreads
      · by_contra hne
        exact hproper ⟨hs, hbegins, hne⟩
      · rintro rfl
        exact List.prefix_rfl

/-- The string 12 in a memory that goes on behind it. -/
def twelve (i : ℕ) : UInt8 := [49, 50, 0, 51].getD i 7

/-- Its first character in the same memory. -/
def one (i : ℕ) : UInt8 := [49, 0, 50].getD i 7

theorem twelve_decided : DecidesEquality twelve twelve [49, 50] [49, 50] :=
  (myStrcmp_decides_iff (by decide) (by decide)).mpr (by decide)

theorem one_taken_for_twelve : ¬ DecidesEquality one twelve [49] [49, 50] := by
  rintro ⟨fuel, value, hend, -, hvalue⟩
  have hdest : Holds 0 one 0 [49] := by decide
  have hsrc : Holds 0 twelve 0 [49, 50] := by decide
  have hroom : 0 + 2 ^ 31 = 2 ^ 31 := Nat.zero_add _
  obtain ⟨-, -, hvalue'⟩ := returned_spec hdest hsrc (by decide) hroom (by decide) hend
  exact absurd (hvalue.mp (hvalue'.mpr ⟨[50], rfl⟩)) (by decide)

end LinuxCat.StringComparisons
