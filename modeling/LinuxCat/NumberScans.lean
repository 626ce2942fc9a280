import LinuxCat.DecimalTexts
import LinuxCat.WordScans

/-! # Scanning a number

The conversion `%d` of `scanf`: it skips space, takes a sign and then decimal digits. What does not
belong to the number stays in the text, so that a text that begins with something else is never
read; only a sign is lost. -/
namespace NumberScans
open ByteLayouts DecimalTexts WordScans

/-- A sign and what is behind it. -/
def signed : Bytes → ℤ × Bytes
  | [] => (1, [])
  | b :: cs => if b = 45 then (-1, cs) else if b = 43 then (1, cs) else (1, b :: cs)

variable (space : UInt8 → Bool)

/-- The number that was found, and what is left of the text. -/
def scanNumber (cs : Bytes) : Option ℤ × Bytes :=
  let found := signed (cs.dropWhile space)
  let digits := found.2.takeWhile isDigit
  let rest := found.2.dropWhile isDigit
  if digits.isEmpty then (none, rest) else (some (found.1 * value digits), rest)

variable {space}

theorem scanNumber_cons_space {c : UInt8} (hc : space c = true) (cs : Bytes) :
    scanNumber space (c :: cs) = scanNumber space cs := by
  simp only [scanNumber, List.dropWhile_cons_of_pos hc]

theorem signed_of_digit {b : UInt8} (hb : isDigit b = true) (cs : Bytes) :
    signed (b :: cs) = (1, b :: cs) := by
  have hdigit := isDigit_iff.mp hb
  have h45 : b ≠ 45 := by
    rintro rfl
    exact absurd hdigit.1 (by decide)
  have h43 : b ≠ 43 := by
    rintro rfl
    exact absurd hdigit.1 (by decide)
  rw [signed, if_neg h45, if_neg h43]

/-- A number, and something else or nothing behind it. -/
theorem scanNumber_digits {ds : Bytes} (hds : IsNumber ds) (hspace : ∀ b ∈ ds, space b = false)
    {cs : Bytes} (hcs : ∀ c ∈ cs.head?, isDigit c = false) :
    scanNumber space (ds ++ cs) = (some (value ds : ℤ), cs) := by
  obtain ⟨hne, hall⟩ := hds
  obtain ⟨b, ds, rfl⟩ := List.exists_cons_of_ne_nil hne
  have hhead : ¬ space b = true := by simp [hspace b List.mem_cons_self]
  have hfound : (b :: ds ++ cs).dropWhile space = b :: (ds ++ cs) :=
    List.dropWhile_cons_of_neg hhead
  have htake : cs.takeWhile isDigit = [] ∧ cs.dropWhile isDigit = cs := by
    cases cs with
    | nil => exact ⟨rfl, rfl⟩
    | cons c cs =>
      have hnot : ¬ isDigit c = true := by simp [hcs c rfl]
      exact ⟨List.takeWhile_cons_of_neg hnot, List.dropWhile_cons_of_neg hnot⟩
  simp only [scanNumber, hfound, signed_of_digit (hall b List.mem_cons_self)]
  rw [show b :: (ds ++ cs) = b :: ds ++ cs from rfl, List.takeWhile_append_of_pos hall,
    List.dropWhile_append_of_pos hall, htake.1, htake.2]
  simp

/-- What begins neither with a digit nor with a sign is not read. -/
theorem scanNumber_other {c : UInt8} (hspace : space c = false) (hdigit : isDigit c = false)
    (hminus : c ≠ 45) (hplus : c ≠ 43) (cs : Bytes) :
    scanNumber space (c :: cs) = (none, c :: cs) := by
  have hhead : ¬ space c = true := by simp [hspace]
  have hnot : ¬ isDigit c = true := by simp [hdigit]
  simp only [scanNumber, List.dropWhile_cons_of_neg hhead, signed, if_neg hminus, if_neg hplus,
    List.takeWhile_cons_of_neg hnot, List.dropWhile_cons_of_neg hnot]
  rfl

theorem scanNumber_append_space {gap : Bytes} (hgap : ∀ c ∈ gap, space c = true) (cs : Bytes) :
    scanNumber space (gap ++ cs) = scanNumber space cs := by
  induction gap with
  | nil => rfl
  | cons c gap ih =>
    rw [List.cons_append, scanNumber_cons_space (hgap c List.mem_cons_self)]
    exact ih fun d hd => hgap d (List.mem_cons_of_mem _ hd)

/-! ## Reading a text by its words -/

/-- The first word, if there is one, begins neither with a digit nor with a sign. -/
def NoNumber (ws : List Bytes) : Prop :=
  ∀ w ∈ ws.head?, ∀ b ∈ w.head?, isDigit b = false ∧ b ≠ 45 ∧ b ≠ 43

instance (ws : List Bytes) : Decidable (NoNumber ws) :=
  let digitFree (w : Bytes) : Decidable (∀ b ∈ w.head?, isDigit b = false ∧ b ≠ 45 ∧ b ≠ 43) :=
    Option.decidableForallMem w.head?
  @Option.decidableForallMem _ _ digitFree ws.head?

/-- A word of digits is the number that is found. -/
theorem scanNumber_of_words_cons (hspace : ∀ b, isDigit b = true → space b = false) {cs ds : Bytes}
    {ws : List Bytes} (h : words space cs = ds :: ws) (hds : IsNumber ds) :
    ∃ rest, scanNumber space cs = (some (value ds : ℤ), rest) ∧ words space rest = ws := by
  rcases words_cases space cs with ⟨-, hnil⟩ | ⟨gap, w, rest, rfl, hgap, -, hrest, hwords⟩
  · rw [h] at hnil
    cases hnil
  · rw [h] at hwords
    obtain ⟨rfl, rfl⟩ := List.cons.inj hwords
    refine ⟨rest, ?_, rfl⟩
    have hdigit : ∀ c ∈ rest.head?, isDigit c = false := by
      intro c hc
      by_contra hne
      have hnot := hspace c (by simpa using hne)
      rw [hrest c hc] at hnot
      cases hnot
    rw [scanNumber_append_space hgap, scanNumber_digits hds (fun b hb => hspace b (hds.2 b hb)) hdigit]

/-- Where no number is next, none is found, and no word is lost. -/
theorem scanNumber_of_noNumber {cs : Bytes} (h : NoNumber (words space cs)) :
    ∃ rest, scanNumber space cs = (none, rest) ∧ words space rest = words space cs := by
  rcases words_cases space cs with
    ⟨hspace, hnil⟩ | ⟨gap, w, rest, rfl, hgap, hw, -, hwords⟩
  · refine ⟨[], ?_, by rw [hnil]; rfl⟩
    rw [← List.append_nil cs, scanNumber_append_space hspace]
    rfl
  · obtain ⟨b, w, rfl⟩ := List.exists_cons_of_ne_nil hw.1
    obtain ⟨hdigit, hminus, hplus⟩ := h (b :: w) (by rw [hwords]; rfl) b rfl
    refine ⟨b :: w ++ rest, ?_, ?_⟩
    · rw [scanNumber_append_space hgap]
      exact scanNumber_other (hw.2 b List.mem_cons_self) hdigit hminus hplus _
    · rw [words_append_gap hgap]

end NumberScans
