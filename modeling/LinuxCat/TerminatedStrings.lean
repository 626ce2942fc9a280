import Mathlib.Data.List.Basic
import Mathlib.Tactic.Common

/-! # Strings that end with a terminator

What a memory holds from a place on, up to the first terminator and with it. Nothing is said of
the places behind. -/
namespace TerminatedStrings

variable {α : Type*} {z c : α} {mem mem' : ℕ → α} {i n : ℕ} {s t : List α}

/-- From place `i` on the memory has the characters of the string and then the terminator `z`. -/
def Holds (z : α) (mem : ℕ → α) : ℕ → List α → Prop
  | i, [] => mem i = z
  | i, c :: s => mem i = c ∧ c ≠ z ∧ Holds z mem (i + 1) s

instance decidableHolds [DecidableEq α] (z : α) (mem : ℕ → α) :
    (i : ℕ) → (s : List α) → Decidable (Holds z mem i s)
  | i, [] => inferInstanceAs (Decidable (mem i = z))
  | i, _ :: s =>
    have := decidableHolds z mem (i + 1) s
    inferInstanceAs (Decidable (_ ∧ _ ∧ _))

theorem Holds.eq_terminator_iff (h : Holds z mem i s) : mem i = z ↔ s = [] := by
  cases s with
  | nil => exact iff_of_true h rfl
  | cons c s =>
    obtain ⟨hc, hne, -⟩ := h
    exact iff_of_false (fun hz => hne (hc.symm.trans hz)) (List.cons_ne_nil _ _)

/-- Two strings have the same character at the place exactly if the second begins with the first
character of the first. -/
theorem Holds.eq_char_iff (h : Holds z mem i (c :: s)) (h' : Holds z mem' i t) :
    mem i = mem' i ↔ ∃ t', t = c :: t' ∧ Holds z mem' (i + 1) t' := by
  obtain ⟨hc, hne, -⟩ := h
  rw [hc]
  cases t with
  | nil =>
    have hend : mem' i = z := h'
    simp [hend, hne]
  | cons d t =>
    obtain ⟨hd, -, hrest⟩ := h'
    rw [hd]
    constructor
    · rintro rfl
      exact ⟨t, rfl, hrest⟩
    · rintro ⟨t', heq, -⟩
      exact (List.cons.inj heq).1.symm

/-- An array holds what stands before its first terminator, where a place behind it reads as one. -/
theorem holds_takeWhile [DecidableEq α] (z : α) (bs : List α) (i : ℕ) :
    Holds z (fun i => bs.getD i z) i ((bs.drop i).takeWhile (fun c => c ≠ z)) := by
  induction hs : bs.drop i generalizing i with
  | nil =>
    have hle : bs.length ≤ i := List.drop_eq_nil_iff.mp hs
    simp [Holds, hle]
  | cons c rest ih =>
    have hget : bs[i]? = some c := by
      rw [← List.head?_drop, hs]
      rfl
    have hrest : bs.drop (i + 1) = rest := by
      rw [← List.tail_drop, hs]
      rfl
    by_cases hc : c = z
    · simp [Holds, hc, hget]
    · rw [List.takeWhile_cons_of_pos (by simpa using hc)]
      exact ⟨by simp [hget], hc, ih (i + 1) hrest⟩

/-! ## Strings that begin alike -/

/-- Both strings have `n` characters at least, and the first `n` are the same. -/
def Alike (n : ℕ) (s t : List α) : Prop := n ≤ s.length ∧ n ≤ t.length ∧ s.take n = t.take n

instance [DecidableEq α] (n : ℕ) (s t : List α) : Decidable (Alike n s t) :=
  inferInstanceAs (Decidable (_ ∧ _ ∧ _))

theorem alike_zero (s t : List α) : Alike 0 s t := ⟨Nat.zero_le _, Nat.zero_le _, rfl⟩

theorem alike_cons_succ : Alike (n + 1) (c :: s) (c :: t) ↔ Alike n s t := by
  simp [Alike]

theorem Alike.exists_cons (h : Alike (n + 1) (c :: s) t) : ∃ t', t = c :: t' := by
  obtain ⟨-, hlen, htake⟩ := h
  cases t with
  | nil => simp at hlen
  | cons d t =>
    rw [List.take_succ_cons, List.take_succ_cons] at htake
    exact ⟨t, by rw [(List.cons.inj htake).1]⟩

end TerminatedStrings
