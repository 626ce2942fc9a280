import Mathlib.Data.List.Basic
import Mathlib.Tactic.Common

/-! # Reading a file to its end

A file open for reading is what is left of it, and a flag that a read sets when it wants more than
that. A loop on the flag reads once more after a read that took all there was. -/
namespace FileStreams

universe u

structure Stream (α : Type u) where
  rest : List α
  atEnd : Bool
  deriving DecidableEq, Repr

variable {α : Type u}

namespace Stream

def opened (content : List α) : Stream α := ⟨content, false⟩

/-- Up to `n` items. -/
def read (fp : Stream α) (n : ℕ) : List α × Stream α :=
  (fp.rest.take n, ⟨fp.rest.drop n, fp.atEnd || decide (fp.rest.length < n)⟩)

/-- One item, read into a variable that at the end stays what it was. -/
def readInto (fp : Stream α) (old : α) : α × Stream α :=
  match fp.rest with
  | [] => (old, ⟨[], true⟩)
  | a :: rest => (a, ⟨rest, fp.atEnd⟩)

/-- The blocks of `n` items a loop reads until the flag is set. -/
def blocks (n : ℕ) : ℕ → Stream α → Option (List (List α))
  | 0, _ => none
  | fuel + 1, fp =>
    if fp.atEnd then some []
    else
      let r := fp.read n
      (blocks n fuel r.2).map (List.cons r.1)

@[simp] theorem readInto_nil (atEnd : Bool) (old : α) :
    (⟨[], atEnd⟩ : Stream α).readInto old = (old, ⟨[], true⟩) := rfl

@[simp] theorem readInto_cons (a : α) (rest : List α) (atEnd : Bool) (old : α) :
    (⟨a :: rest, atEnd⟩ : Stream α).readInto old = (a, ⟨rest, atEnd⟩) := rfl

theorem read_short {content : List α} {n : ℕ} (h : content.length < n) :
    (opened content).read n = (content, ⟨[], true⟩) := by
  have hle : content.length ≤ n := Nat.le_of_lt h
  simp [opened, read, List.take_of_length_le hle, hle, h]

theorem read_full {content : List α} {n : ℕ} (h : n ≤ content.length) :
    (opened content).read n = (content.take n, opened (content.drop n)) := by
  simp [opened, read, Nat.not_lt.mpr h]

end Stream

/-! ## Lines -/

variable [DecidableEq α]

/-- The pieces that `sep` ends, and what is left behind the last `sep`, if anything is. -/
def lines (sep : α) : List α → List (List α)
  | [] => []
  | a :: s =>
    if a = sep then [] :: lines sep s
    else
      match lines sep s with
      | [] => [[a]]
      | l :: ls => (a :: l) :: ls

theorem lines_ne_nil {sep a : α} {s : List α} : lines sep (a :: s) ≠ [] := by
  simp only [lines]
  split_ifs
  · exact List.cons_ne_nil _ _
  · split <;> exact List.cons_ne_nil _ _

/-- A text that ends with `sep` has as many lines as it has `sep`. -/
theorem length_lines {sep : α} {s : List α} (h : s = [] ∨ s.getLast? = some sep) :
    (lines sep s).length = s.count sep := by
  induction s with
  | nil => rfl
  | cons a s ih =>
    by_cases ha : a = sep
    · have hs : s = [] ∨ s.getLast? = some sep := by
        cases s with
        | nil => exact .inl rfl
        | cons b s => exact .inr (by simpa using h)
      simp [lines, ha, ih hs]
    · cases s with
      | nil => simp [ha] at h
      | cons b s =>
        have hs : b :: s = [] ∨ (b :: s).getLast? = some sep := .inr (by simpa using h)
        have hih := ih hs
        rw [List.count_cons_of_ne (by simpa using ha), ← hih, lines, if_neg ha]
        split
        next hnil => exact absurd hnil lines_ne_nil
        next hcons => rw [hcons]; rfl

end FileStreams
