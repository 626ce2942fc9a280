import LinuxCat.LabelledMachines
import Mathlib.Data.List.Basic
import Mathlib.Data.Nat.ModEq
import Mathlib.Tactic.Common

/-! # Bounded ring buffers and the queue they represent

The front index, the rear index and the size are redundant; a `RingBuffer` carries
the equation between them, so a buffer whose indices disagree cannot be built. What a
bounded buffer is for is the machine `fifoMachine`, which knows nothing of slots. -/
namespace RingBuffers
open LabelledMachines

variable {α : Type*}

/-- The value in slot `i`, with `none` for a slot never written. -/
def slotAt (slots : List (Option α)) (i : ℕ) : Option α := (slots[i]?).join

/-- The `n` values read circularly from `front`. -/
def readFrom (slots : List (Option α)) (front n : ℕ) : List (Option α) :=
  (List.range n).map (fun k => slotAt slots ((front + k) % slots.length))

@[simp] theorem length_readFrom (slots : List (Option α)) (front n : ℕ) :
    (readFrom slots front n).length = n := by simp [readFrom]

theorem slotAt_set_self (slots : List (Option α)) {i : ℕ} (h : i < slots.length) (x : α) :
    slotAt (slots.set i (some x)) i = some x := by
  simp [slotAt, h]

theorem slotAt_set_of_ne (slots : List (Option α)) {i j : ℕ} (h : i ≠ j) (x : Option α) :
    slotAt (slots.set i x) j = slotAt slots j := by
  simp [slotAt, h]

/-- Two positions less than a whole turn apart fall into different slots. -/
theorem mod_ne_of_lt {c a i j : ℕ} (hij : i < j) (hj : j < i + c) :
    (a + i) % c ≠ (a + j) % c := by
  intro h
  have hd : c ∣ (a + j) - (a + i) := (Nat.modEq_iff_dvd' (by omega)).mp h
  have hle := Nat.le_of_dvd (by omega) hd
  omega

/-- Writing the slot behind the last one appends to what is read. -/
theorem readFrom_set_rear (slots : List (Option α)) {front n : ℕ} (h : n < slots.length)
    (x : α) : readFrom (slots.set ((front + n) % slots.length) (some x)) front (n + 1) =
      readFrom slots front n ++ [some x] := by
  have hpos : 0 < slots.length := by omega
  simp only [readFrom, List.range_succ, List.map_append, List.map_cons, List.map_nil,
    List.length_set]
  congr 1
  · apply List.map_congr_left
    intro k hk
    have hk' := List.mem_range.mp hk
    exact slotAt_set_of_ne slots (mod_ne_of_lt hk' (by omega)).symm (some x)
  · rw [slotAt_set_self slots (Nat.mod_lt _ hpos)]

/-- Moving the front past one slot removes the first value read. -/
theorem readFrom_succ (slots : List (Option α)) {front : ℕ} (h : front < slots.length) (n : ℕ) :
    readFrom slots front (n + 1) =
      slotAt slots front :: readFrom slots ((front + 1) % slots.length) n := by
  simp only [readFrom, List.range_succ_eq_map, List.map_cons, List.map_map, Nat.add_zero,
    Nat.mod_eq_of_lt h]
  congr 1
  apply List.map_congr_left
  intro k _
  simp only [Function.comp_apply, Nat.mod_add_mod]
  congr 2
  omega

structure RingBuffer (α : Type*) where
  slots : List (Option α)
  front : ℕ
  rear : ℕ
  size : ℕ
  front_lt : front < slots.length
  size_le : size ≤ slots.length
  rear_eq : rear = (front + size) % slots.length

namespace RingBuffer

def capacity (b : RingBuffer α) : ℕ := b.slots.length

def contents (b : RingBuffer α) : List (Option α) := readFrom b.slots b.front b.size

theorem capacity_pos (b : RingBuffer α) : 0 < b.capacity := Nat.zero_lt_of_lt b.front_lt

theorem rear_lt (b : RingBuffer α) : b.rear < b.capacity :=
  b.rear_eq ▸ Nat.mod_lt _ b.capacity_pos

@[simp] theorem length_contents (b : RingBuffer α) : b.contents.length = b.size := by
  simp [contents]

def empty (α : Type*) (n : ℕ) (h : 0 < n) : RingBuffer α where
  slots := List.replicate n none
  front := 0
  rear := 0
  size := 0
  front_lt := by simpa using h
  size_le := Nat.zero_le _
  rear_eq := by simp

def push (b : RingBuffer α) (x : α) (h : b.size < b.capacity) : RingBuffer α where
  slots := b.slots.set b.rear (some x)
  front := b.front
  rear := (b.rear + 1) % b.slots.length
  size := b.size + 1
  front_lt := by simpa using b.front_lt
  size_le := by
    rw [List.length_set]
    exact h
  rear_eq := by simp [b.rear_eq, Nat.add_assoc]

def pop (b : RingBuffer α) (h : 0 < b.size) : RingBuffer α where
  slots := b.slots
  front := (b.front + 1) % b.slots.length
  rear := b.rear
  size := b.size - 1
  front_lt := Nat.mod_lt _ b.capacity_pos
  size_le := (Nat.sub_le _ _).trans b.size_le
  rear_eq := by
    rw [Nat.mod_add_mod, b.rear_eq]
    congr 1
    omega

/-- The value a `pop` hands out. -/
def first (b : RingBuffer α) : Option α := slotAt b.slots b.front

theorem contents_push (b : RingBuffer α) (x : α) (h : b.size < b.capacity) :
    (b.push x h).contents = b.contents ++ [some x] := by
  simp only [contents, push, b.rear_eq]
  exact readFrom_set_rear b.slots h x

theorem contents_pop (b : RingBuffer α) (h : 0 < b.size) :
    b.contents = b.first :: (b.pop h).contents := by
  have hn : b.size = b.size - 1 + 1 := by omega
  rw [contents, hn]
  exact readFrom_succ b.slots b.front_lt _

end RingBuffer

/-- A queue together with all that was ever put into it and taken out of it. -/
structure Fifo (α : Type*) where
  queue : List α
  put : List α
  got : List α

inductive FifoAction (α : Type*)
  | put (a : α)
  | take

def Fifo.empty (α : Type*) : Fifo α := ⟨[], [], []⟩

def fifoMachine (α : Type*) (capacity : ℕ) : Machine (Fifo α) (FifoAction α) where
  step f
    | .put a => if f.queue.length < capacity then
        some ⟨f.queue ++ [a], f.put ++ [a], f.got⟩ else none
    | .take => match f.queue with
      | [] => none
      | a :: queue => some ⟨queue, f.put, f.got ++ [a]⟩

/-- Nothing is lost, repeated or reordered, and the bound is kept. -/
def Fifo.Exact (capacity : ℕ) (f : Fifo α) : Prop :=
  f.got ++ f.queue = f.put ∧ f.queue.length ≤ capacity

theorem Fifo.exact_step {capacity : ℕ} (f : Fifo α) (a : FifoAction α) (g : Fifo α)
    (h : f.Exact capacity) (hs : (fifoMachine α capacity).step f a = some g) :
    g.Exact capacity := by
  obtain ⟨heq, hle⟩ := h
  cases a with
  | put a =>
    simp only [fifoMachine] at hs
    split_ifs at hs with hlt
    cases hs
    exact ⟨by rw [← heq, List.append_assoc], by rw [List.length_append]; exact hlt⟩
  | take =>
    cases hq : f.queue with
    | nil => simp [fifoMachine, hq] at hs
    | cons x queue =>
      simp only [fifoMachine, hq, Option.some.injEq] at hs
      subst hs
      rw [hq] at heq hle
      exact ⟨by simpa using heq, Nat.le_of_succ_le hle⟩

theorem Fifo.exact_of_reachable {capacity : ℕ} {f : Fifo α}
    (h : (fifoMachine α capacity).Reachable (.empty α) f) : f.Exact capacity :=
  h.invariant Fifo.exact_step ⟨rfl, Nat.zero_le _⟩

end RingBuffers
