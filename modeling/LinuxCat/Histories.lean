import Mathlib.Data.List.Basic

/-! # Histories and what was taken from them

A history only grows at its end. A queue is a history and how many of its elements were taken; the
elements of either may be judged by those that stand before them. -/
namespace Histories

variable {α β : Type*} {l : List α} {x : α} {n : ℕ}

/-! ## A history as a queue -/

/-- The next one is taken. -/
theorem drop_eq_cons (h : l[n]? = some x) : l.drop n = x :: l.drop (n + 1) := by
  obtain ⟨hlt, rfl⟩ := List.getElem?_eq_some_iff.mp h
  exact List.drop_eq_getElem_cons hlt

theorem succ_le_of_getElem? (h : l[n]? = some x) : n + 1 ≤ l.length :=
  (List.getElem?_eq_some_iff.mp h).1

theorem take_succ_of_getElem? (h : l[n]? = some x) : l.take (n + 1) = l.take n ++ [x] := by
  rw [List.take_add_one, h]
  rfl

/-- What is written comes behind what was not taken yet. -/
theorem drop_append_of_le (h : n ≤ l.length) (l' : List α) : (l ++ l').drop n = l.drop n ++ l' :=
  List.drop_append_of_le_length h

theorem take_append_of_le (h : n ≤ l.length) (l' : List α) : (l ++ l').take n = l.take n :=
  List.take_append_of_le_length h

/-! ## Elements judged by those before them -/

/-- `P` holds of every element and what is before it. -/
def EachGiven (P : List α → α → Prop) (l : List α) : Prop :=
  ∀ before x after, l = before ++ x :: after → P before x

variable {P Q : List α → α → Prop}

theorem eachGiven_nil : EachGiven P [] := by
  intro before x after h
  simp at h

theorem EachGiven.concat (h : EachGiven P l) (hx : P l x) : EachGiven P (l ++ [x]) := by
  intro before y after heq
  rcases List.eq_nil_or_concat after with rfl | ⟨rest, z, rfl⟩
  · obtain ⟨rfl, hy⟩ := List.append_inj' heq rfl
    obtain rfl := List.head_eq_of_cons_eq hy
    exact hx
  · have hsplit : l = before ++ y :: rest := by
      rw [List.concat_eq_append, ← List.cons_append, ← List.append_assoc] at heq
      exact (List.append_inj' heq rfl).1
    exact h before y rest hsplit

theorem EachGiven.mono (h : EachGiven P l) (hpq : ∀ before x, P before x → Q before x) :
    EachGiven Q l :=
  fun before x after heq => hpq before x (h before x after heq)

theorem EachGiven.head (h : EachGiven P (x :: l)) : P [] x := h [] x l rfl

/-- Behind the first one. -/
theorem EachGiven.tail (h : EachGiven P (x :: l)) : EachGiven (fun before y => P (x :: before) y) l := by
  intro before y after heq
  exact h (x :: before) y after (by rw [heq, List.cons_append])

/-- Of a history that has grown. -/
theorem EachGiven.of_append {l' : List α} (h : EachGiven P (l ++ l')) : EachGiven P l := by
  intro before y after heq
  exact h before y (after ++ l') (by rw [heq, List.append_assoc, List.cons_append])

end Histories
