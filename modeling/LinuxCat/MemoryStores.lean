import Mathlib.Data.List.Basic

/-! # Memories written piece by piece

A memory is a list of cells. Writers that each store what an image has at the place they
write to may overlap and come in any order: what agrees with the image once agrees with it
for good. -/
namespace MemoryStores

variable {α : Type*} {mem image bs : List α} {p q k l : ℕ}

/-- The memory with `bs` from position `p` on. -/
def store (mem : List α) (p : ℕ) (bs : List α) : List α :=
  mem.take p ++ bs ++ mem.drop (p + bs.length)

theorem length_store (h : p + bs.length ≤ mem.length) : (store mem p bs).length = mem.length := by
  simp only [store, List.length_append, List.length_take, List.length_drop]
  omega

theorem getElem?_store (h : p + bs.length ≤ mem.length) (i : ℕ) :
    (store mem p bs)[i]? = if p ≤ i ∧ i < p + bs.length then bs[i - p]? else mem[i]? := by
  have hp : (mem.take p).length = p := List.length_take_of_le (by omega)
  have hpb : (mem.take p ++ bs).length = p + bs.length := by rw [List.length_append, hp]
  rw [store]
  rcases Nat.lt_or_ge i p with hlt | hge
  · rw [if_neg (by omega), List.append_assoc, List.getElem?_append_left (by omega),
      List.getElem?_take_of_lt hlt]
  · by_cases hi : i < p + bs.length
    · rw [if_pos ⟨hge, hi⟩, List.getElem?_append_left (by omega),
        List.getElem?_append_right (by omega), hp]
    · rw [if_neg (by omega), List.getElem?_append_right (by omega), hpb, List.getElem?_drop,
        Nat.add_sub_cancel' (by omega)]

/-- A store over a stretch of its own length. -/
theorem store_middle {before old : List α} (after : List α) (h : old.length = bs.length) :
    store (before ++ (old ++ after)) before.length bs = before ++ (bs ++ after) := by
  rw [store, List.take_left, ← h, List.drop_length_add_append, List.drop_left, List.append_assoc]

/-- A store at the beginning of a stretch leaves what is around it. -/
theorem store_stretch {before old : List α} (after : List α) (h : bs.length ≤ old.length) :
    store (before ++ (old ++ after)) before.length bs =
      before ++ (bs ++ old.drop bs.length ++ after) := by
  rw [store, List.take_left, List.drop_length_add_append, List.drop_append_of_le_length h,
    List.append_assoc, List.append_assoc]

/-- What lies before a store is read as it was. -/
theorem take_drop_store (hkl : k + l ≤ p) (hp : p ≤ mem.length) :
    ((store mem p bs).drop k).take l = (mem.drop k).take l := by
  have hlen : (mem.take p).length = p := List.length_take_of_le hp
  have hlen' : ((mem.take p).drop k).length = p - k := by rw [List.length_drop, hlen]
  rw [store, List.append_assoc, List.drop_append_of_le_length (by omega),
    List.take_append_of_le_length (by omega), List.drop_take, List.take_take,
    Nat.min_eq_left (by omega)]

/-- The memory and the image are alike in `k` cells from `p` on. -/
def AgreesOn (mem image : List α) (p k : ℕ) : Prop :=
  ∀ i, p ≤ i → i < p + k → mem[i]? = image[i]?

theorem agreesOn_zero (mem image : List α) (p : ℕ) : AgreesOn mem image p 0 :=
  fun i hle hlt => by omega

theorem AgreesOn.append (h : AgreesOn mem image p k) (h' : AgreesOn mem image (p + k) l) :
    AgreesOn mem image p (k + l) := by
  intro i hle hlt
  rcases Nat.lt_or_ge i (p + k) with hi | hi
  · exact h i hle hi
  · exact h' i hi (by omega)

/-- A store of a piece of the image, at its place. -/
theorem agreesOn_store (hfit : q + bs.length ≤ mem.length)
    (hbs : bs = (image.drop q).take bs.length) :
    AgreesOn (store mem q bs) image q bs.length := by
  intro i hle hlt
  rw [getElem?_store hfit, if_pos ⟨hle, hlt⟩, hbs, List.getElem?_take_of_lt (by omega),
    List.getElem?_drop, Nat.add_sub_cancel' hle]

/-- Such a store spoils nothing. -/
theorem AgreesOn.store (h : AgreesOn mem image p k) (hfit : q + bs.length ≤ mem.length)
    (hbs : bs = (image.drop q).take bs.length) : AgreesOn (store mem q bs) image p k := by
  intro i hle hlt
  by_cases hi : q ≤ i ∧ i < q + bs.length
  · exact agreesOn_store hfit hbs i hi.1 hi.2
  · rw [getElem?_store hfit, if_neg hi]
    exact h i hle hlt

/-- Stretches that agree and leave no cell out. -/
theorem eq_of_agreesOn (hlen : mem.length = image.length)
    (h : ∀ i < image.length, ∃ p k, p ≤ i ∧ i < p + k ∧ AgreesOn mem image p k) :
    mem = image := by
  refine List.ext_getElem? fun i => ?_
  rcases Nat.lt_or_ge i image.length with hi | hi
  · obtain ⟨p, k, hle, hlt, hag⟩ := h i hi
    exact hag i hle hlt
  · rw [List.getElem?_eq_none hi, List.getElem?_eq_none (hlen ▸ hi)]

end MemoryStores
