import Mathlib.Algebra.Ring.Nat
import Mathlib.Data.List.Count
import Mathlib.Tactic.Common

/-! # Thread tables and condition variables

A thread table is a list of thread states; a thread is its position, and threads are
only ever appended. Signalling a condition variable moves one waiting thread of the
table, chosen by the scheduler, and does nothing when no thread waits. -/
namespace WaitQueues

variable {β γ : Type*}

theorem getElem?_set_cases {ts : List β} {i j : ℕ} {t t' : β} (h : (ts.set i t)[j]? = some t') :
    (j = i ∧ t' = t) ∨ (i ≠ j ∧ ts[j]? = some t') := by
  by_cases hij : i = j
  · subst hij
    obtain ⟨hlt, hget⟩ := List.getElem?_eq_some_iff.mp h
    rw [List.getElem_set_self] at hget
    exact .inl ⟨rfl, hget.symm⟩
  · rw [List.getElem?_set_ne hij] at h
    exact .inr ⟨hij, h⟩

theorem getElem?_concat_cases {ts : List β} {j : ℕ} {t t' : β} (h : (ts ++ [t])[j]? = some t') :
    (j = ts.length ∧ t' = t) ∨ ts[j]? = some t' := by
  rcases Nat.lt_or_ge j ts.length with hlt | hge
  · rw [List.getElem?_append_left hlt] at h
    exact .inr h
  · rw [List.getElem?_append_right hge, List.getElem?_singleton] at h
    split_ifs at h with hz
    exact .inl ⟨by omega, (Option.some.inj h).symm⟩

theorem forall_place_set {P : ℕ → β → Prop} {ts : List β} {i : ℕ} {t : β}
    (h : ∀ j t, ts[j]? = some t → P j t) (ht : P i t) :
    ∀ j t', (ts.set i t)[j]? = some t' → P j t' := by
  intro j t' hj
  rcases getElem?_set_cases hj with ⟨rfl, rfl⟩ | ⟨-, hj⟩
  · exact ht
  · exact h j t' hj

theorem forall_place_concat {P : ℕ → β → Prop} {ts : List β} {t : β}
    (h : ∀ j t, ts[j]? = some t → P j t) (ht : P ts.length t) :
    ∀ j t', (ts ++ [t])[j]? = some t' → P j t' := by
  intro j t' hj
  rcases getElem?_concat_cases hj with ⟨rfl, rfl⟩ | hj
  · exact ht
  · exact h j t' hj

theorem forall_mem_set {P : β → Prop} {ts : List β} {i : ℕ} {t : β} (h : ∀ t ∈ ts, P t)
    (ht : P t) : ∀ t' ∈ ts.set i t, P t' := by
  intro t' hmem
  rcases List.mem_or_eq_of_mem_set hmem with hmem | rfl
  · exact h t' hmem
  · exact ht

theorem forall_mem_concat {P : β → Prop} {ts : List β} {t : β} (h : ∀ t ∈ ts, P t) (ht : P t) :
    ∀ t' ∈ ts ++ [t], P t' :=
  List.forall_mem_append.mpr ⟨h, List.forall_mem_singleton.mpr ht⟩

theorem zip_set (ts : List β) (us : List γ) (i : ℕ) (t : β) (u : γ) :
    (ts.set i t).zip (us.set i u) = (ts.zip us).set i (t, u) := by
  induction ts generalizing us i with
  | nil => simp
  | cons a ts ih =>
    cases us with
    | nil => simp
    | cons b us =>
      cases i with
      | zero => rfl
      | succ i => simp [ih]

/-- Wake the waiter `choice` names. `none` is the signal that finds no waiter. -/
def condSignal (isWaiting : β → Bool) (wake : β → β) (choice : Option ℕ) (ts : List β) :
    Option (List β) :=
  match choice with
  | none => if ts.any isWaiting then none else some ts
  | some i => (ts[i]?).bind (fun t => if isWaiting t then some (ts.set i (wake t)) else none)

theorem condSignal_cases {isWaiting : β → Bool} {wake : β → β} {choice : Option ℕ}
    {ts ts' : List β} (h : condSignal isWaiting wake choice ts = some ts') :
    ((∀ t ∈ ts, isWaiting t = false) ∧ ts' = ts) ∨
      ∃ i t, ts[i]? = some t ∧ isWaiting t = true ∧ ts' = ts.set i (wake t) := by
  cases choice with
  | none =>
    simp only [condSignal] at h
    split_ifs at h with hany
    exact .inl ⟨by simpa using hany, (Option.some.inj h).symm⟩
  | some i =>
    simp only [condSignal, Option.bind_eq_some_iff] at h
    obtain ⟨t, ht, hw⟩ := h
    split_ifs at hw with hwait
    exact .inr ⟨i, t, ht, hwait, (Option.some.inj hw).symm⟩

theorem exists_condSignal (isWaiting : β → Bool) (wake : β → β) (ts : List β) :
    ∃ choice ts', condSignal isWaiting wake choice ts = some ts' := by
  by_cases h : ∃ t ∈ ts, isWaiting t = true
  · obtain ⟨t, ht, hw⟩ := h
    obtain ⟨i, hi⟩ := List.mem_iff_getElem?.mp ht
    exact ⟨some i, ts.set i (wake t), by simp [condSignal, hi, hw]⟩
  · push Not at h
    exact ⟨none, ts, by simpa [condSignal] using h⟩

/-- Replacing one thread moves every count by what that thread contributes. -/
theorem countP_set_add (p : β → Bool) {ts : List β} {i : ℕ} {t : β} (h : ts[i]? = some t)
    (t' : β) : (ts.set i t').countP p + (if p t then 1 else 0) =
      ts.countP p + (if p t' then 1 else 0) := by
  induction ts generalizing i with
  | nil => simp at h
  | cons a ts ih =>
    cases i with
    | zero =>
      obtain rfl : a = t := by simpa using h
      simp only [List.set_cons_zero, List.countP_cons]
      omega
    | succ i =>
      have hi := ih (i := i) (by simpa using h)
      simp only [List.set_cons_succ, List.countP_cons]
      omega

theorem countP_set_of_eq (p : β → Bool) {ts : List β} {i : ℕ} {t t' : β}
    (h : ts[i]? = some t) (hp : p t' = p t) : (ts.set i t').countP p = ts.countP p := by
  have hc := countP_set_add p h t'
  rw [hp] at hc
  omega

theorem sum_set_add (f : β → ℕ) {ts : List β} {i : ℕ} {t : β} (h : ts[i]? = some t) (t' : β) :
    ((ts.set i t').map f).sum + f t = (ts.map f).sum + f t' := by
  induction ts generalizing i with
  | nil => simp at h
  | cons a ts ih =>
    cases i with
    | zero =>
      obtain rfl : a = t := by simpa using h
      simp only [List.set_cons_zero, List.map_cons, List.sum_cons]
      omega
    | succ i =>
      have hi := ih (i := i) (by simpa using h)
      simp only [List.set_cons_succ, List.map_cons, List.sum_cons]
      omega

/-- A signal changes no count that does not tell a waiter from the thread it becomes. -/
theorem countP_condSignal (p : β → Bool) {isWaiting : β → Bool} {wake : β → β}
    (hp : ∀ t, isWaiting t = true → p (wake t) = p t) {choice : Option ℕ} {ts ts' : List β}
    (h : condSignal isWaiting wake choice ts = some ts') : ts'.countP p = ts.countP p := by
  obtain ⟨-, rfl⟩ | ⟨i, t, ht, hw, rfl⟩ := condSignal_cases h
  · rfl
  · exact countP_set_of_eq p ht (hp t hw)

/-- A signal that leaves a waiter behind woke another one. -/
theorem countP_condSignal_of_waiting (p : β → Bool) {isWaiting : β → Bool} {wake : β → β}
    (hold : ∀ t, isWaiting t = true → p t = false)
    (hnew : ∀ t, isWaiting t = true → p (wake t) = true) {choice : Option ℕ} {ts ts' : List β}
    (h : condSignal isWaiting wake choice ts = some ts') (hleft : ∃ t ∈ ts', isWaiting t = true) :
    ts'.countP p = ts.countP p + 1 ∧ ∃ t ∈ ts, isWaiting t = true := by
  obtain ⟨hnone, rfl⟩ | ⟨i, t, ht, hw, rfl⟩ := condSignal_cases h
  · obtain ⟨t, ht, hw⟩ := hleft
    simp [hnone t ht] at hw
  · have hc := countP_set_add p ht (wake t)
    simp only [hold t hw, hnew t hw, if_true, Bool.false_eq_true, if_false, Nat.add_zero] at hc
    exact ⟨hc, t, List.mem_of_getElem? ht, hw⟩

/-- A value of a table without repeated values stands at one place. -/
theorem existsUnique_place {p : β → Bool} {f : β → γ} {ts : List β} {v : γ}
    (hnodup : ((ts.filter p).map f).Nodup) (hv : v ∈ (ts.filter p).map f) :
    ∃! i : ℕ, ∃ t, ts[i]? = some t ∧ p t = true ∧ f t = v := by
  induction ts with
  | nil => simp at hv
  | cons a ts ih =>
    have hmem (i : ℕ) (t : β) (ht : ts[i]? = some t) (hp : p t = true) :
        f t ∈ (ts.filter p).map f :=
      List.mem_map_of_mem (List.mem_filter.mpr ⟨List.mem_of_getElem? ht, hp⟩)
    by_cases ha : p a = true
    · rw [List.filter_cons_of_pos ha, List.map_cons, List.nodup_cons] at hnodup
      rw [List.filter_cons_of_pos ha, List.map_cons, List.mem_cons] at hv
      rcases hv with rfl | hv
      · refine ⟨0, ⟨a, rfl, ha, rfl⟩, ?_⟩
        rintro (_ | i) ⟨t, ht, hp, hf⟩
        · rfl
        · exact absurd (hf ▸ hmem i t ht hp) hnodup.1
      · obtain ⟨i, ⟨t, ht, hp, hf⟩, huniq⟩ := ih hnodup.2 hv
        refine ⟨i + 1, ⟨t, ht, hp, hf⟩, ?_⟩
        rintro (_ | j) ⟨t', ht', hp', hf'⟩
        · obtain rfl : a = t' := Option.some.inj ht'
          exact absurd (hf' ▸ hv) hnodup.1
        · exact congrArg (· + 1) (huniq j ⟨t', ht', hp', hf'⟩)
    · rw [List.filter_cons_of_neg ha] at hnodup hv
      obtain ⟨i, ⟨t, ht, hp, hf⟩, huniq⟩ := ih hnodup hv
      refine ⟨i + 1, ⟨t, ht, hp, hf⟩, ?_⟩
      rintro (_ | j) ⟨t', ht', hp', hf'⟩
      · obtain rfl : a = t' := Option.some.inj ht'
        exact absurd hp' ha
      · exact congrArg (· + 1) (huniq j ⟨t', ht', hp', hf'⟩)

theorem map_filter_set {p : β → Bool} {f : β → γ} {ts : List β} {i : ℕ} {t t' : β}
    (ht : ts[i]? = some t) (hp : p t' = p t) (hf : f t' = f t) :
    ((ts.set i t').filter p).map f = (ts.filter p).map f := by
  induction ts generalizing i with
  | nil => simp at ht
  | cons a ts ih =>
    cases i with
    | zero =>
      obtain rfl : a = t := by simpa using ht
      simp only [List.set_cons_zero, List.filter_cons, hp]
      split_ifs <;> simp [hf]
    | succ i =>
      have hi := ih (i := i) (by simpa using ht)
      simp only [List.set_cons_succ, List.filter_cons]
      split_ifs <;> simp [hi]

theorem map_filter_set_perm {p : β → Bool} {f : β → γ} {ts : List β} {i : ℕ} {t : β} (t' : β)
    (ht : ts[i]? = some t) (hp : p t = true) (hp' : p t' = false) :
    ((ts.filter p).map f).Perm (f t :: ((ts.set i t').filter p).map f) := by
  induction ts generalizing i with
  | nil => simp at ht
  | cons a ts ih =>
    cases i with
    | zero =>
      obtain rfl : a = t := by simpa using ht
      simp [hp, hp']
    | succ i =>
      have hi := ih (i := i) (by simpa using ht)
      by_cases ha : p a = true
      · rw [List.set_cons_succ, List.filter_cons_of_pos ha, List.filter_cons_of_pos ha,
          List.map_cons, List.map_cons]
        exact (hi.cons (f a)).trans (.swap _ _ _)
      · rw [List.set_cons_succ, List.filter_cons_of_neg ha, List.filter_cons_of_neg ha]
        exact hi

/-- Replacing a thread that shows nothing by one that shows a value. -/
theorem map_filter_set_perm_cons {p : β → Bool} {f : β → γ} {ts : List β} {i : ℕ} {t : β} (t' : β)
    (ht : ts[i]? = some t) (hp : p t = false) (hp' : p t' = true) :
    (((ts.set i t').filter p).map f).Perm (f t' :: (ts.filter p).map f) := by
  obtain ⟨hlt, hget⟩ := List.getElem?_eq_some_iff.mp ht
  have hback : (ts.set i t').set i t = ts := by
    rw [List.set_set, ← hget, List.set_getElem_self]
  have hperm := map_filter_set_perm (f := f) t (List.getElem?_set_self hlt) hp' hp
  rwa [hback] at hperm

end WaitQueues
