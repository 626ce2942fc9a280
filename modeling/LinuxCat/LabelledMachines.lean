import Mathlib.Data.List.Basic
import Mathlib.Tactic.WLOG

/-! # Labelled machines, their runs, and rules for reasoning about them

A machine is an executable partial step function. A run is the list of labels it
took; every interleaving of a concurrent program is one such list. The rules here
carry a property of one step to every state of every run. -/
namespace LabelledMachines

universe u v

/-- `step s a` is the state after label `a`, or `none` when `a` is not enabled. -/
structure Machine (σ : Type u) (α : Type v) where
  step : σ → α → Option σ

variable {σ τ : Type*} {α β : Type*}

namespace Machine

def run (M : Machine σ α) : σ → List α → Option σ
  | s, [] => some s
  | s, a :: as => (M.step s a).bind (fun t => M.run t as)

def Reachable (M : Machine σ α) (s t : σ) : Prop := ∃ as, M.run s as = some t

/-- `P` holds in every state the run passes, its first and last included. -/
def EachState (M : Machine σ α) (P : σ → Prop) : σ → List α → Prop
  | s, [] => P s
  | s, a :: as => P s ∧ ∀ t, M.step s a = some t → M.EachState P t as

/-- `Q` holds of every step of the run, as a condition on the state before it. -/
def EachStep (M : Machine σ α) (Q : σ → α → Prop) : σ → List α → Prop
  | _, [] => True
  | s, a :: as => Q s a ∧ ∀ t, M.step s a = some t → M.EachStep Q t as

instance decidableForallSome {p : σ → Prop} [DecidablePred p] :
    (o : Option σ) → Decidable (∀ t, o = some t → p t)
  | none => isTrue (fun _ h => nomatch h)
  | some t => decidable_of_iff (p t) ⟨fun hp _ hu => Option.some.inj hu ▸ hp, fun h => h t rfl⟩

instance decidableEachState (M : Machine σ α) (P : σ → Prop) [DecidablePred P] :
    (s : σ) → (as : List α) → Decidable (M.EachState P s as)
  | s, [] => inferInstanceAs (Decidable (P s))
  | s, _ :: as =>
    have : DecidablePred (fun t => M.EachState P t as) := fun t => decidableEachState M P t as
    inferInstanceAs (Decidable (P s ∧ ∀ t, _ = some t → M.EachState P t as))

instance decidableEachStep (M : Machine σ α) (Q : σ → α → Prop) [∀ s a, Decidable (Q s a)] :
    (s : σ) → (as : List α) → Decidable (M.EachStep Q s as)
  | _, [] => isTrue trivial
  | s, a :: as =>
    have : DecidablePred (fun t => M.EachStep Q t as) := fun t => decidableEachStep M Q t as
    inferInstanceAs (Decidable (Q s a ∧ ∀ t, _ = some t → M.EachStep Q t as))

variable {M : Machine σ α} {s t u : σ} {as bs : List α}

@[simp] theorem run_nil : M.run s [] = some s := rfl

theorem run_cons (a : α) : M.run s (a :: as) = (M.step s a).bind (fun t => M.run t as) := rfl

theorem run_cons_eq_some {a : α} :
    M.run s (a :: as) = some t ↔ ∃ u, M.step s a = some u ∧ M.run u as = some t := by
  simp [run_cons, Option.bind_eq_some_iff]

theorem run_append : M.run s (as ++ bs) = (M.run s as).bind (fun t => M.run t bs) := by
  induction as generalizing s with
  | nil => rfl
  | cons a as ih =>
    cases h : M.step s a with
    | none => simp [run_cons, h]
    | some t => simpa [run_cons, h] using ih

theorem run_trans (h : M.run s as = some t) (h' : M.run t bs = some u) :
    M.run s (as ++ bs) = some u := by
  rw [run_append, h]
  exact h'

theorem Reachable.refl (M : Machine σ α) (s : σ) : M.Reachable s s := ⟨[], rfl⟩

theorem Reachable.trans (h : M.Reachable s t) (h' : M.Reachable t u) : M.Reachable s u := by
  obtain ⟨as, ha⟩ := h
  obtain ⟨bs, hb⟩ := h'
  exact ⟨as ++ bs, run_trans ha hb⟩

theorem Reachable.step {a : α} (h : M.Reachable s t) (hs : M.step t a = some u) :
    M.Reachable s u :=
  h.trans ⟨[a], by simp [run_cons, hs]⟩

theorem eachStep_of_forall {Q : σ → α → Prop} (h : ∀ s a, Q s a) : M.EachStep Q s as := by
  induction as generalizing s with
  | nil => trivial
  | cons a as ih => exact ⟨h s a, fun t _ => ih⟩

theorem eachStep_of_forall_mem {Q : α → Prop} (h : ∀ a ∈ as, Q a) :
    M.EachStep (fun _ a => Q a) s as := by
  induction as generalizing s with
  | nil => exact trivial
  | cons a as ih =>
    exact ⟨h a List.mem_cons_self, fun t _ => ih fun b hb => h b (List.mem_cons_of_mem _ hb)⟩

theorem eachState_of_forall {P : σ → Prop} (h : ∀ s, P s) : M.EachState P s as := by
  induction as generalizing s with
  | nil => exact h s
  | cons a as ih => exact ⟨h s, fun t _ => ih⟩

theorem EachStep.mono {Q R : σ → α → Prop} (h : ∀ s a, Q s a → R s a)
    (hq : M.EachStep Q s as) : M.EachStep R s as := by
  induction as generalizing s with
  | nil => trivial
  | cons a as ih => exact ⟨h s a hq.1, fun t ht => ih (hq.2 t ht)⟩

theorem EachStep.and {Q R : σ → α → Prop} (hq : M.EachStep Q s as) (hr : M.EachStep R s as) :
    M.EachStep (fun s a => Q s a ∧ R s a) s as := by
  induction as generalizing s with
  | nil => trivial
  | cons a as ih => exact ⟨⟨hq.1, hr.1⟩, fun t ht => ih (hq.2 t ht) (hr.2 t ht)⟩

theorem EachState.last {P : σ → Prop} (hp : M.EachState P s as) (hr : M.run s as = some t) :
    P t := by
  induction as generalizing s with
  | nil => simpa using (Option.some.inj hr ▸ hp : P t)
  | cons a as ih =>
    obtain ⟨u, hu, hrun⟩ := run_cons_eq_some.mp hr
    exact ih (hp.2 u hu) hrun

/-- The invariant rule for runs whose steps all meet a condition `Q`. -/
theorem eachState_of_eachStep {I : σ → Prop} {Q : σ → α → Prop}
    (hstep : ∀ s a t, I s → Q s a → M.step s a = some t → I t)
    (hs : I s) (hq : M.EachStep Q s as) : M.EachState I s as := by
  induction as generalizing s with
  | nil => exact hs
  | cons a as ih => exact ⟨hs, fun t ht => ih (hstep s a t hs hq.1 ht) (hq.2 t ht)⟩

theorem run_invariant_of_eachStep {I : σ → Prop} {Q : σ → α → Prop}
    (hstep : ∀ s a t, I s → Q s a → M.step s a = some t → I t)
    (hs : I s) (hq : M.EachStep Q s as) (hr : M.run s as = some t) : I t :=
  (eachState_of_eachStep hstep hs hq).last hr

/-- The plain invariant rule. -/
theorem run_invariant {I : σ → Prop}
    (hstep : ∀ s a t, I s → M.step s a = some t → I t)
    (hs : I s) (hr : M.run s as = some t) : I t :=
  run_invariant_of_eachStep (Q := fun _ _ => True) (fun s a t hi _ => hstep s a t hi) hs
    (eachStep_of_forall fun _ _ => trivial) hr

theorem Reachable.invariant {I : σ → Prop}
    (hstep : ∀ s a t, I s → M.step s a = some t → I t)
    (hs : I s) (hr : M.Reachable s t) : I t := by
  obtain ⟨as, hr⟩ := hr
  exact run_invariant hstep hs hr

theorem EachState.mono {P R : σ → Prop} (h : ∀ s, P s → R s) (hp : M.EachState P s as) :
    M.EachState R s as := by
  induction as generalizing s with
  | nil => exact h s hp
  | cons a as ih => exact ⟨h s hp.1, fun t ht => ih (hp.2 t ht)⟩

theorem EachState.first {P : σ → Prop} (hp : M.EachState P s as) : P s := by
  cases as with
  | nil => exact hp
  | cons a as => exact hp.1

/-- Every step of a run that stays in `P` is from `P` to `P`. -/
theorem EachState.eachStep {P : σ → Prop} (hp : M.EachState P s as) :
    M.EachStep (fun s a => P s ∧ ∀ t, M.step s a = some t → P t) s as := by
  induction as generalizing s with
  | nil => trivial
  | cons a as ih =>
    exact ⟨⟨hp.1, fun t ht => (hp.2 t ht).first⟩, fun t ht => ih (hp.2 t ht)⟩

/-- When, under an invariant, a step in the domain `D` keeps `P` exactly if it meets `Q`, a run of
such steps stays in `P` exactly if all of them meet `Q`. -/
theorem eachState_iff_eachStep_within {I P : σ → Prop} {D Q : σ → α → Prop}
    (hinv : ∀ s a t, I s → D s a → M.step s a = some t → I t)
    (hiff : ∀ s a t, I s → P s → D s a → M.step s a = some t → (P t ↔ Q s a))
    (hs : I s) (hp : P s) (hd : M.EachStep D s as) (hr : M.run s as = some t) :
    M.EachState P s as ↔ M.EachStep Q s as := by
  induction as generalizing s with
  | nil => simpa [EachState, EachStep] using hp
  | cons a as ih =>
    obtain ⟨u, hu, hrun⟩ := run_cons_eq_some.mp hr
    have hi := hinv s a u hs hd.1 hu
    have hpq := hiff s a u hs hp hd.1 hu
    have hrest : ∀ w, M.step s a = some w → w = u := by
      intro w hw
      exact Option.some.inj (hw.symm.trans hu)
    constructor
    · rintro ⟨-, hall⟩
      have hpu : P u := (hall u hu).first
      refine ⟨hpq.mp hpu, fun w hw => ?_⟩
      rw [hrest w hw]
      exact (ih hi hpu (hd.2 u hu) hrun).mp (hall u hu)
    · rintro ⟨hq, hall⟩
      refine ⟨hp, fun w hw => ?_⟩
      rw [hrest w hw]
      exact (ih hi (hpq.mpr hq) (hd.2 u hu) hrun).mpr (hall u hu)

/-- The rule for all steps. -/
theorem eachState_iff_eachStep {I P : σ → Prop} {Q : σ → α → Prop}
    (hinv : ∀ s a t, I s → M.step s a = some t → I t)
    (hiff : ∀ s a t, I s → P s → M.step s a = some t → (P t ↔ Q s a))
    (hs : I s) (hp : P s) (hr : M.run s as = some t) :
    M.EachState P s as ↔ M.EachStep Q s as :=
  eachState_iff_eachStep_within (D := fun _ _ => True) (fun s a t hi _ => hinv s a t hi)
    (fun s a t hi hp _ => hiff s a t hi hp) hs hp (eachStep_of_forall fun _ _ => trivial) hr

/-- A quantity that no step lowers, and that grows exactly at the steps violating `Q`,
ends a run at its first value exactly if all steps meet `Q`. -/
theorem measure_eq_iff_eachStep {I : σ → Prop} {f : σ → ℕ} {Q : σ → α → Prop}
    (hinv : ∀ s a t, I s → M.step s a = some t → I t)
    (hmono : ∀ s a t, I s → M.step s a = some t → f s ≤ f t)
    (hiff : ∀ s a t, I s → M.step s a = some t → (f t = f s ↔ Q s a))
    (hs : I s) (hr : M.run s as = some t) : f t = f s ↔ M.EachStep Q s as := by
  have hle : ∀ {s as}, I s → M.run s as = some t → f s ≤ f t := by
    intro s as hs hr
    induction as generalizing s with
    | nil => exact Nat.le_of_eq (congrArg f (Option.some.inj hr))
    | cons a as ih =>
      obtain ⟨u, hu, hrun⟩ := run_cons_eq_some.mp hr
      exact Nat.le_trans (hmono s a u hs hu) (ih (hinv s a u hs hu) hrun)
  induction as generalizing s with
  | nil => simp [EachStep, Option.some.inj hr]
  | cons a as ih =>
    obtain ⟨u, hu, hrun⟩ := run_cons_eq_some.mp hr
    have hi := hinv s a u hs hu
    have h₁ := hmono s a u hs hu
    have h₂ := hle hi hrun
    have hrest : ∀ w, M.step s a = some w → w = u := by
      intro w hw
      exact Option.some.inj (hw.symm.trans hu)
    constructor
    · intro he
      refine ⟨(hiff s a u hs hu).mp (by omega), fun w hw => ?_⟩
      rw [hrest w hw]
      exact (ih hi hrun).mp (by omega)
    · rintro ⟨hq, hall⟩
      exact ((ih hi hrun).mpr (hall u hu)).trans ((hiff s a u hs hu).mpr hq)

/-- Conditions that agree under an invariant agree on runs. -/
theorem eachStep_congr {I : σ → Prop} {Q R : σ → α → Prop}
    (hinv : ∀ s a t, I s → M.step s a = some t → I t) (hiff : ∀ s a, I s → (Q s a ↔ R s a))
    (hs : I s) : M.EachStep Q s as ↔ M.EachStep R s as := by
  induction as generalizing s with
  | nil => exact Iff.rfl
  | cons a as ih =>
    refine and_congr (hiff s a hs) (forall_congr' fun t => ?_)
    exact forall_congr' fun ht => ih (hinv s a t hs ht)

/-- Of the runs along one sequence of labels, those that cannot go on end in one state. -/
theorem run_eq_of_stuck {f : ℕ → α} {n k : ℕ} (hn : M.run s ((List.range n).map f) = some t)
    (ht : ∀ a, M.step t a = none) (hk : M.run s ((List.range k).map f) = some u)
    (hu : ∀ a, M.step u a = none) : t = u := by
  wlog hle : n ≤ k generalizing n k t u
  · exact (this hk hu hn ht (by omega)).symm
  obtain ⟨d, rfl⟩ := Nat.exists_eq_add_of_le hle
  rw [List.range_add, List.map_append, run_append, hn, Option.bind_some] at hk
  cases d with
  | zero => exact Option.some.inj hk
  | succ d =>
    rw [List.range_succ_eq_map, List.map_cons, List.map_cons, run_cons, ht] at hk
    cases hk

/-- `M` is simulated by `A` along `R`: one step of `M` is a run of `A`. -/
def Simulates (M : Machine σ α) (A : Machine τ β) (R : σ → τ → Prop) : Prop :=
  ∀ s a t x, R s x → M.step s a = some t → ∃ y, A.Reachable x y ∧ R t y

/-- A simulation carries over from steps to runs. -/
theorem Simulates.reachable {A : Machine τ β} {R : σ → τ → Prop} (h : Simulates M A R)
    {x : τ} (hx : R s x) (hr : M.Reachable s t) : ∃ y, A.Reachable x y ∧ R t y := by
  obtain ⟨as, hr⟩ := hr
  induction as generalizing s x with
  | nil => exact ⟨x, .refl A x, Option.some.inj hr ▸ hx⟩
  | cons a as ih =>
    obtain ⟨u, hu, hrun⟩ := run_cons_eq_some.mp hr
    obtain ⟨y, hxy, hy⟩ := h s a u x hx hu
    obtain ⟨z, hyz, hz⟩ := ih hy hrun
    exact ⟨z, hxy.trans hyz, hz⟩

/-- A projection that takes every step within `Q`, under an invariant, to a step within `R` takes
a run of such steps to a run of such steps. -/
theorem run_project {A : Machine τ β} {I : σ → Prop} {Q : σ → α → Prop} {R : τ → β → Prop}
    (p : σ → τ) (l : σ → α → β) (hinv : ∀ s a t, I s → Q s a → M.step s a = some t → I t)
    (hstep : ∀ s a t, I s → Q s a → M.step s a = some t →
      R (p s) (l s a) ∧ A.step (p s) (l s a) = some (p t))
    (hs : I s) (hq : M.EachStep Q s as) (hr : M.run s as = some t) :
    ∃ bs, A.EachStep R (p s) bs ∧ A.run (p s) bs = some (p t) := by
  induction as generalizing s with
  | nil => exact ⟨[], trivial, congrArg (fun s => some (p s)) (Option.some.inj hr)⟩
  | cons a as ih =>
    obtain ⟨u, hu, hrun⟩ := run_cons_eq_some.mp hr
    obtain ⟨hr', hstep'⟩ := hstep s a u hs hq.1 hu
    obtain ⟨bs, heach, hbs⟩ := ih (hinv s a u hs hq.1 hu) (hq.2 u hu) hrun
    refine ⟨l s a :: bs, ⟨hr', fun y hy => ?_⟩, run_cons_eq_some.mpr ⟨p u, hstep', hbs⟩⟩
    obtain rfl := Option.some.inj (hstep'.symm.trans hy)
    exact heach

end Machine
end LabelledMachines
