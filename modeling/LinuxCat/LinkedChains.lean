import Mathlib.Data.List.AList

/-! # Chains of linked nodes in a heap

A heap maps the allocated addresses to nodes, and a pointer is an address or NULL. `Segment`
says which nodes a pointer leads through until another pointer is met. The loops over a chain
have fuel, and a read through a bad pointer is an outcome of its own. -/
namespace LinkedChains

universe u v

structure Node (V : Type u) where
  value : V
  next : Option ℕ
  deriving DecidableEq, Repr

abbrev Heap (V : Type u) := AList (fun _ : ℕ => Node V)

/-- How code that follows pointers ends: with a result, at a read through NULL or through a
pointer to nothing, or not within its fuel. -/
inductive Outcome (α : Type u)
  | done (a : α)
  | null
  | dangling
  | running
  deriving DecidableEq, Repr

namespace Outcome
variable {α : Type u} {β : Type v}

def bind (x : Outcome α) (f : α → Outcome β) : Outcome β :=
  match x with
  | .done a => f a
  | .null => .null
  | .dangling => .dangling
  | .running => .running

def map (f : α → β) (x : Outcome α) : Outcome β := x.bind (fun a => .done (f a))

@[simp] theorem done_bind (a : α) (f : α → Outcome β) : (Outcome.done a).bind f = f a := rfl

@[simp] theorem null_bind (f : α → Outcome β) : (Outcome.null : Outcome α).bind f = .null := rfl

@[simp] theorem dangling_bind (f : α → Outcome β) :
    (Outcome.dangling : Outcome α).bind f = .dangling := rfl

@[simp] theorem running_bind (f : α → Outcome β) :
    (Outcome.running : Outcome α).bind f = .running := rfl

@[simp] theorem map_done (a : α) (f : α → β) : (Outcome.done a).map f = .done (f a) := rfl

end Outcome

variable {V : Type u}

def read (heap : Heap V) : Option ℕ → Outcome (Node V)
  | none => .null
  | some a =>
    match heap.lookup a with
    | some node => .done node
    | none => .dangling

/-- A write to the fields of the node behind a pointer. -/
def modify (heap : Heap V) (p : Option ℕ) (f : Node V → Node V) : Outcome (Heap V) :=
  match p with
  | none => .null
  | some a => (read heap (some a)).map (fun node => heap.insert a (f node))

/-- Walk from `p` to the first node whose value passes the test. -/
def find (heap : Heap V) (test : V → Bool) : ℕ → Option ℕ → Outcome (Option (ℕ × V))
  | _, none => .done none
  | 0, some _ => .running
  | fuel + 1, some a => (read heap (some a)).bind (fun node =>
      if test node.value then .done (some (a, node.value)) else find heap test fuel node.next)

/-- Walk from `p` to the end, with the value of every node on the way. -/
def visit (heap : Heap V) : ℕ → Option ℕ → Outcome (List V)
  | _, none => .done []
  | 0, some _ => .running
  | fuel + 1, some a => (read heap (some a)).bind (fun node =>
      (visit heap fuel node.next).map (fun vs => node.value :: vs))

/-- Take the first node that passes the test out of the chain and free it; `prev` trails one
node behind `p`. -/
def unlinkFirst (heap : Heap V) (head : Option ℕ) (test : V → Bool) :
    ℕ → Option ℕ → Option ℕ → Outcome (Heap V × Option ℕ)
  | _, _, none => .done (heap, head)
  | 0, _, some _ => .running
  | fuel + 1, prev, some a => (read heap (some a)).bind (fun node =>
      if test node.value then
        if prev = none then .done (heap.erase a, node.next)
        else
          (modify heap prev (fun before => { before with next := node.next })).map
            (fun heap => (heap.erase a, head))
      else unlinkFirst heap head test fuel (some a) node.next)

/-- From `p` the nodes of the list are met in turn, and behind them the pointer `q`. -/
def Segment (heap : Heap V) : Option ℕ → List (ℕ × V) → Option ℕ → Prop
  | p, [], q => p = q
  | p, (a, v) :: l, q => p = some a ∧ ∃ next, heap.lookup a = some ⟨v, next⟩ ∧ Segment heap next l q

/-- The nodes from `p` to NULL. -/
def Chain (heap : Heap V) (p : Option ℕ) (l : List (ℕ × V)) : Prop := Segment heap p l none

variable {heap heap' : Heap V} {p q next : Option ℕ} {a : ℕ} {v : V} {l l₁ l₂ : List (ℕ × V)}

@[simp] theorem read_none (heap : Heap V) : read heap none = .null := rfl

theorem read_of_lookup {node : Node V} (h : heap.lookup a = some node) :
    read heap (some a) = .done node := by
  simp [read, h]

theorem modify_of_lookup {node : Node V} (f : Node V → Node V) (h : heap.lookup a = some node) :
    modify heap (some a) f = .done (heap.insert a (f node)) := by
  simp [modify, read_of_lookup h]

theorem segment_append :
    Segment heap p (l₁ ++ l₂) q ↔ ∃ r, Segment heap p l₁ r ∧ Segment heap r l₂ q := by
  induction l₁ generalizing p with
  | nil => simp [Segment]
  | cons x l₁ ih =>
    obtain ⟨a, v⟩ := x
    simp only [List.cons_append, Segment, ih]
    constructor
    · rintro ⟨hp, next, hlook, r, h₁, h₂⟩
      exact ⟨r, ⟨hp, next, hlook, h₁⟩, h₂⟩
    · rintro ⟨r, ⟨hp, next, hlook, h₁⟩, h₂⟩
      exact ⟨hp, next, hlook, r, h₁, h₂⟩

/-- A segment reads no cell but its own. -/
theorem Segment.congr (hs : Segment heap p l q)
    (h : ∀ a ∈ l.map Prod.fst, heap'.lookup a = heap.lookup a) : Segment heap' p l q := by
  induction l generalizing p with
  | nil => exact hs
  | cons x l ih =>
    obtain ⟨a, v⟩ := x
    obtain ⟨hp, next, hlook, hrest⟩ := hs
    refine ⟨hp, next, ?_, ih hrest fun b hb => h b (List.mem_cons_of_mem _ hb)⟩
    rw [h a List.mem_cons_self]
    exact hlook

theorem Segment.erase (hs : Segment heap p l q) (ha : a ∉ l.map Prod.fst) :
    Segment (heap.erase a) p l q := by
  apply hs.congr
  intro b hb
  apply AList.lookup_erase_ne
  rintro rfl
  exact ha hb

/-- Write the cell between two segments. -/
theorem Segment.insert (h₁ : Segment heap p l₁ (some a)) (h₂ : Segment heap next l₂ q)
    (ha₁ : a ∉ l₁.map Prod.fst) (ha₂ : a ∉ l₂.map Prod.fst) :
    Segment (heap.insert a ⟨v, next⟩) p (l₁ ++ (a, v) :: l₂) q := by
  have hlook {l : List (ℕ × V)} (ha : a ∉ l.map Prod.fst) (b : ℕ) (hb : b ∈ l.map Prod.fst) :
      (heap.insert a ⟨v, next⟩).lookup b = heap.lookup b := by
    apply AList.lookup_insert_ne
    rintro rfl
    exact ha hb
  rw [segment_append]
  refine ⟨some a, h₁.congr (hlook ha₁), rfl, next, AList.lookup_insert heap, ?_⟩
  exact h₂.congr (hlook ha₂)

/-- A pointer starts one chain only. -/
theorem Chain.unique (h₁ : Chain heap p l₁) (h₂ : Chain heap p l₂) : l₁ = l₂ := by
  induction l₁ generalizing p l₂ with
  | nil =>
    cases l₂ with
    | nil => rfl
    | cons x l₂ => exact nomatch (show p = none from h₁).symm.trans h₂.1
  | cons x l₁ ih =>
    obtain ⟨hp, next, hlook, hrest⟩ := h₁
    cases l₂ with
    | nil => exact nomatch hp.symm.trans (show p = none from h₂)
    | cons y l₂ =>
      obtain ⟨hp', next', hlook', hrest'⟩ := h₂
      have ha : x.1 = y.1 := Option.some.inj (hp.symm.trans hp')
      have hnode := Option.some.inj (hlook.symm.trans (ha ▸ hlook'))
      obtain ⟨hv, rfl⟩ := Node.mk.inj hnode
      rw [ih hrest hrest', Prod.ext ha hv]

/-- A chain that ends meets no node twice. -/
theorem Chain.nodup (h : Chain heap p l) : (l.map Prod.fst).Nodup := by
  induction l generalizing p with
  | nil => exact List.nodup_nil
  | cons x l ih =>
    obtain ⟨a, v⟩ := x
    obtain ⟨hp, next, hlook, hrest⟩ := h
    refine List.nodup_cons.mpr ⟨fun hmem => ?_, ih hrest⟩
    -- a second visit of `a` would start the same chain again
    obtain ⟨⟨b, w⟩, hb, rfl⟩ := List.mem_map.mp hmem
    obtain ⟨l₁, l₂, rfl⟩ := List.append_of_mem hb
    obtain ⟨r, -, hagain⟩ := segment_append.mp hrest
    obtain rfl : r = some b := hagain.1
    have hfirst : Chain heap (some b) ((b, v) :: (l₁ ++ (b, w) :: l₂)) :=
      ⟨rfl, next, hlook, hrest⟩
    have hlen := congrArg List.length (Chain.unique hfirst hagain)
    simp only [List.length_cons, List.length_append] at hlen
    omega

theorem find_eq {test : V → Bool} {fuel : ℕ} (h : Chain heap p l) (hfuel : l.length ≤ fuel) :
    find heap test fuel p = .done (l.find? (fun x => test x.2)) := by
  induction l generalizing p fuel with
  | nil =>
    obtain rfl : p = none := h
    simp [find]
  | cons x l ih =>
    obtain ⟨a, v⟩ := x
    obtain ⟨rfl, next, hlook, hrest⟩ := h
    cases fuel with
    | zero => simp at hfuel
    | succ fuel =>
      simp only [find, read_of_lookup hlook, Outcome.done_bind, List.find?_cons]
      rw [ih hrest (by simpa using hfuel)]
      cases test v <;> rfl

theorem visit_eq {fuel : ℕ} (h : Chain heap p l) (hfuel : l.length ≤ fuel) :
    visit heap fuel p = .done (l.map Prod.snd) := by
  induction l generalizing p fuel with
  | nil =>
    obtain rfl : p = none := h
    simp [visit]
  | cons x l ih =>
    obtain ⟨a, v⟩ := x
    obtain ⟨rfl, next, hlook, hrest⟩ := h
    cases fuel with
    | zero => simp at hfuel
    | succ fuel =>
      simp only [visit, read_of_lookup hlook, Outcome.done_bind]
      rw [ih hrest (by simpa using hfuel)]
      rfl

/-! ## Heaps of one chain -/

/-- The chain from `p` is the list, and nothing else is allocated. -/
structure Holds (heap : Heap V) (p : Option ℕ) (l : List (ℕ × V)) : Prop where
  chain : Chain heap p l
  allocated : ∀ a, a ∈ heap ↔ a ∈ l.map Prod.fst

theorem Holds.empty : Holds (∅ : Heap V) none [] := ⟨rfl, fun a => by simp⟩

/-- Every cell is on the chain, so counting the cells is enough fuel for a walk. -/
theorem Holds.length_keys (h : Holds heap p l) : l.length = heap.keys.length := by
  have hperm : (l.map Prod.fst).Perm heap.keys := by
    rw [List.perm_ext_iff_of_nodup h.chain.nodup heap.keys_nodup]
    exact fun a => (h.allocated a).symm
  simpa using hperm.length_eq

theorem Holds.push (h : Holds heap p l) (ha : a ∉ heap) :
    Holds (heap.insert a ⟨v, p⟩) (some a) ((a, v) :: l) := by
  have hfresh : a ∉ l.map Prod.fst := fun hmem => ha ((h.allocated a).mpr hmem)
  constructor
  · have hnone : Segment heap (some a) [] (some a) := rfl
    exact hnone.insert h.chain (by simp) hfresh
  · intro b
    rw [AList.mem_insert, h.allocated b, List.map_cons, List.mem_cons]

/-- Two parts of a chain, and the node between them. -/
theorem Holds.split (h : Holds heap p (l₁ ++ (a, v) :: l₂)) :
    ∃ next, heap.lookup a = some ⟨v, next⟩ ∧ Segment heap p l₁ (some a) ∧ Chain heap next l₂ ∧
      a ∉ l₁.map Prod.fst ∧ a ∉ l₂.map Prod.fst := by
  obtain ⟨r, h₁, rfl, next, hlook, h₂⟩ := segment_append.mp h.chain
  have hnodup := h.chain.nodup
  rw [List.map_append, List.map_cons, List.nodup_append, List.nodup_cons] at hnodup
  obtain ⟨-, ⟨ha₂, -⟩, hdisj⟩ := hnodup
  exact ⟨next, hlook, h₁, h₂, fun hmem => hdisj a hmem a List.mem_cons_self rfl, ha₂⟩

theorem Holds.setValue {w : V} (h : Holds heap p (l₁ ++ (a, v) :: l₂))
    (hlook : heap.lookup a = some ⟨v, next⟩) :
    Holds (heap.insert a ⟨w, next⟩) p (l₁ ++ (a, w) :: l₂) := by
  obtain ⟨next', hlook', h₁, h₂, ha₁, ha₂⟩ := h.split
  obtain rfl : next = next' := (Node.mk.inj (Option.some.inj (hlook.symm.trans hlook'))).2
  constructor
  · exact h₁.insert h₂ ha₁ ha₂
  · intro b
    rw [AList.mem_insert, h.allocated b]
    simp only [List.map_append, List.map_cons, List.mem_append, List.mem_cons]
    tauto

theorem Holds.unlinkHead (h : Holds heap p ((a, v) :: l))
    (hlook : heap.lookup a = some ⟨v, next⟩) : Holds (heap.erase a) next l := by
  have hsplit : Holds heap p ([] ++ (a, v) :: l) := h
  obtain ⟨next', hlook', -, h₂, -, ha⟩ := hsplit.split
  obtain rfl : next = next' := (Node.mk.inj (Option.some.inj (hlook.symm.trans hlook'))).2
  constructor
  · exact Segment.erase h₂ ha
  · intro b
    rw [AList.mem_erase, h.allocated b, List.map_cons, List.mem_cons]
    constructor
    · rintro ⟨hne, rfl | hmem⟩
      · exact absurd rfl hne
      · exact hmem
    · intro hmem
      exact ⟨fun he => ha (he ▸ hmem), .inr hmem⟩

/-- Behind a node `b` the node `a` is bypassed and freed. -/
theorem Holds.unlinkBehind {b : ℕ} {w : V} {r : Option ℕ}
    (h : Holds heap p (l₁ ++ (b, w) :: (a, v) :: l₂)) (hb : heap.lookup b = some ⟨w, r⟩)
    (ha : heap.lookup a = some ⟨v, next⟩) :
    Holds ((heap.insert b ⟨w, next⟩).erase a) p (l₁ ++ (b, w) :: l₂) := by
  obtain ⟨r', hb', h₁, -, hb₁, hb₂⟩ := h.split
  have hsplit : Holds heap p ((l₁ ++ [(b, w)]) ++ (a, v) :: l₂) := by simpa using h
  obtain ⟨next', ha', -, h₂, ha₁, ha₂⟩ := hsplit.split
  obtain rfl : next = next' := (Node.mk.inj (Option.some.inj (ha.symm.trans ha'))).2
  simp only [List.map_cons, List.mem_cons, not_or, List.map_append, List.mem_append] at hb₂ ha₁
  constructor
  · apply Segment.erase (h₁.insert h₂ hb₁ hb₂.2)
    simp only [List.map_append, List.map_cons, List.mem_append, List.mem_cons, not_or]
    exact ⟨ha₁.1, ha₁.2.1, ha₂⟩
  · intro c
    rw [AList.mem_erase, AList.mem_insert, h.allocated c]
    simp only [List.map_append, List.map_cons, List.mem_append, List.mem_cons]
    constructor
    · rintro ⟨hne, hmem⟩
      tauto
    · intro hmem
      refine ⟨?_, by tauto⟩
      rintro rfl
      rcases hmem with hmem | rfl | hmem
      · exact ha₁.1 hmem
      · exact ha₁.2.1 rfl
      · exact ha₂ hmem

/-- The loop of `unlinkFirst` behind the nodes it has passed. -/
theorem Holds.unlinkFirst_loop {test : V → Bool} {head : Option ℕ} {fuel : ℕ}
    (h : Holds heap head (l₁ ++ l₂)) (h₁ : Segment heap head l₁ p) (h₂ : Chain heap p l₂)
    (hfuel : l₂.length ≤ fuel) :
    ∃ heap' head', unlinkFirst heap head test fuel (l₁.getLast?.map Prod.fst) p =
        .done (heap', head') ∧ Holds heap' head' (l₁ ++ l₂.eraseP (fun x => test x.2)) := by
  induction l₂ generalizing p fuel l₁ with
  | nil =>
    obtain rfl : p = none := h₂
    exact ⟨heap, head, by simp [unlinkFirst], h⟩
  | cons x l₂ ih =>
    obtain ⟨a, v⟩ := x
    obtain ⟨rfl, next, hlook, hrest⟩ := h₂
    obtain _ | fuel := fuel
    · simp at hfuel
    simp only [unlinkFirst, read_of_lookup hlook, Outcome.done_bind]
    cases hv : test v with
    | false =>
      have hpass : Segment heap head (l₁ ++ [(a, v)]) next := by
        rw [segment_append]
        exact ⟨some a, h₁, rfl, next, hlook, rfl⟩
      have happend : Holds heap head (l₁ ++ [(a, v)] ++ l₂) := by simpa using h
      have hloop := ih happend hpass hrest (by simpa using hfuel)
      simpa [List.eraseP_cons, hv] using hloop
    | true =>
      rw [List.eraseP_cons_of_pos (by simpa using hv)]
      rcases List.eq_nil_or_concat l₁ with rfl | ⟨l₀, ⟨b, w⟩, rfl⟩
      · exact ⟨heap.erase a, next, by simp, h.unlinkHead hlook⟩
      · have hbehind : Holds heap head (l₀ ++ (b, w) :: (a, v) :: l₂) := by simpa using h
        obtain ⟨r, hb, -⟩ := hbehind.split
        refine ⟨(heap.insert b ⟨w, next⟩).erase a, head, ?_, ?_⟩
        · simp [modify_of_lookup _ hb]
        · simpa using hbehind.unlinkBehind hb hlook

/-- `unlinkFirst` takes the first node that passes the test out of the list, and no other. -/
theorem Holds.unlinkFirst {head : Option ℕ} {l : List (ℕ × V)} (h : Holds heap head l)
    (test : V → Bool) :
    ∃ heap' head', unlinkFirst heap head test heap.keys.length none head = .done (heap', head') ∧
      Holds heap' head' (l.eraseP (fun x => test x.2)) := by
  have hnone : Segment heap head [] head := rfl
  exact Holds.unlinkFirst_loop h hnone h.chain (Nat.le_of_eq h.length_keys)

theorem Holds.find (h : Holds heap p l) (test : V → Bool) :
    find heap test heap.keys.length p = .done (l.find? (fun x => test x.2)) :=
  find_eq h.chain (Nat.le_of_eq h.length_keys)

theorem Holds.visit (h : Holds heap p l) :
    visit heap heap.keys.length p = .done (l.map Prod.snd) :=
  visit_eq h.chain (Nat.le_of_eq h.length_keys)

end LinkedChains
