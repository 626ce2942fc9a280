import LinuxCat.LinkedChains
import LinuxCat.OnlineSessions

/-! # The online list as nodes linked through `next`

The functions here follow the pointers of `struct online` over an explicit heap, as the source
does. What they do is what their namesakes do to a list of sessions. -/
namespace LinuxCat.LinkedOnline
open LabelledMachines LabelledMachines.Machine LinkedChains ByteLayouts ServerModel

/-- The nodes that are allocated, and `head`. -/
structure OnlineHeap where
  heap : Heap Online
  head : Option ℕ

namespace OnlineHeap

/-- `head` at the start of the server. -/
def start : OnlineHeap := ⟨∅, none⟩

/-- As many steps as there are nodes: a walk that needs more goes in circles. -/
def fuel (st : OnlineHeap) : ℕ := st.heap.keys.length

/-- `malloc` returns `a`, and the fields of the new node but `next` are filled in. -/
def newUser (st : OnlineHeap) (a : ℕ) (garbage : Option ℕ) (user : Online) : OnlineHeap :=
  { st with heap := st.heap.insert a ⟨user, garbage⟩ }

def insertLink (st : OnlineHeap) (newUser : Option ℕ) : Outcome OnlineHeap :=
  (modify st.heap newUser (fun node => { node with next := st.head })).map
    (fun heap => ⟨heap, newUser⟩)

def findFd (st : OnlineHeap) (toname : Bytes) : Outcome ℤ :=
  (find st.heap (fun e => e.name = toname) st.fuel st.head).map
    (fun r => (r.map (fun temp => temp.2.cfd)).getD (-1))

/-- The pointer to the node, or NULL. -/
def getOnline (st : OnlineHeap) (name : Bytes) : Outcome (Option ℕ) :=
  (find st.heap (fun e => e.name = name) st.fuel st.head).map (Option.map Prod.fst)

/-- The removal of action 10, with `temp` one node behind `pNode`. -/
def case10 (st : OnlineHeap) (name : Bytes) : Outcome OnlineHeap :=
  (unlinkFirst st.heap st.head (fun e => e.name = name) st.fuel none st.head).map
    (fun r => ⟨r.1, r.2⟩)

/-- The chain from `head` is the list, every node of it allocated, and nothing else is. -/
abbrev Holds (st : OnlineHeap) (l : List (ℕ × Online)) : Prop :=
  LinkedChains.Holds st.heap st.head l

variable {st : OnlineHeap} {l : List (ℕ × Online)}

theorem insertLink_eq {a : ℕ} (h : st.Holds l) (ha : a ∉ st.heap) (garbage : Option ℕ)
    (user : Online) :
    ∃ st', (st.newUser a garbage user).insertLink (some a) = .done st' ∧
      st'.Holds ((a, user) :: l) := by
  refine ⟨⟨st.heap.insert a ⟨user, st.head⟩, some a⟩, ?_, h.push ha⟩
  have hlook : (st.newUser a garbage user).heap.lookup a = some ⟨user, garbage⟩ :=
    AList.lookup_insert st.heap
  rw [insertLink, modify_of_lookup _ hlook]
  simp [newUser, AList.insert_insert]

theorem findFd_eq (h : st.Holds l) (toname : Bytes) :
    st.findFd toname =
      .done (((l.find? (fun x => x.2.name = toname)).map (fun x => x.2.cfd)).getD (-1)) := by
  rw [findFd, fuel, h.find]
  rfl

theorem getOnline_eq (h : st.Holds l) (name : Bytes) :
    st.getOnline name = .done ((l.find? (fun x => x.2.name = name)).map Prod.fst) := by
  rw [getOnline, fuel, h.find]
  rfl

theorem case10_eq (h : st.Holds l) (name : Bytes) :
    ∃ st', st.case10 name = .done st' ∧ st'.Holds (l.eraseP (fun x => x.2.name = name)) := by
  obtain ⟨heap, head, heq, hholds⟩ := h.unlinkFirst (fun e => e.name = name)
  exact ⟨⟨heap, head⟩, by rw [case10, fuel, heq]; rfl, hholds⟩

end OnlineHeap

/-! ## Runs of insertions and removals -/

inductive ListOp
  | insertLink (a : ℕ) (garbage : Option ℕ) (user : Online)
  | case10 (name : Bytes)
  deriving DecidableEq, Repr

/-- The result of an operation that did not go wrong. -/
def result {α : Type} : Outcome α → Option α
  | .done a => some a
  | _ => none

/-- `malloc` never returns the address of a node that is not freed. -/
def heapStep (st : OnlineHeap) : ListOp → Option OnlineHeap
  | .insertLink a garbage user =>
    if a ∈ st.heap then none else result ((st.newUser a garbage user).insertLink (some a))
  | .case10 name => result (st.case10 name)

def heapMachine : Machine OnlineHeap ListOp := ⟨heapStep⟩

/-- The sessions with their addresses: a new one comes first, and a removal takes out the first
under the name. -/
def sessionStep (l : List (ℕ × Online)) : ListOp → Option (List (ℕ × Online))
  | .insertLink a _ user => if a ∈ l.map Prod.fst then none else some ((a, user) :: l)
  | .case10 name => some (l.eraseP (fun x => x.2.name = name))

def sessionMachine : Machine (List (ℕ × Online)) ListOp := ⟨sessionStep⟩

/-- No entry has the name. -/
def Missing (l : List (ℕ × Online)) (name : Bytes) : Prop := ∀ x ∈ l, x.2.name ≠ name

/-- Removing `name` takes the first node of this name out and frees it, and leaves all others
as they are and where they are. -/
def RemovesFirst (st : OnlineHeap) (l : List (ℕ × Online)) (name : Bytes) : Prop :=
  ∃ st', st.case10 name = .done st' ∧
    (Missing l name ∧ st'.Holds l ∨
      ∃ l₁ a user l₂, l = l₁ ++ (a, user) :: l₂ ∧ Missing l₁ name ∧ user.name = name ∧
        st'.Holds (l₁ ++ l₂) ∧ a ∉ st'.heap)

/-- Both lookups find the first node of the name, or neither finds one. -/
def LookupsAgree (st : OnlineHeap) (l : List (ℕ × Online)) (name : Bytes) : Prop :=
  Missing l name ∧ st.getOnline name = .done none ∧ st.findFd name = .done (-1) ∨
    ∃ l₁ a user l₂, l = l₁ ++ (a, user) :: l₂ ∧ Missing l₁ name ∧ user.name = name ∧
      st.getOnline name = .done (some a) ∧
      (read st.heap (some a)).map Node.value = .done user ∧ st.findFd name = .done user.cfd

variable {st : OnlineHeap} {l : List (ℕ × Online)}

/-- One operation on the nodes is the same operation on the list. -/
theorem heapStep_of_sessionStep {l' : List (ℕ × Online)} {op : ListOp} (h : st.Holds l)
    (hstep : sessionStep l op = some l') : ∃ st', heapStep st op = some st' ∧ st'.Holds l' := by
  cases op with
  | insertLink a garbage user =>
    simp only [sessionStep] at hstep
    split_ifs at hstep with hmem
    cases hstep
    have ha : a ∉ st.heap := fun hin => hmem ((h.allocated a).mp hin)
    obtain ⟨st', heq, hholds⟩ := OnlineHeap.insertLink_eq h ha garbage user
    exact ⟨st', by simp [heapStep, ha, heq, result], hholds⟩
  | case10 name =>
    cases hstep
    obtain ⟨st', heq, hholds⟩ := OnlineHeap.case10_eq h name
    exact ⟨st', by simp [heapStep, heq, result], hholds⟩

theorem heapRun_of_sessionRun {l' : List (ℕ × Online)} {ops : List ListOp} (h : st.Holds l)
    (hrun : sessionMachine.run l ops = some l') :
    ∃ st', heapMachine.run st ops = some st' ∧ st'.Holds l' := by
  induction ops generalizing st l with
  | nil => exact ⟨st, rfl, Option.some.inj hrun ▸ h⟩
  | cons op ops ih =>
    obtain ⟨l₁, hstep, hrest⟩ := run_cons_eq_some.mp hrun
    obtain ⟨st₁, hheap, h₁⟩ := heapStep_of_sessionStep h hstep
    obtain ⟨st', hrun', h'⟩ := ih h₁ hrest
    exact ⟨st', run_cons_eq_some.mpr ⟨st₁, hheap, hrun'⟩, h'⟩

/-- The first entry of a name, and what stands before it. -/
theorem missing_or_first (l : List (ℕ × Online)) (name : Bytes) :
    Missing l name ∧ l.find? (fun x => x.2.name = name) = none ∨
      ∃ l₁ a user l₂, l = l₁ ++ (a, user) :: l₂ ∧ Missing l₁ name ∧ user.name = name ∧
        l.find? (fun x => x.2.name = name) = some (a, user) := by
  cases hfind : l.find? (fun x => x.2.name = name) with
  | none => exact .inl ⟨by simpa [Missing] using List.find?_eq_none.mp hfind, rfl⟩
  | some x =>
    obtain ⟨hname, l₁, l₂, rfl, hbefore⟩ := List.find?_eq_some_iff_append.mp hfind
    exact .inr ⟨l₁, x.1, x.2, l₂, rfl, by simpa [Missing] using hbefore, by simpa using hname, rfl⟩

theorem removesFirst_of_holds (h : st.Holds l) (name : Bytes) : RemovesFirst st l name := by
  obtain ⟨st', heq, h'⟩ := OnlineHeap.case10_eq h name
  refine ⟨st', heq, ?_⟩
  obtain ⟨hmissing, -⟩ | ⟨l₁, a, user, l₂, rfl, hbefore, hname, -⟩ := missing_or_first l name
  · rw [List.eraseP_of_forall_not (by simpa [Missing] using hmissing)] at h'
    exact .inl ⟨hmissing, h'⟩
  · rw [List.eraseP_append_right _ (by simpa [Missing] using hbefore),
      List.eraseP_cons_of_pos (by simpa using hname)] at h'
    refine .inr ⟨l₁, a, user, l₂, rfl, hbefore, hname, h', ?_⟩
    obtain ⟨_, -, -, -, ha₁, ha₂⟩ := h.split
    rw [h'.allocated a, List.map_append, List.mem_append]
    tauto

theorem lookupsAgree_of_holds (h : st.Holds l) (name : Bytes) : LookupsAgree st l name := by
  have hget := OnlineHeap.getOnline_eq h name
  have hfd := OnlineHeap.findFd_eq h name
  obtain ⟨hmissing, hfind⟩ | ⟨l₁, a, user, l₂, rfl, hbefore, hname, hfind⟩ :=
    missing_or_first l name
  · rw [hfind] at hget hfd
    exact .inl ⟨hmissing, hget, hfd⟩
  · rw [hfind] at hget hfd
    obtain ⟨next, hlook, -⟩ := h.split
    refine .inr ⟨l₁, a, user, l₂, rfl, hbefore, hname, hget, ?_, hfd⟩
    rw [read_of_lookup hlook]
    rfl

/-- The nodes from `head` are the sessions entered and not removed, the latest first: the chain
ends, meets no node twice and no freed one, and the removal and the lookups find the first node of
a name. -/
theorem online_list_refines_sessions (ops : List ListOp) (l : List (ℕ × Online))
    (h : sessionMachine.run [] ops = some l) :
    ∃ st, heapMachine.run .start ops = some st ∧ st.Holds l ∧ (l.map Prod.fst).Nodup ∧
      (∀ name, RemovesFirst st l name) ∧ ∀ name, LookupsAgree st l name := by
  have hstart : OnlineHeap.start.Holds [] := Holds.empty
  obtain ⟨st, hrun, hholds⟩ := heapRun_of_sessionRun hstart h
  exact ⟨st, hrun, hholds, hholds.chain.nodup, removesFirst_of_holds hholds,
    lookupsAgree_of_holds hholds⟩

/-- The name is online on two connections, and the later session is taken out. -/
theorem second_session_removed :
    ∃ st, heapMachine.run .start
        [.insertLink 0 none ⟨4, 0, [97]⟩, .insertLink 1 (some 0) ⟨5, 0, [98]⟩,
          .insertLink 2 none ⟨6, 0, [97]⟩, .case10 [97]] = some st ∧
      st.Holds [(1, ⟨5, 0, [98]⟩), (0, ⟨4, 0, [97]⟩)] ∧ ([1, 0] : List ℕ).Nodup ∧
      (∀ name, RemovesFirst st [(1, ⟨5, 0, [98]⟩), (0, ⟨4, 0, [97]⟩)] name) ∧
      ∀ name, LookupsAgree st [(1, ⟨5, 0, [98]⟩), (0, ⟨4, 0, [97]⟩)] name :=
  online_list_refines_sessions _ _ (by decide)

end LinuxCat.LinkedOnline
