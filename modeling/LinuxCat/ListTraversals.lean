import LinuxCat.GroupMessages
import LinuxCat.LinkedOnline
import LinuxCat.SayFlags

/-! # Every traversal of the online list, request by request

What a record makes `thread_read` do with the linked list. The loops test `pNode` before they
read it, except the first one of action 6. -/
namespace LinuxCat.LinkedOnline
open LabelledMachines LabelledMachines.Machine LinkedChains ByteLayouts Messages ServerModel

/-- A record as the thread of its connection handles it; `accepted` is the answer of
`querypassword`, and the last two are what `malloc` returns and what is in it. -/
structure Request where
  cfd : ℤ
  msg : Msg
  accepted : Bool
  address : ℕ
  garbage : Option ℕ
  deriving DecidableEq, Repr

namespace OnlineHeap

def toAll (st : OnlineHeap) (pmsg : Msg) : Outcome (List (ℤ × Out)) :=
  (visit st.heap st.fuel st.head).map (fun es => es.map (fun pNode => (pNode.cfd, .record pmsg)))

/-- Actions 1 and 7, when they enter the user. -/
def login (st : OnlineHeap) (r : Request) : Outcome OnlineHeap :=
  (st.newUser r.address r.garbage ⟨r.cfd, 0, r.msg.name.str⟩).insertLink (some r.address)

/-- The loop of action 4, which never moves `pNode` on. -/
def case4Loop (st : OnlineHeap) (cfd : ℤ) (pmsg : Msg) : ℕ → Option ℕ → Outcome (List (ℤ × Out))
  | _, none => .done []
  | 0, some _ => .running
  | fuel + 1, some a => (read st.heap (some a)).bind (fun pNode =>
      if pNode.value.name = pmsg.name.str then
        if pNode.value.say ≠ 1 then st.toAll pmsg
        else .done [(cfd, .record { pmsg with action := 7 })]
      else case4Loop st cfd pmsg fuel (some a))

def case4 (st : OnlineHeap) (cfd : ℤ) (pmsg : Msg) : Outcome (List (ℤ × Out)) :=
  st.case4Loop cfd pmsg st.fuel st.head

/-- The first loop of action 6 reads `pNode->next` before anything says that `pNode` is a node.
It returns `message`, cleared by each round but the last, and what is in `user.txt`. -/
def printUsers (heap : Heap Online) :
    ℕ → Option ℕ → CharArray 1024 → Bytes → Outcome (CharArray 1024 × Bytes)
  | 0, _, _, _ => .running
  | fuel + 1, p, message, content => (read heap p).bind (fun pNode =>
      if pNode.next = none then .done (message, content ++ (userLabel ++ pNode.value.name))
      else
        printUsers heap fuel pNode.next (.zero 1024)
          (content ++ (userLabel ++ pNode.value.name ++ text "\n")))

def case6 (st : OnlineHeap) (pmsg : Msg) : Outcome (List (ℤ × Out)) :=
  (printUsers st.heap (st.fuel + 1) st.head pmsg.message []).bind (fun r =>
    st.toAll { pmsg with message := r.1.memcpy (r.2.take 1024) })

/-- Actions 8 and -8, which take the target from `toname` and from `name`. -/
def caseSay (st : OnlineHeap) (target : Bytes) (say : ℤ) : Outcome OnlineHeap :=
  (st.getOnline target).bind (fun pNode =>
    if pNode = none then .done st
    else
      (modify st.heap pNode (fun node => { node with value := { node.value with say := say } })).map
        (fun heap => { st with heap := heap }))

/-- What the `switch` does to the list. Actions 2, 3 and 5 only look up the receiver. -/
def handle (st : OnlineHeap) (r : Request) : Outcome OnlineHeap :=
  if r.msg.action = 1 then if r.accepted then st.login r else .done st
  else if r.msg.action ∈ [2, 3, 5] then (st.findFd r.msg.toname.str).map (fun _ => st)
  else if r.msg.action = 4 then (st.case4 r.cfd r.msg).map (fun _ => st)
  else if r.msg.action = 6 then (st.case6 r.msg).map (fun _ => st)
  else if r.msg.action = 7 then st.login r
  else if r.msg.action = 8 then st.caseSay r.msg.toname.str 1
  else if r.msg.action = -8 then st.caseSay r.msg.name.str 0
  else if r.msg.action = 10 then st.case10 r.msg.name.str
  else .done st

end OnlineHeap

/-- A thread that stays in the loop of action 4 leaves the list to the others; a bad pointer is
the end of the process. -/
def requestStep (st : OnlineHeap) (r : Request) : Option OnlineHeap :=
  if r.address ∈ st.heap then none
  else
    match st.handle r with
    | .done st' => some st'
    | .running => some st
    | _ => none

def requestMachine : Machine OnlineHeap Request := ⟨requestStep⟩

/-- What the request does to the list of sessions. -/
def onlineAfter (online : List Online) (r : Request) : List Online :=
  if r.msg.action = 1 ∧ r.accepted ∨ r.msg.action = 7 then ⟨r.cfd, 0, r.msg.name.str⟩ :: online
  else if r.msg.action = 8 then setSay online r.msg.toname.str 1
  else if r.msg.action = -8 then setSay online r.msg.name.str 0
  else if r.msg.action = 10 then unlink online r.msg.name.str
  else online

variable {st : OnlineHeap} {l : List (ℕ × Online)}

/-! ## The traversals one by one -/

theorem unlink_map (l : List (ℕ × Online)) (name : Bytes) :
    unlink (l.map Prod.snd) name = (l.eraseP (fun x => x.2.name = name)).map Prod.snd := by
  induction l with
  | nil => rfl
  | cons x l ih =>
    by_cases hx : x.2.name = name
    · simp [unlink, hx]
    · simp [unlink, hx, ih]

theorem setSay_first {l₁ l₂ : List Online} {user : Online} {name : Bytes}
    (hbefore : ∀ e ∈ l₁, e.name ≠ name) (hname : user.name = name) (say : ℤ) :
    setSay (l₁ ++ user :: l₂) name say = l₁ ++ { user with say := say } :: l₂ := by
  induction l₁ with
  | nil => simp [setSay, hname]
  | cons e l₁ ih =>
    have he : e.name ≠ name := hbefore e List.mem_cons_self
    have hrest := ih fun e' he' => hbefore e' (List.mem_cons_of_mem _ he')
    simp [setSay, he, hrest]

theorem setSay_missing {l : List (ℕ × Online)} {name : Bytes} (h : Missing l name) (say : ℤ) :
    setSay (l.map Prod.snd) name say = l.map Prod.snd := by
  apply setSay_of_none
  rw [getOnline_eq_none_iff, List.map_map]
  simpa [Missing] using h

theorem login_done (st : OnlineHeap) (r : Request) : ∃ st', st.login r = .done st' := by
  have hlook := AList.lookup_insert (a := r.address)
    (b := (⟨⟨r.cfd, 0, r.msg.name.str⟩, r.garbage⟩ : Node Online)) st.heap
  exact ⟨_, by rw [OnlineHeap.login, OnlineHeap.insertLink, OnlineHeap.newUser,
    modify_of_lookup _ hlook]; rfl⟩

theorem toAll_eq (h : st.Holds l) (pmsg : Msg) :
    st.toAll pmsg = .done (l.map (fun x => (x.2.cfd, .record pmsg))) := by
  rw [OnlineHeap.toAll, OnlineHeap.fuel, h.visit]
  simp

theorem case4Loop_running {a : ℕ} {pNode : Node Online} {cfd : ℤ} {pmsg : Msg} (fuel : ℕ)
    (hlook : st.heap.lookup a = some pNode) (hname : pNode.value.name ≠ pmsg.name.str) :
    st.case4Loop cfd pmsg fuel (some a) = .running := by
  induction fuel with
  | zero => rfl
  | succ fuel ih => simpa [OnlineHeap.case4Loop, read_of_lookup hlook, hname] using ih

/-- Action 4 ends, or stays at a first node of another name. -/
theorem case4_eq (h : st.Holds l) (cfd : ℤ) (pmsg : Msg) :
    (∃ x l', l = x :: l' ∧ x.2.name ≠ pmsg.name.str ∧ st.case4 cfd pmsg = .running) ∨
      (∀ e, (l.map Prod.snd).head? = some e → e.name = pmsg.name.str) ∧
        st.case4 cfd pmsg = .done (groupWrites (l.map Prod.snd) cfd pmsg) := by
  cases l with
  | nil =>
    have hhead : st.head = none := h.chain
    refine .inr ⟨by simp, ?_⟩
    simp [OnlineHeap.case4, hhead, OnlineHeap.case4Loop, groupWrites, ServerModel.getOnline]
  | cons x l =>
    obtain ⟨a, user⟩ := x
    obtain ⟨hhead, next, hlook, -⟩ := id h.chain
    by_cases hname : user.name = pmsg.name.str
    · refine .inr ⟨by simpa using hname, ?_⟩
      have hfuel : st.fuel = l.length + 1 := h.length_keys.symm
      rw [OnlineHeap.case4, hhead, hfuel, OnlineHeap.case4Loop, read_of_lookup hlook,
        Outcome.done_bind, if_pos hname]
      by_cases hsay : user.say = 1
      · simp [groupWrites, ServerModel.getOnline, hname, hsay]
      · rw [if_pos hsay, toAll_eq h]
        simp [groupWrites, ServerModel.getOnline, hname, hsay]
    · refine .inl ⟨_, l, rfl, hname, ?_⟩
      rw [OnlineHeap.case4, hhead]
      exact case4Loop_running _ hlook hname

/-- The first loop of action 6 from a node on. -/
theorem printUsers_eq {heap : Heap Online} {p : Option ℕ} {x : ℕ × Online} {fuel : ℕ}
    (h : Chain heap p (x :: l)) (hfuel : l.length < fuel) (message : CharArray 1024)
    (content : Bytes) :
    OnlineHeap.printUsers heap fuel p message content =
      .done (if l = [] then message else .zero 1024,
        content ++ userText ((x :: l).map Prod.snd)) := by
  induction l generalizing p x fuel message content with
  | nil =>
    obtain ⟨rfl, next, hlook, rfl⟩ := h
    obtain _ | fuel := fuel
    · simp at hfuel
    simp [OnlineHeap.printUsers, read_of_lookup hlook, userText]
  | cons y l ih =>
    obtain ⟨rfl, next, hlook, hrest⟩ := h
    obtain _ | fuel := fuel
    · simp at hfuel
    have hnext : next ≠ none := by
      rw [hrest.1]
      exact Option.some_ne_none _
    have hih := ih hrest (by simpa using hfuel) (.zero 1024)
      (content ++ (userLabel ++ x.2.name ++ text "\n"))
    simp only [OnlineHeap.printUsers, read_of_lookup hlook, Outcome.done_bind, if_neg hnext, hih]
    simp [userText]

theorem case6_null (hhead : st.head = none) (pmsg : Msg) : st.case6 pmsg = .null := by
  simp [OnlineHeap.case6, OnlineHeap.printUsers, hhead]

theorem case6_eq {x : ℕ × Online} (h : st.Holds (x :: l)) (pmsg : Msg) :
    st.case6 pmsg = .done ((x :: l).map (fun y => (y.2.cfd, .record { pmsg with
      message := (if l = [] then pmsg.message else .zero 1024).memcpy
        ((userText ((x :: l).map Prod.snd)).take 1024) }))) := by
  have hfuel : l.length < st.fuel + 1 := by
    have := h.length_keys
    simp only [List.length_cons] at this
    simp only [OnlineHeap.fuel]
    omega
  rw [OnlineHeap.case6, printUsers_eq h.chain hfuel, Outcome.done_bind, toAll_eq h]
  rfl

theorem caseSay_eq (h : st.Holds l) (target : Bytes) (say : ℤ) :
    ∃ st' l', st.caseSay target say = .done st' ∧ st'.Holds l' ∧
      l'.map Prod.snd = setSay (l.map Prod.snd) target say := by
  have hget := OnlineHeap.getOnline_eq h target
  obtain ⟨hmissing, hfind⟩ | ⟨l₁, a, user, l₂, rfl, hbefore, hname, hfind⟩ :=
    missing_or_first l target
  · refine ⟨st, l, ?_, h, (setSay_missing hmissing say).symm⟩
    simp [OnlineHeap.caseSay, hget, hfind]
  · obtain ⟨next, hlook, -⟩ := h.split
    let user' : Online := { user with say := say }
    have hset := h.setValue (w := user') hlook
    refine ⟨⟨st.heap.insert a ⟨user', next⟩, st.head⟩, _, ?_, hset, ?_⟩
    · simp [OnlineHeap.caseSay, hget, hfind, modify_of_lookup _ hlook, user']
    · have hfirst : ∀ e ∈ l₁.map Prod.snd, e.name ≠ target := by
        intro e he
        obtain ⟨x, hx, rfl⟩ := List.mem_map.mp he
        exact hbefore x hx
      rw [List.map_append, List.map_append, List.map_cons, List.map_cons,
        setSay_first hfirst hname]

/-! ## One request -/

theorem login_holds (h : st.Holds l) (r : Request) :
    ∃ st', st.login r = .done st' ∧ (r.address ∉ st.heap →
      ∃ l', st'.Holds l' ∧ l'.map Prod.snd = ⟨r.cfd, 0, r.msg.name.str⟩ :: l.map Prod.snd) := by
  obtain ⟨st', hlogin⟩ := login_done st r
  refine ⟨st', hlogin, fun ha => ?_⟩
  obtain ⟨st'', heq, hholds⟩ :=
    OnlineHeap.insertLink_eq h ha r.garbage ⟨r.cfd, 0, r.msg.name.str⟩
  cases hlogin.symm.trans heq
  exact ⟨_, hholds, rfl⟩

/-- A request that does not ask for the list of users, or finds one, follows no bad pointer: it is
handled, or it stays in the loop of action 4. -/
theorem handle_cases (h : st.Holds l) (r : Request) (hsafe : r.msg.action = 6 → st.head ≠ none) :
    (r.msg.action = 4 ∧ (∃ x l', l = x :: l' ∧ x.2.name ≠ r.msg.name.str) ∧
        st.handle r = .running) ∨
      ∃ st', st.handle r = .done st' ∧ (r.address ∉ st.heap →
        ∃ l', st'.Holds l' ∧ l'.map Prod.snd = onlineAfter (l.map Prod.snd) r) := by
  have hsame (hdone : st.handle r = .done st)
      (hon : onlineAfter (l.map Prod.snd) r = l.map Prod.snd) :
      ∃ st', st.handle r = .done st' ∧ (r.address ∉ st.heap →
        ∃ l', st'.Holds l' ∧ l'.map Prod.snd = onlineAfter (l.map Prod.snd) r) :=
    ⟨st, hdone, fun _ => ⟨l, h, hon.symm⟩⟩
  by_cases h1 : r.msg.action = 1
  · right
    by_cases hacc : r.accepted
    · have hlogin := login_holds h r
      simpa [OnlineHeap.handle, onlineAfter, h1, hacc] using hlogin
    · exact hsame (by simp [OnlineHeap.handle, h1, hacc]) (by simp [onlineAfter, h1, hacc])
  by_cases h7 : r.msg.action = 7
  · have hlogin := login_holds h r
    right
    simpa [OnlineHeap.handle, onlineAfter, h7] using hlogin
  by_cases h8 : r.msg.action = 8
  · obtain ⟨st', l', heq, hholds, hsay⟩ := caseSay_eq h r.msg.toname.str 1
    refine .inr ⟨st', ?_, fun _ => ⟨l', hholds, ?_⟩⟩
    · simpa [OnlineHeap.handle, h8] using heq
    · simpa [onlineAfter, h8] using hsay
  by_cases hm8 : r.msg.action = -8
  · obtain ⟨st', l', heq, hholds, hsay⟩ := caseSay_eq h r.msg.name.str 0
    refine .inr ⟨st', ?_, fun _ => ⟨l', hholds, ?_⟩⟩
    · simpa [OnlineHeap.handle, hm8] using heq
    · simpa [onlineAfter, hm8] using hsay
  by_cases h10 : r.msg.action = 10
  · obtain ⟨st', heq, hholds⟩ := OnlineHeap.case10_eq h r.msg.name.str
    refine .inr ⟨st', ?_, fun _ => ⟨_, hholds, ?_⟩⟩
    · simpa [OnlineHeap.handle, h10] using heq
    · simp [onlineAfter, h10, unlink_map]
  -- the other actions leave the list as it is
  have hon : onlineAfter (l.map Prod.snd) r = l.map Prod.snd := by
    simp [onlineAfter, h1, h7, h8, hm8, h10]
  by_cases h235 : r.msg.action ∈ [2, 3, 5]
  · refine .inr (hsame ?_ hon)
    simp only [OnlineHeap.handle, if_neg h1, if_pos h235, OnlineHeap.findFd_eq h, Outcome.map_done]
  by_cases h4 : r.msg.action = 4
  · have hhandle : st.handle r = (st.case4 r.cfd r.msg).map (fun _ => st) := by
      simp [OnlineHeap.handle, h4]
    rcases case4_eq h r.cfd r.msg with ⟨x, l', hl, hname, hrun⟩ | ⟨-, hdone⟩
    · exact .inl ⟨h4, ⟨x, l', hl, hname⟩, by rw [hhandle, hrun]; rfl⟩
    · exact .inr (hsame (by rw [hhandle, hdone]; rfl) hon)
  by_cases h6 : r.msg.action = 6
  · have hhandle : st.handle r = (st.case6 r.msg).map (fun _ => st) := by
      simp [OnlineHeap.handle, h6]
    cases l with
    | nil => exact absurd (h.chain : st.head = none) (hsafe h6)
    | cons x l => exact .inr (hsame (by rw [hhandle, case6_eq h]; rfl) hon)
  · refine .inr (hsame ?_ hon)
    simp only [OnlineHeap.handle, if_neg h1, if_neg h235, if_neg h4, if_neg h6, if_neg h7,
      if_neg h8, if_neg hm8, if_neg h10]

theorem handle_null {r : Request} (h6 : r.msg.action = 6) (hhead : st.head = none) :
    st.handle r = .null := by
  simp [OnlineHeap.handle, h6, case6_null hhead, Outcome.map]

theorem handle_ne_null_iff (h : st.Holds l) (r : Request) :
    st.handle r ≠ .null ↔ (r.msg.action = 6 → st.head ≠ none) := by
  constructor
  · intro hnull h6 hhead
    exact hnull (handle_null h6 hhead)
  · intro hsafe
    rcases handle_cases h r hsafe with ⟨-, -, hrun⟩ | ⟨st', hdone, -⟩
    · simp [hrun]
    · simp [hdone]

/-! ## The handlers over lists do the same -/

section

variable {DB : Type} (sql : Sqlite DB) (junk : CharArray 20) (srv : Server DB)

/-- The password query of the request answers as the request says. -/
def Answered (r : Request) : Prop :=
  r.accepted ↔ (querypassword sql srv.db junk r.msg).2 = 1

theorem dispatch_onlineAfter {r : Request} (hacc : Answered sql junk srv r) :
    (dispatch sql junk srv r.cfd r.msg).1.online = onlineAfter srv.online r := by
  have hlogin : LogsIn sql junk srv.db r.msg ↔ r.msg.action = 1 ∧ r.accepted ∨ r.msg.action = 7 := by
    exact or_congr (and_congr_right fun _ => hacc.symm) Iff.rfl
  cases dispatch_listEffect sql junk srv r.cfd r.msg with
  | same hact hno hon =>
    rw [hlogin] at hno
    simp only [List.mem_cons, List.not_mem_nil, or_false, not_or] at hact
    simp [onlineAfter, hno, hact, hon]
  | muted hact hon => simp [onlineAfter, hact, hon]
  | unmuted hact hon => simp [onlineAfter, hact, hon]
  | entered hyes hon => rw [hon, onlineAfter, if_pos (hlogin.mp hyes)]
  | left hact hon => simp [onlineAfter, hact, hon]

/-- How a request over the nodes compares with the handler over the list of sessions. -/
def Agrees (o : Outcome OnlineHeap) (r : Server DB × Pc) : Prop :=
  match o with
  | .done st => ∃ l, st.Holds l ∧ r.1.online = l.map Prod.snd
  | .running => r.2 = .spinning
  | .null => r.2 = .fault
  | .dangling => False

variable {srv}

theorem handle_agrees (h : st.Holds l) (hon : srv.online = l.map Prod.snd) {r : Request}
    (ha : r.address ∉ st.heap) (hacc : Answered sql junk srv r) :
    Agrees (st.handle r) (dispatch sql junk srv r.cfd r.msg) := by
  by_cases hsafe : r.msg.action = 6 → st.head ≠ none
  · rcases handle_cases h r hsafe with ⟨h4, ⟨x, l', rfl, hname⟩, hrun⟩ | ⟨st', hdone, hnext⟩
    · rw [hrun, dispatch_eq_case4 h4, case4_spins sql r.cfd hon hname]
      rfl
    · obtain ⟨l', hholds, hmap⟩ := hnext ha
      rw [hdone]
      exact ⟨l', hholds, by rw [dispatch_onlineAfter sql junk srv hacc, hon, hmap]⟩
  · simp only [Classical.not_imp, not_not] at hsafe
    have hnil : srv.online = [] := by
      cases l with
      | nil => exact hon
      | cons x l => exact nomatch hsafe.2.symm.trans h.chain.1
    rw [handle_null hsafe.1 hsafe.2, dispatch_eq_case6 hsafe.1]
    simp [Agrees, ServerModel.case6, hnil]

/-- Actions 4 and 6 write to the same connections the same records. -/
theorem case4_writes {ws : List (ℤ × Out)} (h : st.Holds l) (hon : srv.online = l.map Prod.snd)
    {cfd : ℤ} {pmsg : Msg} (hdone : st.case4 cfd pmsg = .done ws) :
    Appends srv (ServerModel.case4 sql srv cfd pmsg).1 ws := by
  rcases case4_eq h cfd pmsg with ⟨x, l', -, -, hrun⟩ | ⟨hfirst, hdone'⟩
  · cases hdone.symm.trans hrun
  · cases hdone.symm.trans hdone'
    cases l with
    | nil =>
      rw [case4_nil hon]
      simp [Appends, groupWrites, ServerModel.getOnline]
    | cons x l =>
      obtain ⟨srv', hcase, hws⟩ := case4_found sql cfd hon (hfirst x.2 rfl)
      rw [hcase, ← hon]
      exact hws

theorem case6_writes {x : ℕ × Online} (h : st.Holds (x :: l))
    (hon : srv.online = (x :: l).map Prod.snd) (pmsg : Msg) :
    ∃ ws, st.case6 pmsg = .done ws ∧ Appends srv (ServerModel.case6 srv pmsg).1 ws := by
  refine ⟨_, case6_eq h pmsg, ?_⟩
  cases l with
  | nil => simp [ServerModel.case6, hon, Appends, Server.toAll]
  | cons y l => simp [ServerModel.case6, hon, Appends, Server.toAll]

end

/-! ## Runs of requests -/

/-- Every request leaves a list of nodes, or ends the process. -/
theorem holds_step {st' : OnlineHeap} {r : Request} (h : ∃ l, st.Holds l)
    (hstep : requestStep st r = some st') : ∃ l', st'.Holds l' := by
  obtain ⟨l, h⟩ := h
  simp only [requestStep] at hstep
  split_ifs at hstep with ha
  by_cases hsafe : r.msg.action = 6 → st.head ≠ none
  · rcases handle_cases h r hsafe with ⟨-, -, hrun⟩ | ⟨st₁, hdone, hnext⟩
    · rw [hrun] at hstep
      cases hstep
      exact ⟨l, h⟩
    · rw [hdone] at hstep
      cases hstep
      obtain ⟨l', hholds, -⟩ := hnext ha
      exact ⟨l', hholds⟩
  · simp only [Classical.not_imp, not_not] at hsafe
    rw [handle_null hsafe.1 hsafe.2] at hstep
    cases hstep

/-- From the start on, the requests handled follow no null pointer exactly if none of them asks for
the list of users while nobody is online. -/
theorem no_null_followed_iff (rs : List Request) :
    requestMachine.EachStep (fun st r => st.handle r ≠ .null) .start rs ↔
      requestMachine.EachStep (fun st r => r.msg.action = 6 → st.head ≠ none) .start rs := by
  have hiff (st : OnlineHeap) (r : Request) (h : ∃ l, st.Holds l) :
      st.handle r ≠ .null ↔ (r.msg.action = 6 → st.head ≠ none) := by
    obtain ⟨l, h⟩ := h
    exact handle_ne_null_iff h r
  exact eachStep_congr (M := requestMachine) (fun _ _ _ h hstep => holds_step h hstep) hiff
    ⟨[], Holds.empty⟩

/-- The first request of all asks for the list of users. -/
theorem users_asked_of_nobody :
    ¬ requestMachine.EachStep (fun st r => st.handle r ≠ .null) .start
      [⟨4, { Msg.zero with action := 6 }, false, 0, none⟩] := by
  intro hall
  exact hall.1 rfl

end LinuxCat.LinkedOnline
