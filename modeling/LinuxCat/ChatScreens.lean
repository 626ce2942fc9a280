import LinuxCat.ChatRuns

/-! # What the clients print

The rounds of `thread_read` print line by line what the records they have read say, in their order.
-/
namespace LinuxCat.ChatSystem
open LabelledMachines LabelledMachines.Machine ByteLayouts Messages ServerModel Histories
open ClientModel (Client Shown)

variable {DB : Type} {sql : Sqlite DB}

/-- What a round of `thread_read` prints for a record. -/
def printed (r : ClientModel.Round) (m : Msg) : Option Shown :=
  if m.action = 255 then some (.line (text "注册失败"))
  else if m.action = 2 then some (.said r.now m.name.str m.message.str)
  else if m.action = -2 then some (.line (text "未上线"))
  else if m.action = 4 then some (.saidTo m.name.str m.toname.str m.message.str)
  else if m.action = 6 then (r.users m).map .users
  else if m.action = 7 then some (.line (text "你被禁言了！"))
  else if m.action = 8 then some (.line (text "禁言成功！"))
  else if m.action = -8 then some (.line (text "解除禁言！"))
  else if m.action = 9 then (r.history m).map .history
  else none

/-- The line it prints at the end of the connection. -/
def exitLine : Shown := .line (text "server exit!")

theorem shown_showLines (c : Client) (lines : Option (List Bytes)) (f : List Bytes → Shown) :
    (c.showLines lines f).shown = c.shown ++ (lines.map f).toList ∧
      (c.showLines lines f).reading = c.reading := by
  cases lines <;> simp [Client.showLines, Client.show, Client.goto]

theorem threadRead_shown (c : Client) (r : ClientModel.Round) (m : Msg) :
    (ClientModel.threadRead c r m).shown = c.shown ++ (printed r m).toList ∧
      (ClientModel.threadRead c r m).reading = c.reading := by
  by_cases h : m.action ∈ [255, 1, -1, 2, -2, 3, 4, 6, 7, 8, -8, 9]
  · simp only [List.mem_cons, List.not_mem_nil, or_false] at h
    rcases h with h | h | h | h | h | h | h | h | h | h | h | h <;>
      simp [ClientModel.threadRead, printed, h, Client.show, shown_showLines]
  · simp only [List.mem_cons, List.not_mem_nil, or_false, not_or] at h
    simp [ClientModel.threadRead, printed, h]

/-- What the rounds of a client have printed for the records it has read, and the line of the end of
the connection. -/
def OnScreen (u : User) (inbox : List Msg) : Prop :=
  ∃ rounds : List ClientModel.Round, rounds.length = u.received ∧ u.client.shown =
    (rounds.zip (inbox.take u.received)).filterMap (fun r => printed r.1 r.2) ++
      if u.client.reading then [] else [exitLine]

theorem onScreen_start (stdin : Bytes) (num : ℤ) (pmsg : Msg) (inbox : List Msg) :
    OnScreen ⟨.start stdin num pmsg, 0, 0⟩ inbox :=
  ⟨[], rfl, rfl⟩

theorem OnScreen.congr {u u' : User} {inbox : List Msg} (h : OnScreen u inbox)
    (hreceived : u'.received = u.received) (hshown : u'.client.shown = u.client.shown)
    (hreading : u'.client.reading = u.client.reading) : OnScreen u' inbox := by
  obtain ⟨rounds, hlen, heq⟩ := h
  exact ⟨rounds, by rw [hlen, hreceived], by rw [hshown, heq, hreceived, hreading]⟩

theorem OnScreen.read {u : User} {inbox : List Msg} {m : Msg} (h : OnScreen u inbox)
    (hreading : u.client.reading = true) (hm : inbox[u.received]? = some m) (r : ClientModel.Round) :
    OnScreen { u with
      client := ClientModel.threadRead u.client r m
      received := u.received + 1 } inbox := by
  obtain ⟨rounds, hlen, heq⟩ := h
  obtain ⟨hshown, hreads⟩ := threadRead_shown u.client r m
  have hzip : rounds.length = (inbox.take u.received).length := by
    rw [hlen, List.length_take, Nat.min_eq_left]
    exact (Nat.le_succ _).trans (succ_le_of_getElem? hm)
  refine ⟨rounds ++ [r], by simp [hlen], ?_⟩
  rw [hshown, heq, hreads, hreading, take_succ_of_getElem? hm, List.zip_append hzip,
    List.filterMap_append]
  cases hp : printed r m <;> simp [hp]

theorem OnScreen.serverExit {u : User} {inbox : List Msg} (h : OnScreen u inbox)
    (hreading : u.client.reading = true) :
    OnScreen { u with client := ClientModel.serverExit u.client } inbox := by
  obtain ⟨rounds, hlen, heq⟩ := h
  exact ⟨rounds, hlen, by simp [ClientModel.serverExit, Client.show, heq, hreading, exitLine]⟩

theorem OnScreen.append {u : User} {inbox : List Msg} (h : OnScreen u inbox)
    (hreceived : u.received ≤ inbox.length) (ws : List Msg) : OnScreen u (inbox ++ ws) := by
  obtain ⟨rounds, hlen, heq⟩ := h
  exact ⟨rounds, hlen, by rw [heq, take_append_of_le hreceived]⟩

/-! ## Runs -/

def Screens (s : System DB) : Prop :=
  ∀ (c : ℕ) (u : User), s.peers[c]? = some (.user u) → OnScreen u (s.inbox c)

theorem Screens.onUser {s : System DB} (h : Screens s) {c : ℕ} {u' : User}
    (hscreen : OnScreen u' (s.inbox c)) : Screens { s with peers := s.peers.set c (.user u') } := by
  intro c' w hw
  rcases WaitQueues.getElem?_set_cases hw with ⟨rfl, heq⟩ | ⟨-, hw⟩
  · cases heq
    exact hscreen
  · exact h c' w hw

theorem screens_step {s t : System DB} {a : Label} (hin : InOrder s) (h : Screens s)
    (hstep : chatStep sql s a = some t) : Screens t := by
  have haccept {t : ServerState DB} (ht : serverStep sql s.server .accept = some t) (p : Peer)
      (hp : ∀ u, p = .user u → OnScreen u []) : Screens (⟨t, s.peers ++ [p]⟩ : System DB) := by
    obtain ⟨-, rfl⟩ | ⟨c, inp, k, srv, pc, ha, -⟩ := serverStep_cases ht
    · intro c w hw
      rcases WaitQueues.getElem?_concat_cases hw with ⟨rfl, rfl⟩ | hw
      · have hscreen : OnScreen w (s.inbox s.peers.length) := by
          rw [hin.inbox_new]
          exact hp w rfl
        exact hscreen
      · exact h c w hw
    · cases ha
  cases chatStep_cases hstep with
  | connect stdin num pmsg t ht =>
    refine haccept ht _ fun u hu => ?_
    cases hu
    exact onScreen_start stdin num pmsg []
  | connectBlock t ht => exact haccept ht _ fun u hu => by cases hu
  | main c file u d hu hmain =>
    obtain ⟨hshown, hreading⟩ := (ClientModel.mainStep_cases hmain).shown
    exact h.onUser ((h c u hu).congr rfl hshown hreading)
  | read c r u m d hu hrunning hreading hm hd =>
    subst hd
    exact h.onUser ((h c u hu).read hreading hm r)
  | serverExit c u hu hreading => exact h.onUser ((h c u hu).serverExit hreading)
  | kill c u hu => exact h.onUser ((h c u hu).congr rfl rfl rfl)
  | serve c inp p p' t hp hgive ht =>
    obtain ⟨ha, -⟩ | ⟨c', inp', k, srv, pc, ha, hk, hr, rfl⟩ := serverStep_cases ht
    · cases ha
    cases ha
    intro c' w hw
    rw [System.inbox, served_appends hr, recordsTo_append]
    rcases WaitQueues.getElem?_set_cases hw with ⟨rfl, rfl⟩ | ⟨-, hw⟩
    · generalize hw : Peer.user w = q at hgive
      cases give_cases hgive with
      | taken u m junk hinp hm =>
        cases hw
        exact ((h c' u hp).congr rfl rfl rfl).append (hin.linked c' u hp).received _
      | ended u hzero =>
        cases hw
        exact (h c' w hp).append (hin.linked c' w hp).received _
      | block hblock => cases hw
    · exact (h c' w hw).append (hin.linked c' w hw).received _

theorem screens_run {db : DB} {as : List Label} {s : System DB}
    (h : (chatMachine sql).run (.start db) as = some s) : Screens s :=
  (run_invariant (M := chatMachine sql) (I := fun s => InOrder s ∧ Screens s)
    (fun _ _ _ hs hstep => ⟨inOrder_step hs.1 hstep, screens_step hs.1 hs.2 hstep⟩)
    ⟨inOrder_start db, fun c u hu => by simp [System.start] at hu⟩ h).2

end LinuxCat.ChatSystem
