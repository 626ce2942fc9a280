import LinuxCat.ChatDelivery
import LinuxCat.TypedSessions

/-! # From one keyboard to another screen

Every client is given its input by a user who registers, logs in, talks and logs out, and is let in.
Whatever the order of all steps, no screen shows a private message that nobody has typed. -/
namespace LinuxCat.ChatSystem
open LabelledMachines LabelledMachines.Machine ByteLayouts Messages ServerModel WordScans Histories
open ClientModel (Client Shown Visit Wish Follows Asks Word script wishes)
open UserLists (isspace)

variable {DB : Type} {sql : Sqlite DB} {vs : ℕ → List Visit}

def System.client? (s : System DB) (c : ℕ) : Option Client :=
  match s.peers[c]? with
  | some (.user u) => some u.client
  | _ => none

theorem client?_of_user {s : System DB} {c : ℕ} {u : User} (h : s.peers[c]? = some (.user u)) :
    s.client? c = some u.client := by
  rw [System.client?, h]

/-- The `c`-th client is typed `vs c`, the files that are named in it are found, and no login has
been refused. -/
def Types (vs : ℕ → List Visit) (s : System DB) : Label → Prop
  | .connect stdin _ _ => words isspace stdin = script (vs s.peers.length)
  | .main c file => (s.client? c).map Client.pc = some .openFile → file.isSome
  | .read c _ => ∀ m ∈ s.inbox c, m.action ≠ -1
  | _ => True

instance (s : System DB) (a : Label) : Decidable (Types vs s a) := by
  cases a <;> unfold Types <;> infer_instance

/-- As long as its process goes on, the client is behind what is typed. -/
structure Typing (vs : List Visit) (c : Client) : Prop where
  follows : c.running = true → Follows vs c
  asked : ∃ done, done <+: wishes vs ∧ List.Forall₂ Asks c.written done

theorem typing_of_follows {vs : List Visit} {c : Client} (h : Follows vs c) : Typing vs c := by
  refine ⟨fun _ => h, ?_⟩
  obtain ⟨done, todo, hsplit, -, hdone⟩ := h
  exact ⟨done, ⟨todo, hsplit.symm⟩, hdone⟩

/-- All clients. -/
def AllTyping (vs : ℕ → List Visit) (s : System DB) : Prop :=
  ∀ (c : ℕ) (u : User), s.peers[c]? = some (.user u) → Typing (vs c) u.client

theorem AllTyping.onUser {s : System DB} (h : AllTyping vs s) {c : ℕ} {u' : User}
    (ht : Typing (vs c) u'.client) : AllTyping vs { s with peers := s.peers.set c (.user u') } := by
  intro c' w hw
  rcases WaitQueues.getElem?_set_cases hw with ⟨rfl, heq⟩ | ⟨-, hw⟩
  · cases heq
    exact ht
  · exact h c' w hw

theorem allTyping_step {s t : System DB} {a : Label} (hin : InOrder s) (h : AllTyping vs s)
    (htypes : Types vs s a) (hstep : chatStep sql s a = some t) : AllTyping vs t := by
  cases chatStep_cases hstep with
  | connect stdin num pmsg t ht =>
    intro c w hw
    rcases WaitQueues.getElem?_concat_cases hw with ⟨rfl, heq⟩ | hw
    · cases heq
      exact typing_of_follows (ClientModel.follows_start htypes num pmsg)
    · exact h c w hw
  | connectBlock t ht =>
    intro c w hw
    rcases WaitQueues.getElem?_concat_cases hw with ⟨rfl, heq⟩ | hw
    · cases heq
    · exact h c w hw
  | main c file u d hu hmain =>
    have hfollows := (h c u hu).follows (running_of_mainStep hmain)
    have hfile : u.client.pc = .openFile → file.isSome := fun hpc =>
      htypes (by rw [client?_of_user hu, Option.map_some, hpc])
    exact h.onUser (typing_of_follows (ClientModel.follows_main hfollows hfile hmain).1)
  | read c r u m d hu hrunning hreading hm hd =>
    have hmem : m ∈ s.inbox c := List.mem_of_getElem? hm
    have hread := hd ▸ ClientModel.threadRead_cases u.client r m
    have hasked : d.written = u.client.written := by
      cases hread with
      | goes sfileId shown hid => rfl
      | leaves hnot => rfl
    refine h.onUser ⟨fun hgoes => ((h c u hu).follows hrunning).read ?_ hread ?_,
      hasked ▸ (h c u hu).asked⟩
    · by_cases hanswer : Msg.isAnswer m = true
      · have hunread : m ∈ u.unread (s.inbox c) := by
          rw [User.unread, drop_eq_cons hm]
          exact List.mem_cons_self
        have hact : m.action = 1 :=
          (of_decide_eq_true hanswer).resolve_right (htypes m hmem)
        exact .inr ⟨hact, (hin.linked c u hu).waits_of_answer hrunning hunread hanswer⟩
      · exact .inl (by simpa [Msg.isAnswer] using hanswer)
    · exact (of_decide_eq_true hgoes).2
  | serverExit c u hu hreading =>
    exact h.onUser ⟨(h c u hu).follows, (h c u hu).asked⟩
  | kill c u hu =>
    exact h.onUser ⟨fun hrunning => by simp [Client.running, Client.goto] at hrunning, (h c u hu).asked⟩
  | serve c inp p p' t hp hgive ht =>
    cases give_cases hgive with
    | taken u m junk hinp hm => exact h.onUser (h c u hp)
    | ended u hzero => exact h.onUser (h c u hp)
    | block hblock =>
      intro c' w hw
      rw [set_self hp] at hw
      exact h c' w hw

theorem allTyping_run {db : DB} {as : List Label} {s : System DB}
    (htypes : (chatMachine sql).EachStep (Types vs) (.start db) as)
    (h : (chatMachine sql).run (.start db) as = some s) : AllTyping vs s :=
  (run_invariant_of_eachStep (M := chatMachine sql) (I := fun s => InOrder s ∧ AllTyping vs s)
    (fun _ _ _ hs hq hstep => ⟨inOrder_step hs.1 hstep, allTyping_step hs.1 hs.2 hq hstep⟩)
    ⟨inOrder_start db, fun c u hu => by simp [System.start] at hu⟩ htypes h).2

/-! ## What is said -/

/-- The user, the addressee and the text of a private message. -/
def Msg.sent (m : Msg) : Bytes × Bytes × Bytes := (m.name.str, m.toname.str, m.message.str)

/-- The text of this field that is meant. -/
def Wish.text (w : Wish) (f : Field) : Bytes := (w.texts.lookup f).getD []

def Wish.isPrivate (w : Wish) : Bool := w.action = 2

def Wish.sent (w : Wish) : Bytes × Bytes × Bytes :=
  (Wish.text w .name, Wish.text w .toname, Wish.text w .message)

/-- What is typed in the conversations, in its order. -/
def typedMessages (vs : List Visit) : List (Bytes × Bytes × Bytes) :=
  ((wishes vs).filter Wish.isPrivate).map Wish.sent

theorem private_wish {vs : List Visit} {w : Wish} (hw : w ∈ wishes vs) (hact : w.action = 2) :
    ∃ (name : Word .name) (password : Word .password) (toname : Word .toname) (m : Word .message),
      w = ⟨2, (.message, m.bytes) :: (.toname, toname.bytes) :: ClientModel.user name password⟩ := by
  obtain ⟨v, -, hw⟩ := List.mem_flatMap.mp hw
  cases v with
  | register name password =>
    obtain rfl := List.mem_singleton.mp hw
    cases hact
  | session name password talks =>
    simp only [Visit.wishes, List.mem_cons, List.mem_append, List.mem_flatMap, List.not_mem_nil,
      or_false] at hw
    rcases hw with rfl | rfl | ⟨talk, -, hw⟩ | rfl
    · cases hact
    · cases hact
    · cases talk with
      | chat toname said =>
        rcases List.mem_cons.mp hw with rfl | hw
        · cases hact
        obtain ⟨x, -, rfl⟩ := List.mem_map.mp hw
        cases x with
        | message m hm => exact ⟨name, password, toname, m, rfl⟩
        | file filename => cases hact
      | all ms =>
        obtain ⟨x, -, rfl⟩ := List.mem_map.mp hw
        cases hact
    · cases hact

theorem sent_of_asks {vs : List Visit} {m : Msg} {w : Wish} (hw : w ∈ wishes vs) (h : Asks m w)
    (hact : w.action = 2) : Msg.sent m = Wish.sent w := by
  obtain ⟨name, password, toname, x, rfl⟩ := private_wish hw hact
  have hname := h.2 (.name, name.bytes) (by simp [ClientModel.user])
  have htoname := h.2 (.toname, toname.bytes) (by simp)
  have htext := h.2 (.message, x.bytes) (by simp)
  exact Prod.ext hname (Prod.ext htoname htext)

/-- What is asked for in conversations is what is typed in them. -/
theorem sent_of_done {vs : List Visit} {written : List Msg} {done : List Wish}
    (h : List.Forall₂ Asks written done) (hdone : ∀ w ∈ done, w ∈ wishes vs) :
    (written.filter Msg.isPrivate).map Msg.sent = (done.filter Wish.isPrivate).map Wish.sent := by
  induction h with
  | nil => rfl
  | @cons m w ms ws hasks _ ih =>
    have ih := ih fun x hx => hdone x (List.mem_cons_of_mem _ hx)
    have hsame : Msg.isPrivate m = Wish.isPrivate w := by
      rw [Msg.isPrivate, Wish.isPrivate, hasks.1]
    by_cases hact : w.action = 2
    · have hprivate : Wish.isPrivate w = true := decide_eq_true hact
      rw [List.filter_cons_of_pos (hsame.trans hprivate), List.filter_cons_of_pos hprivate,
        List.map_cons, List.map_cons, ih, sent_of_asks (hdone w List.mem_cons_self) hasks hact]
    · have hprivate : ¬ Wish.isPrivate w = true := fun h => hact (of_decide_eq_true h)
      rw [List.filter_cons_of_neg (hsame ▸ hprivate), List.filter_cons_of_neg hprivate, ih]

/-- In every framed run in which all clients are typed registrations, logins, conversations and
logouts, are let in and find their files: what is delivered from one client to another was typed in
the first, as it was typed and in its order, and no client shows a private message that was not
typed, with this text and by this user, in some client. -/
theorem shown_was_typed (sql : Sqlite DB) (db : DB) (vs : ℕ → List Visit) (as : List Event)
    (s : Network DB) (htypes : (networkMachine sql).EachStep
      (fun s a => Framed s a ∧ Types vs s.system (s.label a)) (.start db) as)
    (h : (networkMachine sql).run (.start db) as = some s) (b : ℕ) (u : User)
    (hu : s.system.peers[b]? = some (.user u)) :
    (∀ (a : ℕ) (v : User), s.system.peers[a]? = some (.user v) →
      ((s.system.delivered a b).map Msg.sent).Sublist (typedMessages (vs a))) ∧
    ∀ x ∈ u.client.shown.filterMap Shown.private?,
      ∃ a toname, (x.1, toname, x.2) ∈ typedMessages (vs a) := by
  obtain ⟨bs, htyping, hrecords⟩ := framed_run htypes h
  have hconserved := conserved_run hrecords
  have hdelivered (a : ℕ) (v : User) (hv : s.system.peers[a]? = some (.user v)) :
      ((s.system.delivered a b).map Msg.sent).Sublist (typedMessages (vs a)) := by
    obtain ⟨done, hdone, hasks⟩ := (allTyping_run htyping hrecords a v hv).asked
    have hsent : (s.system.delivered a b).Sublist (v.client.written.filter Msg.isPrivate) :=
      (private_taken hconserved hv ▸ delivered_sublist s.system a b).trans
        ((List.take_sublist _ _).filter _)
    rw [typedMessages]
    refine (hsent.map Msg.sent).trans ?_
    rw [sent_of_done hasks fun w hw => hdone.subset hw]
    exact ((hdone.sublist.filter _).map _)
  refine ⟨hdelivered, fun x hx => ?_⟩
  obtain ⟨m, hm, rfl⟩ := List.mem_map.mp ((shown_private hrecords hu).subset hx)
  obtain ⟨i, hi, hm⟩ := List.mem_flatMap.mp hm
  obtain ⟨a, v, hcfd, hv⟩ := hconserved.of_client hi (List.ne_nil_of_mem hm)
  have hmem : m ∈ s.system.delivered a b :=
    List.mem_flatMap.mpr ⟨i, List.mem_filter.mpr ⟨hi, by simp [hcfd]⟩, hm⟩
  exact ⟨a, m.toname.str, (hdelivered a v hv).subset (List.mem_map_of_mem hmem)⟩

/-- A text as a word that fits into the field. -/
def asWord {f : Field} (bs : Bytes) (h : IsWord isspace bs ∧ 0 ∉ bs ∧ bs.length < f.width) : Word f :=
  ⟨bs, h.1, h.2.1, h.2.2⟩

theorem fits_42 (f : Field) :
    IsWord isspace [52, 50] ∧ (0 : UInt8) ∉ [52, 50] ∧ [(52 : UInt8), 50].length < f.width := by
  cases f <;> decide +kernel

theorem fits_b : IsWord isspace [98] ∧ (0 : UInt8) ∉ [98] ∧ [(98 : UInt8)].length < Field.name.width := by
  decide +kernel

theorem fits_hi : IsWord isspace [104, 105] ∧ (0 : UInt8) ∉ [104, 105] ∧
    [(104 : UInt8), 105].length < Field.message.width := by
  decide +kernel

theorem hi_said : (asWord [104, 105] fits_hi).bytes ≠ text "sfile" ∧
    (asWord [104, 105] fits_hi).bytes ≠ text "quite" := by
  decide +kernel

/-- The name and the password `42`. -/
def word42 (f : Field) : Word f := asWord [52, 50] (fits_42 f)

/-- `42` only logs in and out, `b` says `hi` to `42`. -/
def twoVisits (c : ℕ) : List Visit :=
  if c = 0 then [.session (word42 .name) (word42 .password) []]
  else
    [.session (asWord [98] fits_b) (word42 .password)
      [.chat (word42 .toname) [.message (asWord [104, 105] fits_hi) hi_said]]]

theorem conversation_typed :
    ∃ s u, (networkMachine sqlite42).run (.start ()) conversation = some s ∧
      s.system.peers[0]? = some (.user u) ∧
      u.client.shown.getLast? = some (.said [] [98] [104, 105]) ∧
      ∀ x ∈ u.client.shown.filterMap Shown.private?,
        ∃ a toname, (x.1, toname, x.2) ∈ typedMessages (twoVisits a) := by
  obtain ⟨s, u, v, hs, hu, -, hlast, -⟩ := conversation_runs
  have htypes : (networkMachine sqlite42).EachStep
      (fun s a => Types twoVisits s.system (s.label a)) (.start ()) conversation := by
    decide +kernel
  exact ⟨s, u, hs, hu, hlast.2.2.2, (shown_was_typed sqlite42 () twoVisits conversation s
    (conversation_framed.and htypes) hs 0 u hu).2⟩

end LinuxCat.ChatSystem
