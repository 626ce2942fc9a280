import LinuxCat.HandlerEffects

/-! # The first messages of a transfer

Action 3 answers the sender, who may then open block connections, and only behind that tells
the receiver with -3. Which of the two the receiver hears first is a race between the handler
of the request and the handlers of the blocks. -/
namespace LinuxCat.ServerModel
open LabelledMachines ByteLayouts Messages WaitQueues

variable {DB : Type} {sql : Sqlite DB}

/-- The sender has its reply for the transfer of which `m` is a header. -/
def Replied (written : List (ℤ × Out)) (m : Msg) : Prop :=
  ∃ w ∈ written, match w.2 with
    | .record r => r.action = 3 ∧ r.sfileId = m.sfileId ∧ r.toname.str = m.toname.str
    | _ => False

instance (written : List (ℤ × Out)) (m : Msg) : Decidable (Replied written m) :=
  have (o : Out) : Decidable (match o with
    | .record r => r.action = 3 ∧ r.sfileId = m.sfileId ∧ r.toname.str = m.toname.str
    | _ => False) := by cases o <;> infer_instance
  inferInstanceAs (Decidable (∃ w ∈ written, _))

theorem Replied.exists_reply {written : List (ℤ × Out)} {m : Msg} (h : Replied written m) :
    ∃ fd r, (fd, Out.record r) ∈ written ∧ r.action = 3 ∧ r.sfileId = m.sfileId ∧
      r.toname.str = m.toname.str := by
  obtain ⟨⟨fd, o⟩, hw, hr⟩ := h
  cases o with
  | record r => exact ⟨fd, r, hw, hr⟩
  | raw bs => exact hr.elim
  | close => exact hr.elim

/-- What the clients send: no one logs in or out, and a header follows the reply. -/
def Sent (s : ServerState DB) (m : Msg) : Prop :=
  m.action ∉ [1, 7, 10] ∧ (m.action = 5 → Replied s.srv.written m)

instance (s : ServerState DB) (m : Msg) : Decidable (Sent s m) :=
  inferInstanceAs (Decidable (_ ∧ _))

def transferringStep (sql : Sqlite DB) (s : ServerState DB) (a : ServerAction) :
    Option (ServerState DB) :=
  if ∀ m ∈ s.requestOf a, Sent s m then serverStep sql s a else none

/-- The server under such clients. -/
def transferringMachine (sql : Sqlite DB) : Machine (ServerState DB) ServerAction where
  step := transferringStep sql

/-- On every connection, -3 for a transfer precedes each action 5 for it. -/
def Prepared (written : List (ℤ × Out)) : Prop :=
  ∀ pre fd m post, written = pre ++ (fd, Out.record m) :: post → m.action = 5 →
    ∃ m', (fd, Out.record m') ∈ pre ∧ m'.action = -3 ∧ m'.sfileId = m.sfileId

/-- Handler `c` has answered the request `p` and has yet to write -3 to `fd`. -/
def ServerState.Notifying (s : ServerState DB) (c : ℕ) (p : Msg) (fd : ℤ) : Prop :=
  ∃ cfd, s.handlers[c]? = some ⟨cfd, .notify p fd⟩

/-- The step handles a header while the -3 of its transfer is still to be written. -/
def OvertakesNotice (s : ServerState DB) (a : ServerAction) : Prop :=
  ∃ m ∈ s.requestOf a, m.action = 5 ∧ ∃ c p fd, s.Notifying c p fd ∧ p.sfileId = m.sfileId

theorem prepared_append {ws ws' : List (ℤ × Out)}
    (h : ∀ fd m, (fd, Out.record m) ∈ ws' → m.action ≠ 5) : Prepared (ws ++ ws') ↔ Prepared ws := by
  constructor
  · intro hp pre fd m post he
    exact hp pre fd m (post ++ ws') (by simp [he])
  · intro hp pre fd m post he hact
    rcases List.append_eq_append_iff.mp he with ⟨as, hpre, hws⟩ | ⟨bs, hws, hws'⟩
    · exact absurd hact (h fd m (by simp [hws]))
    · cases bs with
      | nil =>
        refine absurd hact (h fd m ?_)
        rw [List.nil_append] at hws'
        simp [← hws']
      | cons b bs =>
        simp only [List.cons_append, List.cons.injEq] at hws'
        obtain ⟨rfl, -⟩ := hws'
        exact hp pre fd m bs hws hact

theorem prepared_nil : Prepared [] := by
  intro pre fd m post he
  simp at he

theorem prepared_concat {ws : List (ℤ × Out)} {fd : ℤ} {m : Msg} (hact : m.action = 5) :
    Prepared (ws ++ [(fd, .record m)]) ↔ Prepared ws ∧
      ∃ m', (fd, Out.record m') ∈ ws ∧ m'.action = -3 ∧ m'.sfileId = m.sfileId := by
  constructor
  · intro hp
    refine ⟨fun pre fd' m' post he => hp pre fd' m' (post ++ [(fd, .record m)]) (by simp [he]), ?_⟩
    exact hp ws fd m [] rfl hact
  · rintro ⟨hp, hm⟩ pre fd' m' post he hact'
    rcases List.eq_nil_or_concat post with rfl | ⟨post, w, rfl⟩
    · obtain ⟨rfl, hlast⟩ := List.append_inj' he rfl
      simp only [List.cons.injEq, Prod.mk.injEq, Out.record.injEq, and_true] at hlast
      obtain ⟨rfl, rfl⟩ := hlast
      exact hm
    · have he : ws ++ [(fd, .record m)] = (pre ++ (fd', .record m') :: post) ++ [w] := by
        simpa using he
      exact hp pre fd' m' post (List.append_inj' he rfl).1 hact'

/-- The ids given away, and where each of them is between its reply and its -3. -/
structure Ids (s : ServerState DB) : Prop where
  replied : ∀ fd r, (fd, Out.record r) ∈ s.srv.written → r.action = 3 →
    findFd s.srv.online r.toname.str ≠ -1 ∧
      ((∃ c p, s.Notifying c p (findFd s.srv.online r.toname.str) ∧ p.sfileId = r.sfileId) ∨
        ∃ m, (findFd s.srv.online r.toname.str, Out.record m) ∈ s.srv.written ∧
          m.action = -3 ∧ m.sfileId = r.sfileId)
  pending : ∀ c p fd, s.Notifying c p fd → ∃ i : ℕ, p.sfileId = i ∧ s.srv.addr[i]? = some 1
  told : ∀ fd m, (fd, Out.record m) ∈ s.srv.written → m.action = -3 →
    ∃ i : ℕ, m.sfileId = i ∧ s.srv.addr[i]? = some 1
  untold : ∀ c p fd, s.Notifying c p fd → ∀ fd' m, (fd', Out.record m) ∈ s.srv.written →
    m.action = -3 → m.sfileId ≠ p.sfileId
  single : ∀ c c' p p' fd fd', s.Notifying c p fd → s.Notifying c' p' fd' →
    p.sfileId = p'.sfileId → c = c'

theorem ids_sessions (db : DB) (online : List Online) (n : ℕ) : Ids (.sessions db online n) := by
  have hnone (c : ℕ) (p : Msg) (fd : ℤ) : ¬ (ServerState.sessions db online n).Notifying c p fd := by
    rintro ⟨cfd, h⟩
    simp [ServerState.sessions] at h
  exact ⟨by simp [ServerState.sessions, Server.start], fun c p fd h => absurd h (hnone c p fd),
    by simp [ServerState.sessions, Server.start], fun c p fd h => absurd h (hnone c p fd),
    fun c c' p p' fd fd' h => absurd h (hnone c p fd)⟩

theorem notifying_set {s : ServerState DB} {srv : Server DB} {history : List Served} {c c' : ℕ}
    {k : Handler} {pc : Pc} {p : Msg} {fd : ℤ} (hk : s.handlers[c]? = some k) :
    ServerState.Notifying
        { srv := srv, handlers := s.handlers.set c { k with pc := pc }, history := history } c' p fd ↔
      (c' = c ∧ pc = .notify p fd) ∨ (c' ≠ c ∧ s.Notifying c' p fd) := by
  by_cases hc : c' = c
  · subst hc
    have hlt := (List.getElem?_eq_some_iff.mp hk).1
    simp [ServerState.Notifying, List.getElem?_set_self hlt]
  · simp [ServerState.Notifying, List.getElem?_set_ne (Ne.symm hc), hc]

/-- A thread that neither is nor will be behind a reply. -/
theorem notifying_set_of_ne {s : ServerState DB} {srv : Server DB} {history : List Served}
    {c c' : ℕ} {k : Handler} {pc : Pc} {p : Msg} {fd : ℤ} (hk : s.handlers[c]? = some k)
    (hpc : ∀ p fd, k.pc ≠ .notify p fd) (hpc' : ∀ p fd, pc ≠ .notify p fd) :
    ServerState.Notifying
        { srv := srv, handlers := s.handlers.set c { k with pc := pc }, history := history } c' p fd ↔
      s.Notifying c' p fd := by
  rw [notifying_set hk]
  constructor
  · rintro (⟨-, hn⟩ | ⟨-, hn⟩)
    · exact absurd hn (hpc' p fd)
    · exact hn
  · intro hn
    refine .inr ⟨?_, hn⟩
    rintro rfl
    obtain ⟨cfd, hn⟩ := hn
    exact hpc p fd (congrArg Handler.pc (Option.some.inj (hk.symm.trans hn)))

/-- Steps that give no id away and take none back. -/
theorem Ids.frame {s t : ServerState DB} (h : Ids s) (ws : List (ℤ × Out))
    (hon : t.srv.online.map Online.session = s.srv.online.map Online.session)
    (haddr : t.srv.addr = s.srv.addr) (hws : t.srv.written = s.srv.written ++ ws)
    (hact : ∀ fd m, (fd, Out.record m) ∈ ws → m.action ≠ 3 ∧ m.action ≠ -3)
    (hk : ∀ c p fd, t.Notifying c p fd ↔ s.Notifying c p fd) : Ids t := by
  have hold {fd : ℤ} {m : Msg} (hm : (fd, Out.record m) ∈ t.srv.written)
      (ha : m.action = 3 ∨ m.action = -3) : (fd, Out.record m) ∈ s.srv.written := by
    rw [hws] at hm
    rcases List.mem_append.mp hm with hm | hm
    · exact hm
    · have := hact fd m hm
      tauto
  constructor
  · intro fd r hr ha
    rw [findFd_congr hon]
    obtain ⟨hne, hcase⟩ := h.replied fd r (hold hr (.inl ha)) ha
    refine ⟨hne, hcase.imp ?_ ?_⟩
    · rintro ⟨c, p, hn, hp⟩
      exact ⟨c, p, (hk _ _ _).mpr hn, hp⟩
    · rintro ⟨m, hm, ha, hid⟩
      exact ⟨m, by rw [hws]; exact List.mem_append_left _ hm, ha, hid⟩
  · intro c p fd hn
    rw [haddr]
    exact h.pending c p fd ((hk _ _ _).mp hn)
  · intro fd m hm ha
    rw [haddr]
    exact h.told fd m (hold hm (.inr ha)) ha
  · intro c p fd hn fd' m hm ha
    exact h.untold c p fd ((hk _ _ _).mp hn) fd' m (hold hm (.inr ha)) ha
  · intro c c' p p' fd fd' hn hn'
    exact h.single c c' p p' fd fd' ((hk _ _ _).mp hn) ((hk _ _ _).mp hn')

section Steps
variable {s : ServerState DB} {c : ℕ} {k : Handler} {i : Served} {m : Msg}

/-- The reply takes an id that nobody has. -/
theorem Ids.reply {n : ℕ} (h : Ids s) (hk : s.handlers[c]? = some k)
    (hpc : ∀ p fd, k.pc ≠ .notify p fd) (hact : m.action = 3)
    (hon : findFd s.srv.online m.toname.str ≠ -1)
    (hn : s.srv.addr.findIdx? (fun a => a ≠ 1) = some n) :
    Ids { srv := { s.srv with addr := s.srv.addr.set n 1 }.write k.cfd
            (.record { m with sfileId := n })
          handlers := s.handlers.set c
            { k with pc := .notify { m with sfileId := n } (findFd s.srv.online m.toname.str) }
          history := s.history ++ [i] } := by
  obtain ⟨hlt, hfree, -⟩ := List.findIdx?_eq_some_iff_getElem.mp hn
  have hkeep {j : ℕ} (hj : s.srv.addr[j]? = some 1) : (s.srv.addr.set n 1)[j]? = some 1 := by
    by_cases hjn : n = j
    · subst hjn
      exact List.getElem?_set_self hlt
    · rw [List.getElem?_set_ne hjn]
      exact hj
  have hnew {x : ℤ} (hx : ∃ j : ℕ, x = j ∧ s.srv.addr[j]? = some 1) : x ≠ n := by
    rintro rfl
    obtain ⟨j, hj, haddr⟩ := hx
    obtain rfl : n = j := by exact_mod_cast hj
    simp [List.getElem?_eq_getElem hlt] at haddr
    simp [haddr] at hfree
  have hold {c' : ℕ} {p : Msg} {fd : ℤ} (hc : s.Notifying c' p fd) : c' ≠ c := by
    rintro rfl
    obtain ⟨cfd, hc⟩ := hc
    cases Option.some.inj (hk.symm.trans hc)
    exact hpc p fd rfl
  have hrec {fd : ℤ} {m' : Msg}
      (hm : (fd, Out.record m') ∈ s.srv.written ++ [(k.cfd, .record { m with sfileId := n })])
      (ha : m'.action = -3) : (fd, Out.record m') ∈ s.srv.written := by
    rcases List.mem_append.mp hm with hm | hm
    · exact hm
    · simp only [List.mem_singleton, Prod.mk.injEq, Out.record.injEq] at hm
      simp [hm.2, hact] at ha
  constructor
  · intro fd r hr ha
    rcases List.mem_append.mp hr with hr | hr
    · obtain ⟨hne, hcase⟩ := h.replied fd r hr ha
      refine ⟨hne, hcase.imp ?_ ?_⟩
      · rintro ⟨c', p, hc', hp⟩
        exact ⟨c', p, (notifying_set hk).mpr (.inr ⟨hold hc', hc'⟩), hp⟩
      · rintro ⟨m', hm', hrest⟩
        exact ⟨m', List.mem_append_left _ hm', hrest⟩
    · simp only [List.mem_singleton, Prod.mk.injEq, Out.record.injEq] at hr
      obtain ⟨-, rfl⟩ := hr
      exact ⟨hon, .inl ⟨c, _, (notifying_set hk).mpr (.inl ⟨rfl, rfl⟩), rfl⟩⟩
  · intro c' p fd hc'
    rcases (notifying_set hk).mp hc' with ⟨-, hp⟩ | ⟨-, hc'⟩
    · cases hp
      exact ⟨n, rfl, List.getElem?_set_self hlt⟩
    · obtain ⟨j, hj, haddr⟩ := h.pending c' p fd hc'
      exact ⟨j, hj, hkeep haddr⟩
  · intro fd m' hm' ha
    obtain ⟨j, hj, haddr⟩ := h.told fd m' (hrec hm' ha) ha
    exact ⟨j, hj, hkeep haddr⟩
  · intro c' p fd hc' fd' m' hm' ha
    have hm' := hrec hm' ha
    rcases (notifying_set hk).mp hc' with ⟨-, hp⟩ | ⟨-, hc'⟩
    · cases hp
      exact hnew (h.told fd' m' hm' ha)
    · exact h.untold c' p fd hc' fd' m' hm' ha
  · intro c₁ c₂ p₁ p₂ fd₁ fd₂ h₁ h₂ hid
    rcases (notifying_set hk).mp h₁ with ⟨hc₁, hp₁⟩ | ⟨-, hold₁⟩ <;>
      rcases (notifying_set hk).mp h₂ with ⟨hc₂, hp₂⟩ | ⟨-, hold₂⟩
    · exact hc₁.trans hc₂.symm
    · cases hp₁
      exact absurd hid.symm (hnew (h.pending c₂ p₂ fd₂ hold₂))
    · cases hp₂
      exact absurd hid (hnew (h.pending c₁ p₁ fd₁ hold₁))
    · exact h.single c₁ c₂ p₁ p₂ fd₁ fd₂ hold₁ hold₂ hid

/-- The notice is written, and its thread is done with the id. -/
theorem Ids.notice {fd : ℤ} (h : Ids s) (hk : s.handlers[c]? = some k)
    (hpc : k.pc = .notify m fd) :
    Ids { srv := s.srv.write fd (.record { m with action := -3 })
          handlers := s.handlers.set c { k with pc := .recv }
          history := s.history ++ [i] } := by
  have hc : s.Notifying c m fd := ⟨k.cfd, by rw [hk, ← hpc]⟩
  have hother {c' : ℕ} {p : Msg} {fd' : ℤ} : ServerState.Notifying
      { srv := s.srv.write fd (.record { m with action := -3 })
        handlers := s.handlers.set c { k with pc := .recv }
        history := s.history ++ [i] } c' p fd' ↔ c' ≠ c ∧ s.Notifying c' p fd' := by
    rw [notifying_set hk]
    simp
  constructor
  · intro fd' r hr ha
    rcases List.mem_append.mp hr with hr | hr
    · obtain ⟨hne, ⟨c', p, hc', hp⟩ | ⟨m', hm', hrest⟩⟩ := h.replied fd' r hr ha
      · by_cases hcc : c' = c
        · subst hcc
          obtain ⟨cfd, hc'⟩ := hc'
          cases (Option.some.inj (hk.symm.trans hc'))
          cases hpc
          exact ⟨hne, .inr ⟨_, List.mem_append_right _ (List.mem_singleton_self _), rfl, hp⟩⟩
        · exact ⟨hne, .inl ⟨c', p, hother.mpr ⟨hcc, hc'⟩, hp⟩⟩
      · exact ⟨hne, .inr ⟨m', List.mem_append_left _ hm', hrest⟩⟩
    · simp only [List.mem_singleton, Prod.mk.injEq, Out.record.injEq] at hr
      simp [hr.2] at ha
  · intro c' p fd' hc'
    exact h.pending c' p fd' (hother.mp hc').2
  · intro fd' m' hm' ha
    rcases List.mem_append.mp hm' with hm' | hm'
    · exact h.told fd' m' hm' ha
    · simp only [List.mem_singleton, Prod.mk.injEq, Out.record.injEq] at hm'
      obtain ⟨-, rfl⟩ := hm'
      exact h.pending c m fd hc
  · intro c' p fd' hc' fd'' m' hm' ha
    obtain ⟨hne, hc'⟩ := hother.mp hc'
    rcases List.mem_append.mp hm' with hm' | hm'
    · exact h.untold c' p fd' hc' fd'' m' hm' ha
    · simp only [List.mem_singleton, Prod.mk.injEq, Out.record.injEq] at hm'
      obtain ⟨-, rfl⟩ := hm'
      exact fun hid => hne (h.single c' c p m fd' fd hc' hc hid.symm)
  · intro c₁ c₂ p₁ p₂ fd₁ fd₂ h₁ h₂
    exact h.single c₁ c₂ p₁ p₂ fd₁ fd₂ (hother.mp h₁).2 (hother.mp h₂).2

end Steps

theorem notifying_accept {s : ServerState DB} {h : Handler} (hpc : ∀ p fd, h.pc ≠ .notify p fd)
    {c : ℕ} {p : Msg} {fd : ℤ} :
    ServerState.Notifying { s with handlers := s.handlers ++ [h] } c p fd ↔ s.Notifying c p fd := by
  constructor
  · rintro ⟨cfd, hc⟩
    obtain ⟨-, rfl⟩ | hc := getElem?_concat_cases hc
    · exact absurd rfl (hpc p fd)
    · exact ⟨cfd, hc⟩
  · rintro ⟨cfd, hc⟩
    exact ⟨cfd, (List.getElem?_append_left (List.getElem?_eq_some_iff.mp hc).1).trans hc⟩

/-- A step that writes nothing for a transfer, of a thread that is not behind a reply. -/
theorem Ids.quiet {s : ServerState DB} {c : ℕ} {k : Handler} {inp : Input} {srv : Server DB}
    {pc : Pc} {i : Served} (h : Ids s) (hk : s.handlers[c]? = some k) (ws : List (ℤ × Out))
    (hpc : ∀ p fd, k.pc ≠ .notify p fd) (hpc' : ∀ p fd, pc ≠ .notify p fd)
    (hon : srv.online.map Online.session = s.srv.online.map Online.session)
    (haddr : srv.addr = s.srv.addr) (hws : srv.written = s.srv.written ++ ws)
    (hact : ∀ fd m, (fd, Out.record m) ∈ ws → m.action ∉ [1, 3, -3, 5])
    (hno : ∀ m junk, requested k.pc inp = some (m, junk) → m.action ≠ 5) :
    Ids { srv := srv, handlers := s.handlers.set c { k with pc := pc }, history := s.history ++ [i] } ∧
      (Prepared s.srv.written →
        (Prepared srv.written ↔ ¬ OvertakesNotice s (.serve c inp))) := by
  refine ⟨h.frame _ hon haddr hws (fun fd m hm => ?_) fun c' p fd =>
    notifying_set_of_ne hk hpc hpc', fun hp => ?_⟩
  · have := hact fd m hm
    simp only [List.mem_cons, List.not_mem_nil, or_false, not_or] at this
    exact ⟨this.2.1, this.2.2.1⟩
  · rw [hws, prepared_append fun fd m hm h5 => hact fd m hm (by simp [h5])]
    refine iff_of_true hp ?_
    rintro ⟨m, hm, h5, -⟩
    simp only [requestOf_serve inp hk, Option.mem_def, Option.map_eq_some_iff, Prod.exists] at hm
    obtain ⟨m', junk, hm, rfl⟩ := hm
    exact hno m' junk hm h5

/-- Under clients that wait for their reply, the step keeps the order on every connection
exactly if it does not handle a header too early. -/
theorem prepared_step {s t : ServerState DB} {a : ServerAction} (h : Ids s)
    (hstep : transferringStep sql s a = some t) :
    Ids t ∧ (Prepared s.srv.written → (Prepared t.srv.written ↔ ¬ OvertakesNotice s a)) := by
  simp only [transferringStep] at hstep
  split_ifs at hstep with hsent
  obtain ⟨rfl, rfl⟩ | ⟨c, inp, k, srv, pc, rfl, hk, hr, rfl⟩ := serverStep_cases hstep
  · refine ⟨h.frame [] rfl rfl (by simp) (by simp) fun c p fd =>
      notifying_accept (by simp), fun hp => iff_of_true hp ?_⟩
    simp [OvertakesNotice, ServerState.requestOf]
  have hreqOf := requestOf_serve inp hk
  have hmem {m : Msg} {junk : CharArray 20} (hm : requested k.pc inp = some (m, junk)) :
      m ∈ s.requestOf (.serve c inp) := requestOf_of_requested hk hm
  have hone {m m' : Msg} {junk junk' : CharArray 20} (hm : requested k.pc inp = some (m, junk))
      (hm' : requested k.pc inp = some (m', junk')) : m' = m := by
    rw [hm] at hm'
    exact (congrArg Prod.fst (Option.some.inj hm')).symm
  have hrecv {m : Msg} {junk : CharArray 20} (hm : requested k.pc inp = some (m, junk)) (p : Msg)
      (fd : ℤ) : k.pc ≠ .notify p fd := by
    simp [recv_of_requested hm]
  have hwaits {pc : Pc} (hpc : pc.waits = false) (p : Msg) (fd : ℤ) : pc ≠ .notify p fd := by
    rintro rfl
    cases hpc
  cases handlerStep hr with
  | plain hplain hpc hreq =>
    obtain ⟨ws, hws, hact⟩ := hplain.writes
    refine h.quiet hk ws (hwaits hpc) (hwaits hplain.rests) hplain.sessions hplain.addr hws hact ?_
    intro m junk hm h5
    obtain ⟨fd, r, hw, hact, -, hname⟩ := ((hsent m (hmem hm)).2 h5).exists_reply
    have hne := (h.replied fd r hw hact).1
    rw [hname] at hne
    exact hne ((hreq m junk hm).2 (.inr h5))
  | login m junk hreq hact hr hfind hpc =>
    have := (hsent m (hmem hreq)).1
    rcases hact with hact | hact <;> simp [hact] at this
  | logout m junk hreq hact hr =>
    have := (hsent m (hmem hreq)).1
    simp [hact] at this
  | reply m junk n hreq hact hon hi hr =>
    cases hr
    refine ⟨h.reply hk (hrecv hreq) hact hon hi, fun hp => ?_⟩
    refine (prepared_append fun fd m' hm h5 => ?_).trans (iff_of_true hp ?_)
    · simp only [List.mem_singleton, Prod.mk.injEq, Out.record.injEq] at hm
      simp [hm.2, hact] at h5
    · rintro ⟨m', hm, h5, -⟩
      obtain rfl : m = m' := by simpa [hreqOf, hreq] using hm
      simp [hact] at h5
  | noId m junk hreq hact hr =>
    cases hr
    refine h.quiet hk [] (hrecv hreq) (by simp) rfl rfl (by simp) (by simp) fun m' junk' hm => ?_
    simp [hone hreq hm, hact]
  | header m junk hreq hact hon hr =>
    cases hr
    refine ⟨h.frame _ rfl rfl rfl (fun fd m' hm => ?_) fun c' p fd =>
      notifying_set_of_ne hk (hrecv hreq) (by simp), fun hp => ?_⟩
    · simp only [List.mem_singleton, Prod.mk.injEq, Out.record.injEq] at hm
      simp [hm.2, hact]
    · refine (prepared_concat hact).trans ?_
      constructor
      · rintro ⟨-, m', hm', h3, hid⟩ ⟨m'', hm'', -, c', p, fd, hn, hpid⟩
        obtain rfl : m = m'' := by simpa [hreqOf, hreq] using hm''
        exact h.untold c' p fd hn _ m' hm' h3 (hid.trans hpid.symm)
      · intro hno
        refine ⟨hp, ?_⟩
        obtain ⟨fd, r, hw, h3, hid, hname⟩ := ((hsent m (hmem hreq)).2 hact).exists_reply
        rcases (h.replied fd r hw h3).2 with ⟨c', p, hn, hpid⟩ | ⟨m', hm', hact', hid'⟩
        · exact absurd ⟨m, hmem hreq, hact, c', p, _, hn, hpid.trans hid⟩ hno
        · rw [hname] at hm'
          exact ⟨m', hm', hact', hid'.trans hid⟩
  | registration m junk hreq hact hr =>
    cases hr
    refine h.quiet hk [] (hrecv hreq) (by simp) rfl rfl (by simp) (by simp) fun m' junk' hm => ?_
    simp [hone hreq hm, hact]
  | notice m fd hpc hr =>
    cases hr
    refine ⟨h.notice hk hpc, fun hp =>
      (prepared_append fun fd' m' hm h5 => ?_).trans (iff_of_true hp ?_)⟩
    · simp only [List.mem_singleton, Prod.mk.injEq, Out.record.injEq] at hm
      simp [hm.2] at h5
    · rintro ⟨m', hm, -⟩
      simp [hreqOf, hpc, requested] at hm
  | found m i slot hpc hslot huse hoff hr =>
    have hplain := Plain.of_sendFile hr
    obtain ⟨ws, hws, hact⟩ := hplain.writes
    exact h.quiet hk ws (by simp [hpc]) (hwaits hplain.rests) hplain.sessions hplain.addr hws hact
      (by simp [hpc, requested])
  | passed m i hpc hr =>
    cases hr
    exact h.quiet hk [] (by simp [hpc]) (by simp) rfl rfl (by simp) (by simp)
      (by simp [hpc, requested])
  | entered m i slot hpc hslot huse hr =>
    cases hr
    exact h.quiet hk [] (by simp [hpc]) (by simp) rfl rfl (by simp) (by simp)
      (by simp [hpc, requested])
  | occupied m i hpc hr =>
    cases hr
    exact h.quiet hk [] (by simp [hpc]) (by simp) rfl rfl (by simp) (by simp)
      (by simp [hpc, requested])

/-- The receiver hears of a transfer before its blocks exactly if no header is handled between
the reply and the -3 of its transfer. -/
theorem prepared_iff_not_overtaken (sql : Sqlite DB) (db : DB) (online : List Online) (n : ℕ)
    (as : List ServerAction) (t : ServerState DB)
    (h : (transferringMachine sql).run (.sessions db online n) as = some t) :
    (transferringMachine sql).EachState (fun s => Prepared s.srv.written)
        (.sessions db online n) as ↔
      (transferringMachine sql).EachStep (fun s a => ¬ OvertakesNotice s a)
        (.sessions db online n) as :=
  Machine.eachState_iff_eachStep (M := transferringMachine sql) (I := fun s => Ids s)
    (fun _ _ _ hs hstep => (prepared_step hs hstep).1)
    (fun _ _ _ hs hp hstep => (prepared_step hs hstep).2 hp)
    (ids_sessions db online n) prepared_nil h

/-- Users `b` on connection 1 and `a` on connection 0. -/
def twoUsers : List Online := [⟨1, 0, [98]⟩, ⟨0, 0, [97]⟩]

/-- What `a` sends for a file to `b`: the request, and the header of a block. -/
def fileForB (action : ℤ) : Msg := { Msg.zero with action := action, toname := .ofBytes 20 [98] }

/-- The handler of the request is preempted behind its reply, and the first block comes in. -/
def earlyBlock : List ServerAction :=
  [.serve 0 (.record (fileForB 3) (.zero 20)), .accept,
    .serve 2 (.record (fileForB 5) (.zero 20))]

/-- The action 5 is the first that `b` hears of the transfer. -/
theorem earlyBlock_unprepared :
    ∃ t, (transferringMachine .silent).run (.sessions () twoUsers 2) earlyBlock = some t ∧
      ¬ Prepared t.srv.written := by
  refine ⟨_, rfl, fun hp => ?_⟩
  obtain ⟨m, hm, -⟩ := hp [(0, .record (fileForB 3))] 1 (fileForB 5) [] rfl rfl
  simp at hm

theorem earlyBlock_overtakes :
    ¬ (transferringMachine .silent).EachStep (fun s a => ¬ OvertakesNotice s a)
      (.sessions () twoUsers 2) earlyBlock := by
  have hrun : (transferringMachine .silent).run (.sessions () twoUsers 2) earlyBlock =
      some _ := rfl
  rw [← prepared_iff_not_overtaken .silent () twoUsers 2 earlyBlock _ hrun]
  intro hall
  obtain ⟨m, hm, -⟩ := hall.last hrun [(0, .record (fileForB 3))] 1 (fileForB 5) [] rfl rfl
  simp at hm

end LinuxCat.ServerModel
