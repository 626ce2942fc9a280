import LinuxCat.SayFlags

/-! # Muting and unmuting

The manager's client names the target in `toname` of both messages. Action 8 looks there, and
action -8 looks at `name`, where the manager himself stands. -/
namespace LinuxCat.ServerModel
open LabelledMachines LabelledMachines.Machine ByteLayouts Messages

variable {DB : Type} {sql : Sqlite DB}

/-! ## The client -/

/-- The loop of `all_manager` on the words `scanf` reads: the records it writes. -/
def allManagerLoop (pmsg : Msg) : List Bytes → List Msg
  | [] => []
  | word :: words =>
    let pmsg := { pmsg with message := .ofBytes 1024 word }
    if word = text "unable" then
      match words with
      | [] => []
      | toname :: words =>
        let pmsg := { pmsg with action := 8, toname := .ofBytes 20 toname }
        pmsg :: allManagerLoop pmsg words
    else if word = text "capable" then
      match words with
      | [] => []
      | toname :: words =>
        let pmsg := { pmsg with action := -8, toname := .ofBytes 20 toname }
        pmsg :: allManagerLoop pmsg words
    else if word = text "kick" then allManagerLoop { pmsg with action := 10 } words
    else if word = text "quite" then []
    else
      let pmsg := { pmsg with toname := .ofBytes 20 (text "all"), action := 4 }
      pmsg :: allManagerLoop pmsg words

def allManager (pmsg : Msg) (words : List Bytes) : List Msg :=
  allManagerLoop { pmsg with toname := pmsg.toname.strcpy (text "all") } words

theorem allManagerLoop_name (pmsg : Msg) (words : List Bytes) :
    ∀ m ∈ allManagerLoop pmsg words, m.name = pmsg.name := by
  have hcons {p q : Msg} {ms : List Msg} (hp : p.name = q.name) (h : ∀ m ∈ ms, m.name = p.name) :
      ∀ m ∈ p :: ms, m.name = q.name :=
    List.forall_mem_cons.mpr ⟨hp, fun m hm => (h m hm).trans hp⟩
  fun_induction allManagerLoop pmsg words with
  | case1 => simp
  | case2 => simp
  | case3 pmsg toname words pmsg₁ pmsg₂ ih => exact hcons rfl ih
  | case4 => simp
  | case5 pmsg toname words pmsg₁ _ pmsg₂ ih => exact hcons rfl ih
  | case6 pmsg words pmsg₁ _ _ ih => exact ih
  | case7 => simp
  | case8 pmsg word words pmsg₁ _ _ _ _ pmsg₂ ih => exact hcons rfl ih

/-- Every record carries the manager's own name. -/
theorem allManager_name {pmsg m : Msg} {words : List Bytes} (h : m ∈ allManager pmsg words) :
    m.name = pmsg.name :=
  allManagerLoop_name { pmsg with toname := pmsg.toname.strcpy (text "all") } words m h

/-! ## The flag of a user between the two -/

/-- The step neither mutes `u` nor changes the session of `u`. -/
def Undisturbed (sql : Sqlite DB) (u : Bytes) (s : ServerState DB) (a : ServerAction) : Prop :=
  ∀ c inp k m junk, a = .serve c inp → s.handlers[c]? = some k →
    requested k.pc inp = some (m, junk) →
    ¬ (m.action = 8 ∧ m.toname.str = u) ∧ ¬ (m.action = 10 ∧ m.name.str = u) ∧
      ¬ (LogsIn sql junk s.srv.db m ∧ m.name.str = u)

/-- The step handles an action -8 with this name as that of its sender. -/
def UnmutesSelf (u : Bytes) (s : ServerState DB) (a : ServerAction) : Prop :=
  ∃ m, s.requestOf a = some m ∧ m.action = -8 ∧ m.name.str = u

/-- The flag of the first entry of `u`. -/
def ServerState.flag (s : ServerState DB) (u : Bytes) : Option ℤ :=
  (getOnline s.srv.online u).map Online.say

theorem flag_step {u : Bytes} {s t : ServerState DB} {a : ServerAction}
    (hquiet : Undisturbed sql u s a) (h : serverStep sql s a = some t) :
    (UnmutesSelf u s a → t.flag u = (s.flag u).map (fun _ => 0)) ∧
      (¬ UnmutesSelf u s a → t.flag u = s.flag u) := by
  cases listStep h with
  | unrequested hreq hon =>
    refine ⟨?_, fun _ => by rw [ServerState.flag, hon, ServerState.flag]⟩
    rintro ⟨m, hm, -⟩
    simp [hreq] at hm
  | requested c inp k m junk ha hk hreq heffect =>
    obtain ⟨hmute, hleave, henter⟩ := hquiet c inp k m junk ha hk hreq
    have hself : UnmutesSelf u s a ↔ m.action = -8 ∧ m.name.str = u := by
      rw [ha]
      simp [UnmutesSelf, requestOf_of_requested hk hreq]
    rw [hself]
    have hkept (hne : ¬ (m.action = -8 ∧ m.name.str = u))
        (hget : getOnline t.srv.online u = getOnline s.srv.online u) :
        (m.action = -8 ∧ m.name.str = u → t.flag u = (s.flag u).map (fun _ => 0)) ∧
          (¬ (m.action = -8 ∧ m.name.str = u) → t.flag u = s.flag u) :=
      ⟨fun h => absurd h hne, fun _ => by rw [ServerState.flag, hget, ServerState.flag]⟩
    cases heffect with
    | same hact hlogin hon =>
      refine hkept (fun h => hact (by simp [h.1])) (by rw [hon])
    | muted hact hon =>
      refine hkept (by simp [hact]) ?_
      rw [hon, getOnline_setSay_of_ne (fun hu => hmute ⟨hact, hu⟩)]
    | entered hlogin hon =>
      refine hkept (fun h => ?_) ?_
      · rcases hlogin with hl | hl <;> omega
      · have hne : m.name.str ≠ u := fun hu => henter ⟨hlogin, hu⟩
        simp [hon, getOnline, hne]
    | left hact hon =>
      refine hkept (by simp [hact]) ?_
      rw [hon, getOnline_unlink_of_ne (fun hu => hleave ⟨hact, hu⟩)]
    | unmuted hact hon =>
      by_cases hu : m.name.str = u
      · refine ⟨fun _ => ?_, fun hn => absurd ⟨hact, hu⟩ hn⟩
        simp [ServerState.flag, hon, hu, getOnline_setSay_self, Function.comp_def]
      · exact hkept (fun h => hu h.2) (by rw [hon, getOnline_setSay_of_ne hu])

/-- Over a stretch that does not disturb `u`, its flag stays as it is or is 0. -/
theorem flag_run {u : Bytes} {s t : ServerState DB} {as : List ServerAction}
    (hquiet : (serverMachine sql).EachStep (Undisturbed sql u) s as)
    (h : (serverMachine sql).run s as = some t) :
    ((serverMachine sql).EachStep (fun s a => ¬ UnmutesSelf u s a) s as → t.flag u = s.flag u) ∧
      (¬ (serverMachine sql).EachStep (fun s a => ¬ UnmutesSelf u s a) s as →
        t.flag u = (s.flag u).map (fun _ => 0)) := by
  induction as generalizing s with
  | nil =>
    obtain rfl := Option.some.inj h
    exact ⟨fun _ => rfl, fun hn => absurd trivial hn⟩
  | cons a as ih =>
    obtain ⟨v, hv, hrun⟩ := run_cons_eq_some.mp h
    obtain ⟨hzero, hsame⟩ := flag_step hquiet.1 hv
    obtain ⟨ihsame, ihzero⟩ := ih (hquiet.2 v hv) hrun
    have hrest : (∀ w, (serverMachine sql).step s a = some w →
        (serverMachine sql).EachStep (fun s a => ¬ UnmutesSelf u s a) w as) ↔
          (serverMachine sql).EachStep (fun s a => ¬ UnmutesSelf u s a) v as := by
      simp [hv]
    simp only [EachStep, hrest]
    by_cases ha : UnmutesSelf u s a
    · refine ⟨fun h => absurd ha h.1, fun _ => ?_⟩
      by_cases has : (serverMachine sql).EachStep (fun s a => ¬ UnmutesSelf u s a) v as
      · rw [ihsame has, hzero ha]
      · rw [ihzero has, hzero ha]
        simp [Function.comp_def]
    · refine ⟨fun h => by rw [ihsame h.2, hsame ha], fun h => ?_⟩
      rw [ihzero (fun has => h ⟨ha, has⟩), hsame ha]

/-! ## Unmuting -/

/-- What unmuting `u` has to come to: the flag of `u` is 0 and all others are as they were before
it; if nothing happened since an unmuted `u` was muted, the list is as at the start. -/
structure Undone (u : Bytes) (stretch : List ServerAction) (start before after : List Online) :
    Prop where
  flag : (getOnline after u).map Online.say = some 0
  others : after.filter (fun e => e.name ≠ u) = before.filter (fun e => e.name ≠ u)
  restored : stretch = [] → (∀ e, getOnline start u = some e → e.say = 0) → after = start

theorem filter_setSay_self (online : List Online) (u : Bytes) (say : ℤ) :
    (setSay online u say).filter (fun e => e.name ≠ u) = online.filter (fun e => e.name ≠ u) := by
  induction online with
  | nil => rfl
  | cons e online ih =>
    by_cases he : e.name = u
    · simp [setSay, he]
    · simpa [setSay, he] using ih

theorem filter_setSay_eq_iff {name u : Bytes} (h : name ≠ u) (online : List Online) (say : ℤ) :
    (setSay online name say).filter (fun e => e.name ≠ u) = online.filter (fun e => e.name ≠ u) ↔
      ∀ e, getOnline online name = some e → e.say = say := by
  rw [← setSay_eq_self_iff]
  refine ⟨fun hfilter => ?_, fun heq => by rw [heq]⟩
  induction online with
  | nil => rfl
  | cons e online ih =>
    by_cases he : e.name = name
    · have hu : e.name ≠ u := he ▸ h
      simpa [setSay, he, hu, h] using hfilter
    · have hcons : setSay (e :: online) name say = e :: setSay online name say := by
        simp [setSay, he]
      rw [hcons] at hfilter ⊢
      rw [ih]
      by_cases hu : e.name = u
      · simpa [hu] using hfilter
      · simpa [hu] using hfilter

/-- The step that receives a record is the `switch` on it. -/
theorem listEffect_of_record {s t : ServerState DB} {c : ℕ} {m : Msg} {junk : CharArray 20}
    (h : serverStep sql s (.serve c (.record m junk)) = some t) :
    ∃ cfd, ListEffect sql junk s.srv cfd m t.srv.online := by
  cases listStep h with
  | requested c' inp k m' junk' ha hk hreq heffect =>
    cases ha
    obtain ⟨cfd, pc⟩ := k
    obtain rfl : pc = .recv := recv_of_requested hreq
    cases hreq
    exact ⟨cfd, heffect⟩
  | unrequested hreq hon =>
    obtain ⟨ha, -⟩ | ⟨c', inp, k, srv, pc, ha, hk, hr, -⟩ := serverStep_cases h
    · cases ha
    · cases ha
      rw [requestOf_serve _ hk] at hreq
      obtain ⟨cfd, pc'⟩ := k
      cases pc' <;> simp_all [threadReadPc, relayFirst, relaySecond, requested]

theorem online_of_muted {s t : ServerState DB} {c : ℕ} {m : Msg} {junk : CharArray 20}
    (hact : m.action = 8) (h : serverStep sql s (.serve c (.record m junk)) = some t) :
    t.srv.online = setSay s.srv.online m.toname.str 1 := by
  obtain ⟨cfd, heffect⟩ := listEffect_of_record h
  cases heffect with
  | muted _ hon => exact hon
  | same hother => simp [hact] at hother
  | unmuted hother => omega
  | entered hlogin => rcases hlogin with hl | hl <;> omega
  | left hother => omega

theorem online_of_unmuted {s t : ServerState DB} {c : ℕ} {m : Msg} {junk : CharArray 20}
    (hact : m.action = -8) (h : serverStep sql s (.serve c (.record m junk)) = some t) :
    t.srv.online = setSay s.srv.online m.name.str 0 := by
  obtain ⟨cfd, heffect⟩ := listEffect_of_record h
  cases heffect with
  | unmuted _ hon => exact hon
  | same hother => simp [hact] at hother
  | muted hother => omega
  | entered hlogin => rcases hlogin with hl | hl <;> omega
  | left hother => omega

/-- Action -8 works on the first entry of `name`, whoever is to be unmuted. -/
theorem undone_setSay_iff {u name : Bytes} {stretch : List ServerAction}
    {start before : List Online} {f : ℤ}
    (hflag : (getOnline before u).map Online.say = some f)
    (hnothing : stretch = [] → before = setSay start u 1 ∧ f ≠ 0) :
    Undone u stretch start before (setSay before name 0) ↔
      name = u ∨ (f = 0 ∧ ∀ e, getOnline before name = some e → e.say = 0) := by
  obtain ⟨e, he, hsay⟩ := Option.map_eq_some_iff.mp hflag
  by_cases hname : name = u
  · subst hname
    refine iff_of_true ⟨?_, filter_setSay_self before name 0, fun hnil hunmuted => ?_⟩ (.inl rfl)
    · simp [getOnline_setSay_self, he]
    · rw [(hnothing hnil).1, setSay_setSay]
      exact setSay_eq_self_iff.mpr hunmuted
  · constructor
    · intro h
      have hzero := h.flag
      rw [getOnline_setSay_of_ne hname, hflag] at hzero
      exact .inr ⟨Option.some.inj hzero, (filter_setSay_eq_iff hname before 0).mp h.others⟩
    · rintro (h | ⟨hf, hsay⟩)
      · exact absurd h hname
      · refine ⟨?_, (filter_setSay_eq_iff hname before 0).mpr hsay, fun hnil => ?_⟩
        · rw [getOnline_setSay_of_ne hname, hflag, hf]
        · exact absurd hf (hnothing hnil).2

/-- Behind an action 8 for `u` and while no request mutes `u` or changes its session, the manager's
action -8 for `u` undoes the first exactly if the manager is `u` himself, or a request between them
was an action -8 under the name of `u` and the flag of the manager's own entry, if he has one,
is 0. -/
theorem unmute_undoes_mute_iff (sql : Sqlite DB) (pmsg mute unmute : Msg) (words : List Bytes)
    (hact : mute.action = 8) (hunmute : unmute ∈ allManager pmsg words) (hact' : unmute.action = -8)
    (hto : unmute.toname.str = mute.toname.str) (s s₁ s₂ t : ServerState DB) (c c' : ℕ)
    (junk junk' : CharArray 20) (stretch : List ServerAction)
    (hon : mute.toname.str ∈ s.srv.online.map Online.name)
    (h₁ : serverStep sql s (.serve c (.record mute junk)) = some s₁)
    (h₂ : (serverMachine sql).run s₁ stretch = some s₂)
    (hquiet : (serverMachine sql).EachStep (Undisturbed sql mute.toname.str) s₁ stretch)
    (h₃ : serverStep sql s₂ (.serve c' (.record unmute junk')) = some t) :
    Undone unmute.toname.str stretch s.srv.online s₂.srv.online t.srv.online ↔
      pmsg.name.str = mute.toname.str ∨
        (¬ (serverMachine sql).EachStep (fun s a => ¬ UnmutesSelf mute.toname.str s a) s₁ stretch ∧
          ∀ e, getOnline s₂.srv.online pmsg.name.str = some e → e.say = 0) := by
  have hmuted := online_of_muted hact h₁
  obtain ⟨e, he⟩ := Option.ne_none_iff_exists'.mp
    (fun hnone => (getOnline_eq_none_iff.mp hnone) hon)
  have hone : s₁.flag mute.toname.str = some 1 := by
    simp [ServerState.flag, hmuted, getOnline_setSay_self, he]
  obtain ⟨hsame, hzero⟩ := flag_run hquiet h₂
  rw [online_of_unmuted hact' h₃, allManager_name hunmute, hto]
  by_cases hself : (serverMachine sql).EachStep
      (fun s a => ¬ UnmutesSelf mute.toname.str s a) s₁ stretch
  · have hflag := (hsame hself).trans hone
    rw [undone_setSay_iff hflag fun hnil => ?_]
    · simp [hself]
    · subst hnil
      obtain rfl := Option.some.inj h₂
      exact ⟨hmuted, one_ne_zero⟩
  · have hflag : s₂.flag mute.toname.str = some 0 := by rw [hzero hself, hone]; rfl
    rw [undone_setSay_iff hflag fun hnil => ?_]
    · simp [hself]
    · subst hnil
      exact absurd trivial hself

/-- The manager `m` on connection 0 and the user `u` on connection 1, both unmuted. -/
def managerAndUser : ServerState Unit := .sessions () [⟨1, 0, [117]⟩, ⟨0, 0, [109]⟩] 2

def managerM : Msg := { Msg.zero with name := .ofBytes 20 [109] }

/-- The two records of the manager for the user of this one-byte name. -/
def muteOf (name : UInt8) : Msg :=
  { managerM with action := 8, toname := .ofBytes 20 [name], message := .ofBytes 1024 (text "unable") }

def unmuteOf (name : UInt8) : Msg :=
  { managerM with action := -8, toname := .ofBytes 20 [name], message := .ofBytes 1024 (text "capable") }

theorem allManager_muteOf (name : UInt8) :
    allManager managerM [text "unable", [name], text "capable", [name]] =
      [muteOf name, unmuteOf name] := by
  have hne : text "capable" ≠ text "unable" := by decide
  simp [allManager, allManagerLoop, hne, muteOf, unmuteOf]

/-- The manager mutes the user and unmutes him again, and the user stays muted. -/
theorem unmuted_user_stays_muted :
    ∃ s₁ t, serverStep Sqlite.silent managerAndUser (.serve 0 (.record (muteOf 117) (.zero 20))) =
        some s₁ ∧
      serverStep Sqlite.silent s₁ (.serve 0 (.record (unmuteOf 117) (.zero 20))) = some t ∧
      t.srv.online = [⟨1, 1, [117]⟩, ⟨0, 0, [109]⟩] ∧
      ¬ Undone (unmuteOf 117).toname.str [] managerAndUser.srv.online s₁.srv.online
        t.srv.online := by
  refine ⟨_, _, rfl, rfl, by decide, fun h => ?_⟩
  have hflag := h.flag
  revert hflag
  decide

/-- The manager unmutes himself. -/
theorem unmuted_manager_undone :
    ∃ s₁ t, serverStep Sqlite.silent managerAndUser (.serve 0 (.record (muteOf 109) (.zero 20))) =
        some s₁ ∧
      serverStep Sqlite.silent s₁ (.serve 0 (.record (unmuteOf 109) (.zero 20))) = some t ∧
      s₁.srv.online = [⟨1, 0, [117]⟩, ⟨0, 1, [109]⟩] ∧
      Undone (unmuteOf 109).toname.str [] managerAndUser.srv.online s₁.srv.online
        t.srv.online := by
  have hmem : unmuteOf 109 ∈ allManager managerM [text "unable", [109], text "capable", [109]] := by
    simp [allManager_muteOf]
  refine ⟨_, _, rfl, rfl, by decide, ?_⟩
  refine (unmute_undoes_mute_iff Sqlite.silent managerM (muteOf 109) (unmuteOf 109) _ rfl hmem rfl
    rfl managerAndUser _ _ _ 0 0 (.zero 20) (.zero 20) [] ?_ rfl rfl trivial rfl).mpr (.inl ?_)
  · decide
  · decide

end LinuxCat.ServerModel
