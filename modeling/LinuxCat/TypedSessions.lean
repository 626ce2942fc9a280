import LinuxCat.ClientRecords
import LinuxCat.TypedSteps

/-! # What is typed is asked

While every login is accepted and every file is found, the client asks for what was typed and for
nothing else, whatever `thread_read` is sent meanwhile. -/
namespace LinuxCat.ClientModel
open LabelledMachines LabelledMachines.Machine ByteLayouts Messages WordScans
open ServerModel (Sqlite Server StreamState StreamAction streamMachine text)
open UserLists (isspace)

/-- A login is answered once and accepted, the files are found, `thread_read` stays within its
buffers, and neither the server nor the process of the client is ended. -/
def Welcomes (c : Client) : ClientAction → Prop
  | .main file => c.pc = .openFile → file.isSome
  | .read r m => r.Keeps m.1 ∧ (m.1.action ∉ [1, -1] ∨ m.1.action = 1 ∧ c.waits)
  | .serverExit | .kill => False

instance (c : Client) (a : ClientAction) : Decidable (Welcomes c a) :=
  match a with
  | .main file => inferInstanceAs (Decidable (c.pc = .openFile → file.isSome))
  | .read r m =>
    inferInstanceAs (Decidable (r.Keeps m.1 ∧ (m.1.action ∉ [1, -1] ∨ m.1.action = 1 ∧ c.waits)))
  | .serverExit | .kill => inferInstanceAs (Decidable False)

/-- What was asked for is what is typed up to where `main` is. -/
def Follows (vs : List Visit) (c : Client) : Prop :=
  ∃ done todo, wishes vs = done ++ todo ∧ c.IsBehind todo ∧ List.Forall₂ Asks c.written done

theorem Client.IsBehind.answered {c : Client} {todo : List Wish} (h : c.IsBehind todo) (hwaits : c.waits) :
    Client.IsBehind { c with lognum := 1 } todo := by
  obtain ⟨hlogging, hlognum⟩ := of_decide_eq_true hwaits
  unfold Client.IsBehind at h ⊢
  dsimp only
  generalize c.pc = pc at h hlogging ⊢
  generalize words isspace c.stdin = ws at h ⊢
  cases h with
  | login name password talks vs pc hpc _ hm =>
    exact .login name password talks vs pc hpc (.inr rfl) hm
  | finished vs h3 => omega
  | chosenAll name password ms talks vs pc hpc =>
    rcases hpc with rfl | rfl <;> cases hlogging
  | chosenQuite name password vs pc hpc =>
    rcases hpc with rfl | rfl | rfl <;> cases hlogging
  | chat name password toname said talks vs pc hpc =>
    rcases hpc with rfl | rfl <;> cases hlogging
  | _ => cases hlogging

theorem Client.IsBehind.not_fault {c : Client} {todo : List Wish} (h : c.IsBehind todo) : c.pc ≠ .fault := by
  intro hpc
  unfold Client.IsBehind at h
  rw [hpc] at h
  generalize words isspace c.stdin = ws at h
  cases h with
  | login _ _ _ _ _ hlogging => cases hlogging
  | chosenAll _ _ _ _ _ _ hhome => simp at hhome
  | chosenQuite _ _ _ _ hhome => simp at hhome
  | chat _ _ _ _ _ _ _ hchat => simp at hchat

theorem Client.IsBehind.exited {c : Client} {todo : List Wish} (h : c.IsBehind todo) (hpc : c.pc = .exited) :
    todo = [] := by
  unfold Client.IsBehind at h
  rw [hpc] at h
  generalize words isspace c.stdin = ws at h
  cases h with
  | login _ _ _ _ _ hlogging => cases hlogging
  | chosenAll _ _ _ _ _ _ hhome => simp at hhome
  | chosenQuite _ _ _ _ hhome => simp at hhome
  | chat _ _ _ _ _ _ _ hchat => simp at hchat
  | exited => rfl

theorem follows_main {vs : List Visit} {c t : Client} {file : Option Bytes} (h : Follows vs c)
    (hfile : c.pc = .openFile → file.isSome) (hstep : mainStep c file = some t) :
    Follows vs t ∧ (t.left < c.left ∨ c.waits) := by
  obtain ⟨done, todo, hsplit, hbehind, hdone⟩ := h
  have hgoes := goes_main hbehind hfile hstep
  cases hgoes with
  | on todo hbehind' hleft hwritten =>
    exact ⟨⟨done, todo, hsplit, hbehind', by rwa [hwritten]⟩, hleft⟩
  | asks w todo hbehind' hleft hwritten hasks =>
    refine ⟨⟨done ++ [w], todo, by rw [hsplit]; simp, hbehind', ?_⟩, .inl hleft⟩
    rw [hwritten]
    exact List.rel_append hdone (.cons hasks .nil)

theorem Follows.read {vs : List Visit} {c t : Client} {r : Round} {m : Msg} (h : Follows vs c)
    (hm : m.action ∉ [1, -1] ∨ m.action = 1 ∧ c.waits) (hstep : ReadStep c r m t)
    (hpc : t.pc ≠ .fault) : Follows vs t := by
  obtain ⟨done, todo, hsplit, hbehind, hdone⟩ := h
  cases hstep with
  | goes sfileId shown hid =>
    refine ⟨done, todo, hsplit, ?_, hdone⟩
    rcases hm with hother | ⟨hact, hwaits⟩
    · simp only [List.mem_cons, List.not_mem_nil, or_false, not_or] at hother
      have hsame : answered c.lognum m = c.lognum := by
        rw [answered, if_neg hother.1, if_neg hother.2]
      simpa only [Client.IsBehind, hsame] using hbehind
    · have hone : answered c.lognum m = 1 := if_pos hact
      simpa only [Client.IsBehind, hone] using hbehind.answered hwaits
  | leaves hnot => exact absurd rfl hpc

theorem follows_step {vs : List Visit} {c t : Client} {a : ClientAction} (h : Follows vs c)
    (hreading : c.reading = true) (hwelcome : Welcomes c a) (hstep : clientStep c a = some t) :
    Follows vs t ∧ t.reading = true := by
  cases a with
  | main file =>
    exact ⟨(follows_main h hwelcome hstep).1, (mainStep_cases hstep).shown.2.trans hreading⟩
  | read r m =>
    have hread := clientStep_read hstep
    have hsame : t.pc = c.pc ∧ t.reading = c.reading := by
      cases hread with
      | goes sfileId shown hid => exact ⟨rfl, rfl⟩
      | leaves hnot => exact absurd hwelcome.1 hnot
    obtain ⟨done, todo, -, hbehind, -⟩ := id h
    exact ⟨h.read hwelcome.2 hread (hsame.1 ▸ hbehind.not_fault), hsame.2.trans hreading⟩
  | serverExit | kill => exact hwelcome.elim

theorem follows_start {vs : List Visit} {stdin : Bytes} (hin : words isspace stdin = script vs)
    (num : ℤ) (pmsg : Msg) : Follows vs (.start stdin num pmsg) := by
  refine ⟨[], wishes vs, rfl, ?_, .nil⟩
  simp only [Client.IsBehind, Client.start, hin]
  exact .top vs

/-- Wherever the client is, it comes to its end: `main` goes on, and when it waits the login is
answered. -/
theorem exists_exit {vs : List Visit} {c : Client} (h : Follows vs c) (hreading : c.reading = true) :
    ∃ as t, clientMachine.run c as = some t ∧ clientMachine.EachStep Welcomes c as ∧
      t.pc = .exited := by
  induction hn : 2 * c.left + c.waits.toNat using Nat.strong_induction_on generalizing c with
  | _ n ih =>
    subst hn
    obtain ⟨done, todo, -, hbehind, -⟩ := id h
    by_cases hexited : c.pc = .exited
    · exact ⟨[], c, rfl, trivial, hexited⟩
    have hrunning : c.running = true := decide_eq_true ⟨hexited, hbehind.not_fault⟩
    -- a step that is welcome, and the run behind it
    have hgo {a : ClientAction} {t : Client} (hwelcome : Welcomes c a)
        (hstep : clientStep c a = some t)
        (hlt : 2 * t.left + t.waits.toNat < 2 * c.left + c.waits.toNat) :
        ∃ as u, clientMachine.run c as = some u ∧ clientMachine.EachStep Welcomes c as ∧
          u.pc = .exited := by
      obtain ⟨hfollows, hreading'⟩ := follows_step h hreading hwelcome hstep
      obtain ⟨as, u, hrun, heach, hu⟩ := ih _ hlt hfollows hreading' rfl
      refine ⟨a :: as, u, run_cons_eq_some.mpr ⟨t, hstep, hrun⟩, ⟨hwelcome, fun v hv => ?_⟩, hu⟩
      cases hstep.symm.trans hv
      exact heach
    by_cases hwaits : c.waits = true
    · have hread : threadRead c .calm ServerModel.oneLogin.1 = { c with lognum := 1 } := rfl
      refine hgo (a := .read .calm ServerModel.oneLogin) ⟨by decide, .inr ⟨rfl, hwaits⟩⟩
        (if_pos ⟨hrunning, hreading⟩) ?_
      rw [hread, hwaits]
      simp [Client.left, Client.waits]
    · obtain ⟨t, hstep⟩ := Option.isSome_iff_exists.mp (mainStep_isSome hrunning (some []))
      have hlt : t.left < c.left := (follows_main h (fun _ => rfl) hstep).2.resolve_right hwaits
      have hbool := t.waits.toNat_le
      exact hgo (a := .main (some [])) (fun _ => rfl) hstep (by omega)

theorem follows_run {vs : List Visit} {stdin : Bytes} (hin : words isspace stdin = script vs)
    {num : ℤ} {pmsg : Msg} {as : List ClientAction} {c : Client}
    (hwelcome : clientMachine.EachStep Welcomes (.start stdin num pmsg) as)
    (h : clientMachine.run (.start stdin num pmsg) as = some c) :
    Follows vs c ∧ c.reading = true :=
  run_invariant_of_eachStep (M := clientMachine) (I := fun c => Follows vs c ∧ c.reading = true)
    (fun _ _ _ hs hq hstep => follows_step hs.1 hs.2 hq hstep) ⟨follows_start hin num pmsg, rfl⟩
    hwelcome h

/-- And the server, which reads the bytes of this client record by record and those of others in any
way, serves on this connection what was typed, up to some word and in its order. -/
theorem typed_is_requested {DB : Type} (sql : Sqlite DB) (srv : Server DB) (stream : ℕ → Bytes)
    (vs : List Visit) (stdin : Bytes) (hin : words isspace stdin = script vs) (num : ℤ) (pmsg : Msg)
    (as : List ClientAction) (client : Client)
    (hwelcome : clientMachine.EachStep Welcomes (.start stdin num pmsg) as)
    (hclient : clientMachine.run (.start stdin num pmsg) as = some client) (c : ℕ)
    (hstream : stream c = client.written.flatMap Msg.toBytes) (bs : List StreamAction)
    (t : StreamState DB) (h : (streamMachine sql stream).run (.start srv) bs = some t)
    (hwhole : ∀ a ∈ bs, a.Whole c) :
    ∃ done, done <+: wishes vs ∧ List.Forall₂ Asks (t.server.requests c) done := by
  obtain ⟨done, todo, hsplit, -, hdone⟩ := (follows_run hin hwelcome hclient).1
  have hbegins := requests_prefix_written hclient hstream h hwhole
  rw [List.prefix_iff_eq_take] at hbegins
  refine ⟨done.take (t.server.requests c).length, ?_, ?_⟩
  · rw [hsplit]
    exact (List.take_prefix _ _).trans (List.prefix_append _ _)
  · have htake := List.forall₂_take (t.server.requests c).length hdone
    rwa [← hbegins] at htake

/-- The user `r` logs in, says `hi` to `v` and `yo` to all, and logs out. -/
def visitOfR : Visit :=
  .session ⟨[114], by decide +kernel, by decide +kernel, by decide⟩
    ⟨[52], by decide +kernel, by decide +kernel, by decide⟩
    [.chat ⟨[118], by decide +kernel, by decide +kernel, by decide⟩
      [.message ⟨[104, 105], by decide +kernel, by decide +kernel, by decide⟩ (by decide +kernel)],
    .all [⟨⟨[121, 111], by decide +kernel, by decide +kernel, by decide⟩, by decide +kernel⟩]]

def visitActions : List ClientAction :=
  loginActions ++ List.replicate 17 (.main (some []))

/-- The server takes the first record of the visit. -/
theorem visitOfR_requested :
    ∃ c t, clientMachine.run (.start (text "1 r 4 1 v hi quite 2 yo quite 3 0") 0 .zero) visitActions =
        some c ∧
      (streamMachine .silent (fun _ => c.written.flatMap Msg.toBytes)).run (.start (.start ()))
        [.accept, .recv 0 1168 (.zero 20)] = some t ∧
      (t.server.requests 0).length = 1 ∧
      ∃ done, done <+: wishes [visitOfR] ∧ List.Forall₂ Asks (t.server.requests 0) done := by
  have hrun : (clientMachine.run (.start (text "1 r 4 1 v hi quite 2 yo quite 3 0") 0 .zero)
      visitActions).any (fun c =>
        ((streamMachine .silent (fun _ => c.written.flatMap Msg.toBytes)).run (.start (.start ()))
          [.accept, .recv 0 1168 (.zero 20)]).any
            (fun t => (t.server.requests 0).length = 1)) = true := by
    decide +kernel
  obtain ⟨c, hc, hserver⟩ := (Option.any_eq_true ..).mp hrun
  obtain ⟨t, ht, hlen⟩ := (Option.any_eq_true ..).mp hserver
  exact ⟨c, t, hc, ht, of_decide_eq_true hlen, typed_is_requested .silent _ _ [visitOfR] _
    (by decide +kernel) 0 .zero visitActions c (by decide +kernel) hc 0 rfl _ t ht (by decide)⟩

end LinuxCat.ClientModel
