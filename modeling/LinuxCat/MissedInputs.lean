import LinuxCat.ClientProtocol

/-! # Input that `main` misses

No result of `scanf` is looked at. Behind the end of the input every word and every number is the
one before it, so that no loop is left; and a word where a number is to be read stays where it is. -/
namespace LinuxCat.ClientModel
open LabelledMachines LabelledMachines.Machine ByteLayouts Messages FileBlocks
open WordScans NumberScans
open ServerModel (text)
open UserLists (isspace)

variable {c t : Client} {as : List ClientAction}

theorem scanf_of_ended (h : words isspace c.stdin = []) (f : Field) (next : Client → Client) :
    c.scanf f next = next { c with stdin := [] } := by
  have hscan := scan_of_words_nil h
  rw [scanf_of_none f next (by rw [hscan]), hscan]

theorem scanfInt_of_noNumber {stdin : Bytes} (h : NoNumber (words isspace stdin)) (old : ℤ) :
    ∃ rest, scanfInt stdin old = (old, rest) ∧ words isspace rest = words isspace stdin := by
  obtain ⟨rest, hscan, hrest⟩ := scanNumber_of_noNumber h
  exact ⟨rest, by rw [scanfInt, hscan]; rfl, hrest⟩

theorem noNumber_nil : NoNumber [] := fun w hw => by cases hw

/-! ## The end of the input -/

/-- Nothing is left to be read, and the last choice was not to end. -/
structure Ended (c : Client) : Prop where
  stdin : words isspace c.stdin = []
  num : c.num ≠ 0
  pc : c.pc ∉ [.filename, .openFile, .exited, .fault]

theorem ended_menu (h : Ended c) : Ended (menu c) := by
  obtain ⟨hin, hnum, -⟩ := h
  obtain ⟨rest, hscan, hrest⟩ := scanfInt_of_noNumber (by rw [hin]; exact noNumber_nil) c.num
  rw [hin] at hrest
  simp only [menu, hscan]
  rw [if_neg hnum]
  split_ifs
  · exact ⟨hrest, hnum, by simp [Client.goto]⟩
  · exact ⟨hrest, hnum, by simp [regUser]⟩
  · exact ⟨hrest, hnum, by simp [logUser]⟩
  · exact ⟨hrest, hnum, by simp [Client.goto]⟩

theorem str_zero : (CharArray.zero 1024).str = [] := by decide +kernel

/-- A word that is not there is sent as an empty one. -/
theorem chatWord_empty (h : c.pmsg.message = .zero 1024) : chatWord c = c.request 2 .chat := by
  have hsfile : [] ≠ text "sfile" := by decide +kernel
  have hquite : [] ≠ text "quite" := by decide +kernel
  rw [chatWord, h, str_zero, if_neg hsfile, if_neg hquite]

theorem allWord_empty (h : c.pmsg.message = .zero 1024) : allWord c = c.request 4 .all := by
  have hquite : [] ≠ text "quite" := by decide +kernel
  rw [allWord, h, str_zero, if_neg hquite]

theorem ended_main {file : Option Bytes} (h : Ended c) (hstep : mainStep c file = some t) :
    Ended t := by
  obtain ⟨hin, hnum, hpcs⟩ := h
  have hclear : words isspace c.clearMessage.stdin = [] := hin
  cases hpc : c.pc <;>
    simp only [mainStep, hpc, scanf_of_ended hin, scanf_of_ended hclear, Option.some.injEq] at hstep
  case menu =>
    subst hstep
    exact ended_menu ⟨hin, hnum, hpcs⟩
  case home =>
    obtain ⟨rest, hscan, hrest⟩ :=
      scanfInt_of_noNumber (by rw [hin]; exact noNumber_nil) c.lognum
    rw [hscan] at hstep
    subst hstep
    exact ⟨hrest.trans hin, hnum, by simp⟩
  case chat =>
    rw [chatWord_empty rfl] at hstep
    subst hstep
    exact ⟨rfl, hnum, by simp [Client.request, Client.write]⟩
  case all =>
    rw [allWord_empty rfl] at hstep
    subst hstep
    exact ⟨rfl, hnum, by simp [Client.request, Client.write]⟩
  case filename => exact absurd hpcs (by simp [hpc])
  case openFile => exact absurd hpcs (by simp [hpc])
  case exited => cases hstep
  case fault => cases hstep
  case test3 | testMinus1 | home1 =>
    subst hstep
    exact ⟨hin, hnum, by simp only [Client.goto]; split_ifs <;> simp⟩
  case test1 =>
    subst hstep
    split_ifs
    · exact ⟨hin, hnum, by simp [viewUser, Client.request, Client.write]⟩
    · exact ⟨hin, hnum, by simp [Client.goto]⟩
  case home2 =>
    subst hstep
    split_ifs
    · exact ⟨hin, hnum, by simp [allUser]⟩
    · exact ⟨hin, hnum, by simp [Client.goto]⟩
  case home3 =>
    subst hstep
    split_ifs
    · exact ⟨hin, hnum, by simp [quiteUser, Client.request, Client.write]⟩
    · exact ⟨hin, hnum, by simp [Client.goto]⟩
  all_goals
    subst hstep
    first
      | exact ⟨hin, hnum, by simp⟩
      | exact ⟨rfl, hnum, by simp [Client.goto, Client.write, Client.request]⟩

/-- Nothing but `main` ends the process: no `write` fails, no signal comes, and `thread_read` stays
within its buffers. -/
def ClientAction.Spares : ClientAction → Prop
  | .read r m => r.Keeps m.1
  | .kill => False
  | _ => True

instance (a : ClientAction) : Decidable a.Spares :=
  match a with
  | .read r m => inferInstanceAs (Decidable (r.Keeps m.1))
  | .kill => inferInstanceAs (Decidable False)
  | .main _ | .serverExit => inferInstanceAs (Decidable True)

theorem ended_step {a : ClientAction} (h : Ended c) (hspares : a.Spares)
    (hstep : clientStep c a = some t) : Ended t := by
  cases a with
  | main file => exact ended_main h hstep
  | read r m =>
    cases clientStep_read hstep with
    | goes sfileId shown hid => exact ⟨h.stdin, h.num, h.pc⟩
    | leaves hnot => exact absurd hspares hnot
  | serverExit =>
    rw [clientStep_serverExit hstep]
    exact ⟨h.stdin, h.num, h.pc⟩
  | kill => exact hspares.elim

def ClientAction.isMain : ClientAction → Bool
  | .main _ => true
  | _ => false

/-- What `thread_read` does between two steps of `main`. -/
theorem reads_only {a : ClientAction} (ha : a.isMain = false) (hspares : a.Spares)
    (hstep : clientStep c a = some t) :
    t.stdin = c.stdin ∧ t.num = c.num ∧ t.pmsg = c.pmsg ∧ t.pc = c.pc ∧ t.written = c.written ∧
      (t.lognum = c.lognum ∨ ∃ r m, a = .read r m ∧ m.1.action ∈ [1, -1]) := by
  cases a with
  | main file => cases ha
  | read r m =>
    cases clientStep_read hstep with
    | goes sfileId shown hid =>
      refine ⟨rfl, rfl, rfl, rfl, rfl, ?_⟩
      by_cases hm : m.1.action ∈ [1, -1]
      · exact .inr ⟨r, m, rfl, hm⟩
      · simp only [List.mem_cons, List.not_mem_nil, or_false, not_or] at hm
        exact .inl (by simp only [answered, if_neg hm.1, if_neg hm.2])
    | leaves hnot => exact absurd hspares hnot
  | serverExit =>
    rw [clientStep_serverExit hstep]
    exact ⟨rfl, rfl, rfl, rfl, rfl, .inl rfl⟩
  | kill => exact hspares.elim

/-- No choice can be read, and the last one leads nowhere. -/
def Stuck (c : Client) : Prop :=
  NoNumber (words isspace c.stdin) ∧
    (c.pc ∈ [.top, .menu] ∧ c.num ∉ [0, 1, 2] ∨
      c.pc ∈ [.home, .home1, .home2, .home3] ∧ c.lognum ∉ [1, 2, 3])

theorem stuck_main {file : Option Bytes} (h : Stuck c) (hstep : mainStep c file = some t) :
    Stuck t ∧ words isspace t.stdin = words isspace c.stdin ∧ t.written = c.written := by
  obtain ⟨hin, hwhere⟩ := h
  obtain ⟨rest, hscan, hrest⟩ := scanfInt_of_noNumber hin c.num
  obtain ⟨rest', hscan', hrest'⟩ := scanfInt_of_noNumber hin c.lognum
  simp only [List.mem_cons, List.not_mem_nil, or_false, not_or] at hwhere
  rcases hwhere with ⟨hpc | hpc, h0, h1, h2⟩ | ⟨hpc | hpc | hpc | hpc, h1, h2, h3⟩
  · simp only [mainStep, hpc, Option.some.injEq] at hstep
    subst hstep
    exact ⟨⟨hin, .inl ⟨by simp, by simp [h0, h1, h2]⟩⟩, rfl, rfl⟩
  · have hmenu : menu c = { c with num := c.num, stdin := rest }.goto .top := by
      simp only [menu, hscan, if_neg h0, if_neg h1, if_neg h2, ite_self]
    simp only [mainStep, hpc, hmenu, Option.some.injEq] at hstep
    subst hstep
    rw [← hrest] at hin
    exact ⟨⟨hin, .inl ⟨by simp [Client.goto], by simp [Client.goto, h0, h1, h2]⟩⟩, hrest, rfl⟩
  · simp only [mainStep, hpc, hscan', Option.some.injEq] at hstep
    subst hstep
    rw [← hrest'] at hin
    exact ⟨⟨hin, .inr ⟨by simp, by simp [h1, h2, h3]⟩⟩, hrest', rfl⟩
  · simp only [mainStep, hpc, if_neg h1, Option.some.injEq] at hstep
    subst hstep
    exact ⟨⟨hin, .inr ⟨by simp [Client.goto], by simp [Client.goto, h1, h2, h3]⟩⟩, rfl, rfl⟩
  · simp only [mainStep, hpc, if_neg h2, Option.some.injEq] at hstep
    subst hstep
    exact ⟨⟨hin, .inr ⟨by simp [Client.goto], by simp [Client.goto, h1, h2, h3]⟩⟩, rfl, rfl⟩
  · simp only [mainStep, hpc, if_neg h3, Option.some.injEq] at hstep
    subst hstep
    exact ⟨⟨hin, .inr ⟨by simp [Client.goto], by simp [Client.goto, h1, h2, h3]⟩⟩, rfl, rfl⟩

instance (c : Client) : Decidable (Stuck c) := inferInstanceAs (Decidable (_ ∧ _))

end LinuxCat.ClientModel
