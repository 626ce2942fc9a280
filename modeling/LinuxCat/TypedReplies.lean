import LinuxCat.HandlerEffects
import LinuxCat.RecordMemory
import LinuxCat.ServerStreams

/-! # The numbers of what the server writes

An answer is the record that was asked with, but for its action, its message and the id of a
transfer. So the client has it again behind its `recv`, whatever the server was sent. -/
namespace LinuxCat.ServerModel
open ByteLayouts Messages

variable {DB : Type} {sql : Sqlite DB} {srv : Server DB} {cfd : ℤ} {m : Msg} {junk : CharArray 20}

/-- A notice that is still to be written is of its types. -/
def Pc.Typed : Pc → Prop
  | .notify m _ => m.Typed
  | _ => True

/-- What a step writes is of its types, and so is what it leaves to be written. -/
structure Sends (srv : Server DB) (r : Server DB × Pc) : Prop where
  writes : Writes Msg.Typed srv r
  pc : r.2.Typed

theorem sends_caseSay (h : m.Typed) (target : Bytes) (say : ℤ) :
    Sends srv (caseSay srv cfd m target say) := by
  unfold caseSay
  split
  · exact ⟨.single rfl (Msg.typed_action h (by decide)), trivial⟩
  · exact ⟨.single rfl h, trivial⟩

theorem sends_dispatch (h : m.Typed) (haddr : srv.addr.length = 100) :
    Sends srv (dispatch sql junk srv cfd m) := by
  have hanswer {action : ℤ} (hact : IsInt action) : Msg.Typed { m with action := action } :=
    Msg.typed_action h hact
  refine dispatch_cases sql junk srv cfd m (fun _ => ?_) (fun _ => ?_) (fun _ => ?_) (fun _ => ?_)
    (fun _ => ?_) (fun _ => ?_) (fun _ => ⟨.silent rfl, trivial⟩) (fun _ => ?_) (fun _ => ?_)
    (fun _ => sends_caseSay h _ 1) (fun _ => sends_caseSay h _ 0) (fun _ => ?_)
    (fun _ => ⟨.silent rfl, trivial⟩) ⟨.silent rfl, trivial⟩
  · simp only [case0]
    split
    · exact ⟨.single rfl (hanswer (by decide)), trivial⟩
    · exact ⟨.silent rfl, trivial⟩
  · simp only [case1]
    split
    · exact ⟨.single rfl (hanswer (by decide)), trivial⟩
    · exact ⟨.single rfl h, trivial⟩
  · simp only [case2]
    split
    · exact ⟨.single rfl (hanswer (by decide)), trivial⟩
    · exact ⟨.single rfl h, trivial⟩
  · simp only [case3]
    split
    · exact ⟨.single rfl (hanswer (by decide)), trivial⟩
    · split
      · exact ⟨.silent rfl, trivial⟩
      next i hfree =>
        have hi : i < 100 := haddr ▸ (List.findIdx?_eq_some_iff_getElem.mp hfree).1
        have hid : IsInt i := ⟨by omega, by omega⟩
        exact ⟨.single rfl (Msg.typed_sfileId h hid), Msg.typed_sfileId h hid⟩
  · simp only [case4]
    split
    · exact ⟨.silent rfl, trivial⟩
    · split
      · split
        · exact ⟨.toAll rfl h, trivial⟩
        · exact ⟨.single rfl (hanswer (by decide)), trivial⟩
      · exact ⟨.silent rfl, trivial⟩
  · simp only [case5]
    split
    · exact ⟨.single rfl (hanswer (by decide)), trivial⟩
    · exact ⟨.single rfl h, trivial⟩
  · unfold case6
    split
    · exact ⟨.silent rfl, trivial⟩
    · exact ⟨.toAll rfl (Msg.typed_message h _), trivial⟩
    · exact ⟨.toAll rfl (Msg.typed_message h _), trivial⟩
  · refine ⟨.single rfl (Msg.typed_action ?_ (by decide)), trivial⟩
    split
    · exact hanswer (by decide)
    · exact h
  · refine ⟨⟨_, rfl, fun fd m' hm => ?_⟩, trivial⟩
    simp only [List.mem_mapIdx, Prod.mk.injEq, Out.record.injEq] at hm
    obtain ⟨i, hi, -, rfl⟩ := hm
    exact Msg.typed_message h _

theorem typed_of_relaying {pc : Pc} (h : pc.relaying = true) : pc.Typed := by
  cases pc <;> trivial

/-- A step of a handler. -/
theorem sends_step {pc : Pc} {inp : Input} {r : Server DB × Pc}
    (h : threadReadPc sql srv cfd pc inp = some r) (hpc : pc.Typed)
    (hreq : ∀ m junk, requested pc inp = some (m, junk) → m.Typed)
    (haddr : srv.addr.length = 100) : Sends srv r := by
  cases hrq : requested pc inp with
  | some q =>
    obtain ⟨m, junk⟩ := q
    rw [eq_dispatch hrq h]
    exact sends_dispatch (hreq m junk hrq) haddr
  | none =>
    refine ⟨Writes.unrequested h hrq fun m fd hnotify => ?_, ?_⟩
    · subst hnotify
      exact Msg.typed_action hpc (by decide)
    cases pc with
    | recv =>
      obtain ⟨-, rfl⟩ := threadReadPc_unrequested h hrq
      trivial
    | search m i =>
      simp only [threadReadPc] at h
      split_ifs at h
      rcases searchSlot_search h with ⟨j, hj⟩ | hrel
      · rw [hj]
        trivial
      · exact typed_of_relaying hrel
    | register m i =>
      simp only [threadReadPc] at h
      split_ifs at h
      obtain ⟨slot, -, rfl⟩ := Option.map_eq_some_iff.mp h
      split_ifs <;> trivial
    | insertPerson m | notify m fd | spinning =>
      simp only [threadReadPc] at h
      split_ifs at h
      cases h
      trivial
    | relay m fd n | relayRest m fd n | cancelled | fault | exited =>
      exact typed_of_relaying (threadReadPc_relaying rfl h)

end LinuxCat.ServerModel
