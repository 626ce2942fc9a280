import LinuxCat.FileTransferModel
import LinuxCat.HandlerEffects
import LinuxCat.WaitQueues

/-! # What becomes of a connection for a block

A connection of the receiver is open, then in a slot of `find_cfd`, then given to one handler
that relays its block to it, then closed. The stage of a connection says which, and with it what
the server has sent on it. The table and the handlers agree with the stages in every step. -/
namespace LinuxCat.FileTransfer
open LabelledMachines ByteLayouts Messages FileBlocks ServerModel ReceiverModel WaitQueues

variable {DB : Type}

/-! ## Blocks and their headers -/

/-- The bytes of the `j`-th block. -/
def block (file : Bytes) (j : ℕ) : Bytes := (file.drop (500 * j)).take (blockLength file.length j)

/-- The header as the thread of the `j`-th block sends it. -/
def header (req : Msg) (file : Bytes) (j : ℕ) : Msg :=
  { head req file.length j with action := 5 }

/-- The record `recv_file` sends for the `j`-th block. -/
def answer (req : Msg) (file : Bytes) (j : ℕ) : Msg := { header req file j with action := -5 }

section Blocks
variable {req : Msg} {file : Bytes} {j j' : ℕ}

theorem length_block (hj : j < blockCount file.length) :
    (block file j).length = blockLength file.length j := by
  simp only [blockCount] at hj
  simp only [block, blockLength, List.length_take, List.length_drop]
  omega

theorem blockLength_pos (hj : j < blockCount file.length) : 0 < blockLength file.length j := by
  simp only [blockCount] at hj
  simp only [blockLength]
  omega

@[simp] theorem header_action : (header req file j).action = 5 := rfl

@[simp] theorem header_offset : (header req file j).offset = 500 * j := rfl

@[simp] theorem header_bs : (header req file j).bs = blockLength file.length j := rfl

@[simp] theorem header_sfileId : (header req file j).sfileId = req.sfileId := rfl

@[simp] theorem answer_action : (answer req file j).action = -5 := rfl

@[simp] theorem answer_offset : (answer req file j).offset = 500 * j := rfl

@[simp] theorem header_toname : (header req file j).toname.str = req.toname.str :=
  CharArray.str_strcpy _ _

theorem header_injective (h : header req file j = header req file j') : j = j' := by
  have := congrArg Msg.offset h
  simp only [header_offset] at this
  omega

theorem typed_header (hid : 0 ≤ req.sfileId ∧ req.sfileId < 20) (hlt : file.length < 2 ^ 31)
    (hj : j < blockCount file.length) : (header req file j).Typed := by
  simp only [blockCount] at hj
  refine ⟨?_, ?_, ?_, ?_, ?_, ?_, ?_⟩ <;>
    simp only [IsInt, IsLong, header, head, blockHead, Msg.zero, blockLength] <;> omega

theorem typed_answer (h : (header req file j).Typed) : (answer req file j).Typed :=
  ⟨by constructor <;> simp [answer], h.sfileId, h.filesize, h.count, h.bs, h.offset, h.cfd⟩

end Blocks

/-! ## What a connection carries to its client -/

section Lines
variable {fd : ℤ} {ws ws' : List (ℤ × Out)}

theorem lineTo_append_of_open (h : (fd, Out.close) ∉ ws) :
    lineTo fd (ws ++ ws') = lineTo fd ws ++ lineTo fd ws' := by
  induction ws with
  | nil => rfl
  | cons w ws ih =>
    obtain ⟨fd', o⟩ := w
    simp only [List.mem_cons, not_or] at h
    have ih := ih h.2
    simp only [List.cons_append, lineTo]
    split_ifs with hfd
    · subst hfd
      cases o with
      | record m => simp only [ih, List.append_assoc]
      | raw bs => simp only [ih, List.append_assoc]
      | close => exact absurd rfl h.1
    · exact ih

theorem lineTo_append_of_closed (h : (fd, Out.close) ∈ ws) :
    lineTo fd (ws ++ ws') = lineTo fd ws := by
  induction ws with
  | nil => simp at h
  | cons w ws ih =>
    obtain ⟨fd', o⟩ := w
    simp only [List.cons_append, lineTo]
    split_ifs with hfd
    · subst hfd
      cases o with
      | record m => rw [ih (by simpa using h)]
      | raw bs => rw [ih (by simpa using h)]
      | close => rfl
    · refine ih ?_
      simpa [Ne.symm hfd] using h

theorem lineTo_of_ne (h : ∀ w ∈ ws, w.1 ≠ fd) : lineTo fd ws = [] := by
  induction ws with
  | nil => rfl
  | cons w ws ih =>
    obtain ⟨fd', o⟩ := w
    simp only [List.mem_cons, forall_eq_or_imp] at h
    simp only [lineTo, if_neg h.1, ih h.2]

theorem lineTo_append_of_ne (h : ∀ w ∈ ws', w.1 ≠ fd) : lineTo fd (ws ++ ws') = lineTo fd ws := by
  by_cases hc : (fd, Out.close) ∈ ws
  · exact lineTo_append_of_closed hc
  · rw [lineTo_append_of_open hc, lineTo_of_ne h, List.append_nil]

/-- A connection carries ever more. -/
theorem lineTo_grows (h : ws <+: ws') : lineTo fd ws <+: lineTo fd ws' := by
  obtain ⟨ws'', rfl⟩ := h
  by_cases hc : (fd, Out.close) ∈ ws
  · exact ⟨[], by rw [List.append_nil, lineTo_append_of_closed hc]⟩
  · exact ⟨_, (lineTo_append_of_open hc).symm⟩

end Lines

/-! ## Stages -/

inductive Stage
  | opened
  /-- waits in slot `i` -/
  | entered (i : ℕ)
  /-- handler `c` relays to it, and has `remain` bytes to go -/
  | relayed (c : ℕ) (remain : ℤ)
  | closed
  deriving DecidableEq, Repr

/-- What was sent to a connection for block `j`. -/
def Stage.delivered (file : Bytes) (j : ℕ) : Stage → Bytes
  | .opened | .entered _ => []
  | .relayed _ remain => (block file j).take (blockLength file.length j - remain.toNat)
  | .closed => block file j

/-- `find_cfd` and the writes are as the stages of the connections say. `P` tells who opened a
connection. -/
structure Table (req : Msg) (file : Bytes) (P : ℕ → Option Peer) (findCfd : List StroSockfd)
    (written : List (ℤ × Out)) (stage : ℕ → Stage) : Prop where
  slot : ∀ (i : ℕ) slot, findCfd[i]? = some slot → slot.use = 1 → ∃ c q j : ℕ,
    slot.cfd = c ∧ slot.offset = 500 * j ∧ P c = some (.receiver q (header req file j)) ∧
      stage c = .entered i
  line : ∀ c q j, P c = some (.receiver q (header req file j)) →
    lineTo c written = (stage c).delivered file j
  shut : ∀ c : ℕ, (P c).isSome → (((c : ℤ), Out.close) ∈ written ↔ stage c = .closed)
  known : ∀ w ∈ written, ∃ c : ℕ, w.1 = c ∧ (P c).isSome

namespace Table

variable {req : Msg} {file : Bytes} {P : ℕ → Option Peer} {findCfd : List StroSockfd}
  {written : List (ℤ × Out)} {stage : ℕ → Stage}

/-- One connection moves to another stage, and only it is written to. -/
theorem move (h : Table req file P findCfd written stage) {x : ℕ}
    (findCfd' : List StroSockfd) (st : Stage) (ws : List (ℤ × Out)) (hx : (P x).isSome)
    (hws : ∀ w ∈ ws, w.1 = (x : ℤ))
    (hslot : ∀ (i : ℕ) slot, findCfd'[i]? = some slot → slot.use = 1 →
      findCfd[i]? = some slot ∧ (stage x = .entered i → st = .entered i) ∨
        ∃ q j : ℕ, slot.cfd = x ∧ slot.offset = 500 * j ∧
          P x = some (.receiver q (header req file j)) ∧ st = .entered i)
    (hline : ∀ q j, P x = some (.receiver q (header req file j)) →
      lineTo x (written ++ ws) = st.delivered file j)
    (hshut : ((x : ℤ), Out.close) ∈ written ++ ws ↔ st = .closed) :
    Table req file P findCfd' (written ++ ws) (Function.update stage x st) := by
  refine ⟨fun i slot hs huse => ?_, fun c q j hc => ?_, fun c hc => ?_, fun w hw => ?_⟩
  · rcases hslot i slot hs huse with ⟨hold, hkeep⟩ | ⟨q, j, hcfd, hoff, hc, hst⟩
    · obtain ⟨c, q, j, hcfd, hoff, hc, hst⟩ := h.slot i slot hold huse
      refine ⟨c, q, j, hcfd, hoff, hc, ?_⟩
      by_cases hcx : c = x
      · subst hcx
        rw [Function.update_self, hkeep hst]
      · rw [Function.update_of_ne hcx, hst]
    · exact ⟨x, q, j, hcfd, hoff, hc, by rw [Function.update_self, hst]⟩
  · by_cases hcx : c = x
    · subst hcx
      rw [Function.update_self, hline q j hc]
    · rw [Function.update_of_ne hcx, ← h.line c q j hc]
      refine lineTo_append_of_ne fun w hw => ?_
      rw [hws w hw]
      exact_mod_cast Ne.symm hcx
  · by_cases hcx : c = x
    · subst hcx
      rw [Function.update_self, hshut]
    · rw [Function.update_of_ne hcx, ← h.shut c hc, List.mem_append, or_iff_left]
      intro hw
      exact hcx (Nat.cast_inj.mp (hws _ hw))
  · rcases List.mem_append.mp hw with hw | hw
    · exact h.known w hw
    · exact ⟨x, hws w hw, hx⟩

/-- A record for a user's session, or for a connection that is closed already. -/
theorem record (h : Table req file P findCfd written stage) {x : ℕ} (hx : (P x).isSome)
    (hquiet : stage x = .closed ∨ ∀ q m, P x ≠ some (.receiver q m)) (m : Msg) :
    Table req file P findCfd (written ++ [((x : ℤ), .record m)]) stage := by
  have hmove := h.move findCfd (stage x) [((x : ℤ), .record m)] hx (by simp)
    (fun i slot hs _ => .inl ⟨hs, id⟩) (fun q j hc => ?_) (by simpa using h.shut x hx)
  · rwa [Function.update_eq_self] at hmove
  · rcases hquiet with hq | hq
    · rw [lineTo_append_of_closed ((h.shut x hx).mpr hq), h.line x q j hc]
    · exact absurd hc (hq q _)

/-- Bytes for a connection that is being relayed to. -/
theorem raw (h : Table req file P findCfd written stage) {x c q j : ℕ} {remain : ℤ}
    (hx : P x = some (.receiver q (header req file j))) (hstage : stage x = .relayed c remain)
    {bs : Bytes} {remain' : ℤ} (hbs : (Stage.relayed c remain).delivered file j ++ bs =
      (Stage.relayed c remain').delivered file j) :
    Table req file P findCfd (written ++ [((x : ℤ), .raw bs)])
      (Function.update stage x (.relayed c remain')) := by
  have hsome : (P x).isSome := by simp [hx]
  have hopen : ((x : ℤ), Out.close) ∉ written := by
    rw [h.shut x hsome, hstage]
    simp
  refine h.move _ _ _ hsome (by simp) (fun i slot hs _ => .inl ⟨hs, by simp [hstage]⟩)
    (fun q' j' hc => ?_) (by simpa using hopen)
  rw [hx] at hc
  simp only [Option.some.injEq, Peer.receiver.injEq] at hc
  obtain rfl := header_injective hc.2
  rw [lineTo_append_of_open hopen, h.line x q j hx, hstage, ← hbs]
  simp [lineTo]

/-- A `close` of a connection on which everything was sent. -/
theorem close (h : Table req file P findCfd written stage) {x : ℕ} (hx : (P x).isSome)
    (hentered : ∀ i, stage x ≠ .entered i)
    (hline : ∀ q j, P x = some (.receiver q (header req file j)) →
      (stage x).delivered file j = block file j) :
    Table req file P findCfd (written ++ [((x : ℤ), .close)])
      (Function.update stage x .closed) := by
  refine h.move _ _ _ hx (by simp) (fun i slot hs _ => .inl ⟨hs, fun he => absurd he (hentered i)⟩)
    (fun q j hc => ?_) (by simp)
  have hlast : lineTo x (written ++ [((x : ℤ), Out.close)]) = lineTo x written := by
    by_cases hopen : ((x : ℤ), Out.close) ∈ written
    · exact lineTo_append_of_closed hopen
    · rw [lineTo_append_of_open hopen]
      simp [lineTo]
  rw [hlast, h.line x q j hc, hline q j hc]
  rfl

/-- A search takes a connection out of its slot. -/
theorem found (h : Table req file P findCfd written stage) {i x c q j : ℕ} {slot : StroSockfd}
    (hx : P x = some (.receiver q (header req file j))) (hstage : stage x = .entered i) :
    Table req file P (findCfd.set i { slot with use := 0 }) written
      (Function.update stage x (.relayed c (blockLength file.length j))) := by
  have hsome : (P x).isSome := by simp [hx]
  have hmove := h.move (findCfd.set i { slot with use := 0 })
    (.relayed c (blockLength file.length j)) [] hsome (by simp) (fun i' slot' hslot' huse => ?_)
    (fun q' j' hc => ?_) ?_
  · rwa [List.append_nil] at hmove
  · obtain ⟨-, rfl⟩ | ⟨hi, hslot'⟩ := getElem?_set_cases hslot'
    · simp at huse
    · refine .inl ⟨hslot', fun he => absurd ?_ hi⟩
      rw [hstage] at he
      exact Stage.entered.inj he
  · rw [hx] at hc
    simp only [Option.some.injEq, Peer.receiver.injEq] at hc
    obtain rfl := header_injective hc.2
    rw [List.append_nil, h.line x q j hx, hstage]
    simp [Stage.delivered]
  · rw [List.append_nil, h.shut x hsome, hstage]
    simp

/-- A connection is entered in a free slot. -/
theorem enter (h : Table req file P findCfd written stage) {i x q j : ℕ} {slot : StroSockfd}
    (hx : P x = some (.receiver q (header req file j))) (hstage : stage x = .opened)
    (hcfd : slot.cfd = x) (hoff : slot.offset = 500 * j) :
    Table req file P (findCfd.set i slot) written (Function.update stage x (.entered i)) := by
  have hsome : (P x).isSome := by simp [hx]
  have hmove := h.move (findCfd.set i slot) (.entered i) [] hsome (by simp)
    (fun i' slot' hslot' _ => ?_) (fun q' j' hc => ?_) ?_
  · rwa [List.append_nil] at hmove
  · obtain ⟨rfl, rfl⟩ | ⟨-, hslot'⟩ := getElem?_set_cases hslot'
    · exact .inr ⟨q, j, hcfd, hoff, hx, rfl⟩
    · exact .inl ⟨hslot', by simp [hstage]⟩
  · rw [List.append_nil, h.line x q' j' hc, hstage]
    rfl
  · rw [List.append_nil, h.shut x hsome, hstage]
    simp

/-- A new connection. -/
theorem connect (h : Table req file P findCfd written stage) {x : ℕ} (hx : P x = none)
    (peer : Peer) :
    Table req file (Function.update P x (some peer)) findCfd written
      (Function.update stage x .opened) := by
  have hold {c : ℕ} (hc : (P c).isSome) : c ≠ x := by
    rintro rfl
    simp [hx] at hc
  have hfresh : ∀ w ∈ written, w.1 ≠ (x : ℤ) := by
    intro w hw he
    obtain ⟨c, hc, hsome⟩ := h.known w hw
    rw [hc, Nat.cast_inj] at he
    exact hold hsome he
  refine ⟨fun i slot hslot huse => ?_, fun c q j hc => ?_, fun c hc => ?_, fun w hw => ?_⟩
  · obtain ⟨c, q, j, hcfd, hoff, hc, hst⟩ := h.slot i slot hslot huse
    have hcx : c ≠ x := hold (by simp [hc])
    exact ⟨c, q, j, hcfd, hoff, by rwa [Function.update_of_ne hcx],
      by rwa [Function.update_of_ne hcx]⟩
  · by_cases hcx : c = x
    · subst hcx
      rw [Function.update_self, lineTo_of_ne hfresh]
      rfl
    · rw [Function.update_of_ne hcx] at hc ⊢
      exact h.line c q j hc
  · by_cases hcx : c = x
    · subst hcx
      simpa using fun hw => hfresh _ hw rfl
    · rw [Function.update_of_ne hcx] at hc ⊢
      exact h.shut c hc
  · obtain ⟨c, hc, hsome⟩ := h.known w hw
    exact ⟨c, hc, by rwa [Function.update_of_ne (hold hsome)]⟩

end Table
end LinuxCat.FileTransfer
