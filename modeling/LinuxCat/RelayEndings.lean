import LinuxCat.BlockRelays

/-! # A relay whose sender may stop at any byte

The loop of `send_file` ends only when `remain_size` is not positive, and does not look at what
`recv` returns. It ends well on a stream that is the block, and on a longer or failing one when
the block has a full buffer and its last `recv` finds the rest of the block there. -/
namespace LinuxCat.ServerModel
open LabelledMachines LabelledMachines.Machine ByteLayouts Messages

/-- What a connection does behind the header of its block: the bytes it sends, what `recv` returns
behind them, and how many bytes are ready at the `i`-th call of `recv`. -/
structure Behaviour where
  stream : Bytes
  ending : Ending
  ready : ℕ → ℕ+

variable {DB : Type} {sql : Sqlite DB} {srv : Server DB} {cofd tofd : ℤ} {pmsg : Msg}
  {b : Behaviour}

/-- The call ends, no length is negative, and what was written is what was received of the
block. -/
def RelayedRight (sql : Sqlite DB) (srv : Server DB) (pmsg : Msg) (cofd tofd : ℤ)
    (b : Behaviour) : Prop :=
  ∃ n t, (relayMachine sql cofd b.ending).run (.start srv pmsg cofd tofd b.stream)
      ((List.range n).map b.ready) = some t ∧
    t.pc = .cancelled ∧ (∀ l ∈ t.lengths, 0 ≤ l) ∧
    relayed tofd t.srv.written =
      relayed tofd srv.written ++ b.stream.take (min pmsg.bs.toNat b.stream.length)

/-- The stream is the block and ends; or it has all of a block of a full buffer or more, and the
`recv` behind the last full buffer finds the rest of the block ready. Where there is no rest it is
asked for no bytes, and returns 0 if there are others. -/
def Behaviour.Suits (b : Behaviour) (bs : ℤ) : Prop :=
  (b.stream.length : ℤ) = bs ∧ b.ending = .eof ∨
    (RECVBUF_SIZE : ℤ) ≤ bs ∧ bs ≤ b.stream.length ∧
      if bs % RECVBUF_SIZE = 0 then bs < b.stream.length
      else bs % RECVBUF_SIZE ≤ (b.ready (bs / RECVBUF_SIZE).toNat : ℕ)

instance (b : Behaviour) (bs : ℤ) : Decidable (b.Suits bs) :=
  inferInstanceAs (Decidable (_ ∨ _))

theorem testPc_of_le (hbs : 0 ≤ pmsg.bs) {n : ℤ} (h : n ≤ pmsg.bs % 100) :
    testPc pmsg tofd n = .relayRest pmsg tofd n := by
  rw [testPc, if_pos (by rwa [Int.tmod_eq_emod_of_nonneg hbs])]

theorem testPc_of_gt (hbs : 0 ≤ pmsg.bs) {n : ℤ} (h : pmsg.bs % 100 < n) :
    testPc pmsg tofd n = .relay pmsg tofd n := by
  have htest : ¬ n ≤ pmsg.bs.tmod RECVBUF_SIZE := by
    rw [Int.tmod_eq_emod_of_nonneg hbs]
    exact not_le.mpr h
  rw [testPc, if_neg htest, loopPc, if_pos (by omega)]

/-! ## Where the loop ends well -/

theorem relayedRight_of_passes {n : ℕ} {t : Relay DB}
    (hrun : (relayMachine sql cofd b.ending).run (.start srv pmsg cofd tofd b.stream)
      (readyFrom b.ready 0 n) = some t)
    (hbs : 0 < pmsg.bs) (hpc : t.pc = .cancelled)
    (hpass : Passes tofd (.start srv pmsg cofd tofd b.stream) t (b.stream.take pmsg.bs.toNat)) :
    RelayedRight sql srv pmsg cofd tofd b := by
  rw [start_relay srv pmsg cofd tofd b.stream hbs] at hpass
  obtain ⟨ls, hls, hpos⟩ := hpass.lengths
  rw [readyFrom, ← List.range_eq_range'] at hrun
  refine ⟨n, t, hrun, hpc, fun l hl => hpos l (by simpa [hls] using hl), ?_⟩
  rw [hpass.relayed, ← List.take_eq_take_min]

theorem run_readyFrom_add {ending : Ending} (s : Relay DB) (ready : ℕ → ℕ+) (i k d : ℕ) :
    (relayMachine sql cofd ending).run s (readyFrom ready i (k + d)) =
      ((relayMachine sql cofd ending).run s (readyFrom ready i k)).bind
        (fun t => (relayMachine sql cofd ending).run t (readyFrom ready (i + k) d)) := by
  rw [readyFrom, ← List.range'_append_1, List.map_append, run_append]
  rfl

theorem run_readyFrom_succ {ending : Ending} {s t u : Relay DB} {ready : ℕ → ℕ+} {i k : ℕ}
    (hrun : (relayMachine sql cofd ending).run s (readyFrom ready i k) = some t)
    (hstep : relayStep sql cofd ending t (ready (i + k)) = some u) :
    (relayMachine sql cofd ending).run s (readyFrom ready i (k + 1)) = some u := by
  rw [run_readyFrom_add, hrun, Option.bind_some]
  exact run_readyFrom.mpr ⟨u, hstep, rfl⟩

/-- What is left behind the first `k` bytes. -/
theorem Passes.rest_eq (hbs : 0 < pmsg.bs) {stream : Bytes} {k : ℕ} {s : Relay DB}
    (h : Passes tofd (.start srv pmsg cofd tofd stream) s (stream.take k)) :
    s.rest = stream.drop k := by
  have hsplit := h.rest
  rw [start_relay srv pmsg cofd tofd stream hbs] at hsplit
  exact (List.append_cancel_left ((List.take_append_drop k stream).trans hsplit)).symm

/-- The full buffers, one in a round; the last of them leads to the plain `recv`. -/
theorem full_buffers (sql : Sqlite DB) (srv : Server DB) (cofd tofd : ℤ) (b : Behaviour)
    (hbs : 0 < pmsg.bs) (j : ℕ) (hj : (100 * j : ℕ) ≤ pmsg.bs) (hstream : 100 * j ≤ b.stream.length) :
    ∃ s, (relayMachine sql cofd b.ending).run (.start srv pmsg cofd tofd b.stream)
        (readyFrom b.ready 0 j) = some s ∧
      Passes tofd (.start srv pmsg cofd tofd b.stream) s (b.stream.take (100 * j)) ∧
      s.pc = if j = 0 ∨ (100 * j + 100 : ℕ) ≤ pmsg.bs then .relay pmsg tofd (pmsg.bs - (100 * j : ℕ))
        else .relayRest pmsg tofd (pmsg.bs - (100 * j : ℕ)) := by
  have hstart := start_relay srv pmsg cofd tofd b.stream hbs
  induction j with
  | zero =>
    refine ⟨_, rfl, by simpa using Passes.refl tofd _, ?_⟩
    rw [if_pos (.inl rfl), hstart]
    simp
  | succ j ih =>
    obtain ⟨s, hrun, hpass, hpc⟩ := ih (by omega) (by omega)
    rw [if_pos (.inr (by omega))] at hpc
    obtain ⟨t, hstep, hnext, htpc⟩ := relayStep_first sql cofd b.ending hpc (b.ready (0 + j))
    have hrest := hpass.rest_eq hbs
    have hlen : (s.rest.take RECVBUF_SIZE).length = 100 := by
      rw [hrest, List.length_take, List.length_drop]
      simp only [RECVBUF_SIZE]
      omega
    have htake : b.stream.take (100 * (j + 1)) = b.stream.take (100 * j) ++ s.rest.take RECVBUF_SIZE := by
      rw [hrest, mul_add, List.take_add]
      rfl
    refine ⟨t, run_readyFrom_succ hrun hstep, ?_, ?_⟩
    · rw [htake]
      exact hpass.trans hnext
    · have hn : pmsg.bs - (100 * j : ℕ) - ((100 : ℕ) : ℤ) = pmsg.bs - (100 * (j + 1) : ℕ) := by
        push_cast
        ring
      rw [htpc, hlen, hn]
      by_cases hmore : ((100 * (j + 1) + 100 : ℕ) : ℤ) ≤ pmsg.bs
      · rw [if_pos (Or.inr hmore), testPc_of_gt hbs.le (by omega)]
      · have hlast : ¬ (j + 1 = 0 ∨ ((100 * (j + 1) + 100 : ℕ) : ℤ) ≤ pmsg.bs) := by
          rintro (hzero | hmore')
          · exact absurd hzero (by omega)
          · exact hmore hmore'
        rw [if_neg hlast, testPc_of_le hbs.le (by omega)]

/-- The block is sent and the connection closed. -/
theorem relayedRight_of_whole (hbs : 0 < pmsg.bs) (hstream : (b.stream.length : ℤ) = pmsg.bs)
    (hend : b.ending = .eof) : RelayedRight sql srv pmsg cofd tofd b := by
  have hne : b.stream ≠ [] := List.length_pos_iff.mp (by omega)
  have hstart := start_relay srv pmsg cofd tofd b.stream hbs
  have hwhole : Relay.Whole pmsg tofd (Relay.start srv pmsg cofd tofd b.stream) := by
    rw [hstart]
    exact ⟨hstream.symm, .inl ⟨rfl, hne⟩⟩
  obtain ⟨n, -, t, hrun, hpc, hpass, -⟩ := whole_run sql cofd hbs.le b.ready hwhole 0
  rw [← hend] at hrun
  have htake : b.stream.take pmsg.bs.toNat = b.stream := List.take_of_length_le (by omega)
  refine relayedRight_of_passes hrun hbs hpc ?_
  rw [htake]
  rwa [hstart] at hpass ⊢

/-- Behind the last full buffer `send_file` asks for the `r` bytes that remain. -/
theorem last_recv (sql : Sqlite DB) (srv : Server DB) (cofd tofd : ℤ) (b : Behaviour) {q r : ℕ}
    (hq : 0 < q) (hr : r < 100) (hbs : pmsg.bs = 100 * q + r)
    (hstream : 100 * q + r ≤ b.stream.length) :
    ∃ s, (relayMachine sql cofd b.ending).run (.start srv pmsg cofd tofd b.stream)
        (readyFrom b.ready 0 q) = some s ∧
      Passes tofd (.start srv pmsg cofd tofd b.stream) s (b.stream.take (100 * q)) ∧
      s.pc = .relayRest pmsg tofd r ∧ s.rest = b.stream.drop (100 * q) ∧
      s.rest.length = b.stream.length - 100 * q := by
  have hpos : 0 < pmsg.bs := by omega
  obtain ⟨s, hrun, hpass, hpc⟩ :=
    full_buffers sql srv cofd tofd b hpos q (by omega) (by omega)
  have hrest := hpass.rest_eq hpos
  rw [if_neg (by omega), show pmsg.bs - (100 * q : ℕ) = r by omega] at hpc
  exact ⟨s, hrun, hpass, hpc, hrest, by rw [hrest, List.length_drop]⟩

/-- The plain `recv` behind them takes what is there of the `r` bytes. -/
theorem rest_recv (sql : Sqlite DB) (srv : Server DB) (cofd tofd : ℤ) (b : Behaviour) {q r : ℕ}
    (hq : 0 < q) (hr : r < 100) (hbs : pmsg.bs = 100 * q + r)
    (hstream : 100 * q + r ≤ b.stream.length) (hmore : 100 * q < b.stream.length) :
    ∃ t, (relayMachine sql cofd b.ending).run (.start srv pmsg cofd tofd b.stream)
        (readyFrom b.ready 0 (q + 1)) = some t ∧
      Passes tofd (.start srv pmsg cofd tofd b.stream) t
        (b.stream.take (100 * q + min r (b.ready q))) ∧
      t.pc = loopPc pmsg tofd (r - min r (b.ready q) : ℕ) ∧
      t.rest.length = b.stream.length - (100 * q + min r (b.ready q)) := by
  obtain ⟨s, hrun, hpass, hpc, hrest, hlen⟩ := last_recv sql srv cofd tofd b hq hr hbs hstream
  have hne : s.rest ≠ [] := List.length_pos_iff.mp (by omega)
  have hbuf : (RECVBUF_SIZE : ℤ) = 100 := rfl
  obtain ⟨t, hstep, hnext, htpc⟩ := relayStep_rest sql cofd hpc (by omega) (by omega) (.inl hne)
    (b.ready (0 + q))
  have hchunk : (s.rest.take (min r (b.ready q))).length = min r (b.ready q) := by
    rw [List.length_take]
    omega
  rw [Nat.zero_add, Int.toNat_natCast] at hnext htpc
  have hsplit := congrArg List.length hnext.rest
  rw [List.length_append, hchunk] at hsplit
  refine ⟨t, run_readyFrom_succ hrun hstep, ?_, ?_, by omega⟩
  · rw [List.take_add, ← hrest]
    exact hpass.trans hnext
  · rw [htpc, hchunk, Nat.cast_sub (min_le_left _ _)]

/-- The last plain `recv` returns the rest of the block. -/
theorem relayedRight_of_ready {q r : ℕ} (hq : 0 < q) (hr : r < 100) (hbs : pmsg.bs = 100 * q + r)
    (hstream : 100 * q + r ≤ b.stream.length) (hready : r ≤ (b.ready q : ℕ))
    (hmore : 100 * q < b.stream.length) : RelayedRight sql srv pmsg cofd tofd b := by
  obtain ⟨t, hrun, hpass, hpc, -⟩ := rest_recv sql srv cofd tofd b hq hr hbs hstream hmore
  rw [min_eq_left hready] at hpass hpc
  rw [Nat.sub_self, Nat.cast_zero, loopPc, if_neg (lt_irrefl 0)] at hpc
  refine relayedRight_of_passes hrun (by omega) hpc ?_
  rwa [show pmsg.bs.toNat = 100 * q + r by omega]

/-! ## Where it does not -/

theorem relayStep_of_cancelled {ending : Ending} {s : Relay DB} (h : s.pc = .cancelled)
    (ready : ℕ+) : relayStep sql cofd ending s ready = none := by
  simp only [relayStep, h]

/-- A negative length stays in the record. -/
theorem run_negative {ending : Ending} {s t : Relay DB} {as : List ℕ+}
    (hs : ∃ l ∈ s.lengths, l < 0) (hrun : (relayMachine sql cofd ending).run s as = some t) :
    ∃ l ∈ t.lengths, l < 0 := by
  refine run_invariant (I := fun s : Relay DB => ∃ l ∈ s.lengths, l < 0) ?_ hs hrun
  rintro s a t ⟨l, hl, hneg⟩ hstep
  obtain ⟨ls, hls⟩ := relayStep_lengths hstep
  exact ⟨l, by rw [hls]; exact List.mem_append_left _ hl, hneg⟩

/-- A call that comes to a bad `recv` does not end well. -/
theorem not_relayedRight_of_bad {k : ℕ} {s : Relay DB}
    (hrun : (relayMachine sql cofd b.ending).run (.start srv pmsg cofd tofd b.stream)
      (readyFrom b.ready 0 k) = some s) (hbad : s.Bad b.ending) :
    ¬ RelayedRight sql srv pmsg cofd tofd b := by
  rintro ⟨n, t, hend, hpc, hlengths, -⟩
  have ⟨pmsg', tofd', size, hs, _⟩ := hbad
  rw [List.range_eq_range'] at hend
  change (relayMachine sql cofd b.ending).run _ (readyFrom b.ready 0 n) = some t at hend
  rcases le_or_gt n k with hle | hlt
  · -- the call has ended before it
    obtain ⟨d, rfl⟩ := Nat.exists_eq_add_of_le hle
    rw [run_readyFrom_add, hend, Option.bind_some] at hrun
    cases d with
    | zero =>
      obtain rfl := Option.some.inj hrun
      rw [hpc] at hs
      cases hs
    | succ d =>
      obtain ⟨u, hstep, -⟩ := run_readyFrom.mp hrun
      rw [relayStep_of_cancelled hpc] at hstep
      cases hstep
  · -- or has passed it
    obtain ⟨d, rfl⟩ := Nat.exists_eq_add_of_lt hlt
    rw [add_assoc, run_readyFrom_add, hrun, Option.bind_some] at hend
    obtain ⟨u, hstep, hrest⟩ := run_readyFrom.mp hend
    obtain ⟨l, hl, hneg⟩ := run_negative (relayStep_bad hbad hstep) hrest
    exact absurd (hlengths l hl) (not_le.mpr hneg)

/-- The stream has less than the block lacks. -/
def Relay.Short (pmsg : Msg) (tofd : ℤ) (s : Relay DB) : Prop :=
  ∃ n : ℤ, s.rest.length < n ∧
    (s.pc = .relay pmsg tofd n ∨ s.pc = .relayRest pmsg tofd n ∧ n ≤ RECVBUF_SIZE)

/-- A plain `recv` that fails makes `remain_size` greater. -/
theorem relayStep_failed (sql : Sqlite DB) (cofd : ℤ) {s : Relay DB} {n : ℤ}
    (hpc : s.pc = .relayRest pmsg tofd n) (hrest : s.rest = []) (ready : ℕ+) :
    ∃ t, relayStep sql cofd .failing s ready = some t ∧ t.rest = [] ∧
      t.pc = loopPc pmsg tofd (n + 1) := by
  have hstep : threadReadPc sql s.srv cofd (.relayRest pmsg tofd n) .dataFailed =
      some (relayLoop s.srv cofd pmsg tofd (n + 1)) := rfl
  have hrecv : recvPlain .failing s.rest n ready = (.dataFailed, []) := by
    simp only [recvPlain, hrest, if_true]
    rfl
  simp only [relayStep, hpc, hrecv, hstep, Option.map_some]
  exact ⟨_, rfl, rfl, (relayLoop_spec s.srv cofd pmsg tofd (n + 1)).1⟩

theorem Passes.short {s t : Relay DB} {chunk : Bytes} {n : ℤ}
    (h : Passes tofd s t chunk) (hn : s.rest.length < n) : t.rest.length < n - chunk.length := by
  rw [h.rest, List.length_append] at hn
  omega

theorem short_step {ending : Ending} (hbs : 0 ≤ pmsg.bs) (s : Relay DB) (ready : ℕ+) (t : Relay DB)
    (h : s.Short pmsg tofd) (hstep : relayStep sql cofd ending s ready = some t) :
    t.Short pmsg tofd := by
  obtain ⟨n, hn, hpc | ⟨hpc, hle⟩⟩ := h
  · obtain ⟨t', hstep', hpass, htpc⟩ := relayStep_first sql cofd ending hpc ready
    obtain rfl := Option.some.inj (hstep.symm.trans hstep')
    have hshort := hpass.short hn
    have herr := Int.emod_lt_of_pos pmsg.bs (show (0 : ℤ) < 100 by decide)
    have hbuf : (RECVBUF_SIZE : ℤ) = 100 := rfl
    refine ⟨_, hshort, ?_⟩
    rcases le_or_gt (n - (s.rest.take RECVBUF_SIZE).length) (pmsg.bs % 100) with hle | hgt
    · rw [testPc_of_le hbs hle] at htpc
      exact .inr ⟨htpc, by omega⟩
    · rw [testPc_of_gt hbs hgt] at htpc
      exact .inl htpc
  · by_cases hend : s.rest ≠ [] ∨ ending = .eof
    · obtain ⟨t', hstep', hpass, htpc⟩ := relayStep_rest sql cofd hpc (by omega) hle hend ready
      obtain rfl := Option.some.inj (hstep.symm.trans hstep')
      have hshort := hpass.short hn
      rw [loopPc, if_pos (by omega)] at htpc
      exact ⟨_, hshort, .inl htpc⟩
    · obtain ⟨hrest, hfail⟩ := not_or.mp hend
      obtain rfl : ending = .failing := by
        cases ending with
        | eof => exact absurd rfl hfail
        | failing => rfl
      obtain ⟨t', hstep', hnil, htpc⟩ := relayStep_failed sql cofd hpc (not_not.mp hrest) ready
      obtain rfl := Option.some.inj (hstep.symm.trans hstep')
      rw [loopPc, if_pos (by omega)] at htpc
      exact ⟨_, by rw [hnil, List.length_nil]; omega, .inl htpc⟩

/-- A stream that ends before its block keeps the loop running. -/
theorem not_relayedRight_of_short (hbs : 0 < pmsg.bs) (hstream : b.stream.length < pmsg.bs) :
    ¬ RelayedRight sql srv pmsg cofd tofd b := by
  rintro ⟨n, t, hrun, hpc, -⟩
  have hstart : Relay.Short pmsg tofd (.start srv pmsg cofd tofd b.stream) := by
    rw [start_relay srv pmsg cofd tofd b.stream hbs]
    exact ⟨pmsg.bs, hstream, .inl rfl⟩
  obtain ⟨n, -, ht | ⟨ht, -⟩⟩ := run_invariant (short_step hbs.le) hstart hrun
  · rw [hpc] at ht
    cases ht
  · rw [hpc] at ht
    cases ht

/-- A first `recv` that could end the block, on a stream that does not end well behind it. -/
theorem bad_of_last (sql : Sqlite DB) (cofd : ℤ) {s : Relay DB} {n : ℤ} (hbs : 0 ≤ pmsg.bs) (hpc : s.pc = .relay pmsg tofd n)
    (hn : n < 100) (hrest : n ≤ s.rest.length)
    (hend : n < s.rest.length ∨ b.ending = .failing) (ready : ℕ+) :
    ∃ t, relayStep sql cofd b.ending s ready = some t ∧ t.Bad b.ending := by
  obtain ⟨t, hstep, hpass, htpc⟩ := relayStep_first sql cofd b.ending hpc ready
  have hlen : (s.rest.take RECVBUF_SIZE).length = min 100 s.rest.length := List.length_take
  have herr := Int.emod_nonneg pmsg.bs (show (100 : ℤ) ≠ 0 by decide)
  rw [hlen, testPc_of_le hbs (by omega)] at htpc
  refine ⟨t, hstep, pmsg, tofd, _, htpc, ?_⟩
  by_cases hneg : n - ((min 100 s.rest.length : ℕ) : ℤ) < 0
  · exact .inl hneg
  · have hsplit := congrArg List.length hpass.rest
    rw [List.length_append, hlen] at hsplit
    exact .inr ⟨List.length_eq_zero_iff.mp (by omega), hend.resolve_left (by omega)⟩

/-- Nothing is there behind the block, and `recv` fails. -/
theorem not_relayedRight_of_exact {q : ℕ} (hq : 0 < q) (hbs : pmsg.bs = 100 * q)
    (hstream : b.stream.length = 100 * q) (hend : b.ending = .failing) :
    ¬ RelayedRight sql srv pmsg cofd tofd b := by
  obtain ⟨s, hrun, -, hpc, -, hlen⟩ :=
    last_recv (r := 0) sql srv cofd tofd b hq (by decide) (by simpa using hbs) hstream.ge
  exact not_relayedRight_of_bad hrun
    ⟨pmsg, tofd, _, hpc, .inr ⟨List.length_eq_zero_iff.mp (by omega), hend⟩⟩

/-- The rest of the block is not there at once. -/
theorem not_relayedRight_of_unready {q r : ℕ} (hq : 0 < q) (hr : r < 100)
    (hbs : pmsg.bs = 100 * q + r) (hstream : 100 * q + r ≤ b.stream.length)
    (hready : (b.ready q : ℕ) < r)
    (hend : 100 * q + r < b.stream.length ∨ b.ending = .failing) :
    ¬ RelayedRight sql srv pmsg cofd tofd b := by
  obtain ⟨t, hrun, -, hpc, hrest⟩ := rest_recv sql srv cofd tofd b hq hr hbs hstream (by omega)
  rw [min_eq_right hready.le] at hpc hrest
  rw [loopPc, if_pos (by omega)] at hpc
  obtain ⟨u, hstep, hbad⟩ := bad_of_last sql cofd (by omega) hpc (by omega) (by omega)
    (hend.imp_left fun hmore => by omega) (b.ready (0 + (q + 1)))
  exact not_relayedRight_of_bad (run_readyFrom_succ hrun hstep) hbad

/-- A block of less than a buffer, when the first `recv` does not end it. -/
theorem not_relayedRight_of_small (hbs : 0 < pmsg.bs) (hsmall : pmsg.bs < 100)
    (hstream : pmsg.bs ≤ b.stream.length)
    (hend : pmsg.bs < b.stream.length ∨ b.ending = .failing) :
    ¬ RelayedRight sql srv pmsg cofd tofd b := by
  have hstart := start_relay srv pmsg cofd tofd b.stream hbs
  have hpc : (Relay.start srv pmsg cofd tofd b.stream).pc = .relay pmsg tofd pmsg.bs := by
    rw [hstart]
  obtain ⟨t, hstep, hbad⟩ := bad_of_last sql cofd hbs.le hpc hsmall
    (by rw [hstart]; exact hstream) (by rw [hstart]; exact hend) (b.ready (0 + 0))
  exact not_relayedRight_of_bad (run_readyFrom_succ rfl hstep) hbad

theorem suits_iff {q r : ℕ} {bs : ℤ} (hq : 0 < q) (hr : r < 100) (hbs : bs = 100 * q + r) :
    b.Suits bs ↔ (b.stream.length : ℤ) = bs ∧ b.ending = .eof ∨
      bs ≤ b.stream.length ∧ (r = 0 ∧ bs < b.stream.length ∨ 0 < r ∧ r ≤ (b.ready q : ℕ)) := by
  have hbuf : (RECVBUF_SIZE : ℤ) = 100 := rfl
  have hmod : bs % RECVBUF_SIZE = r := by
    rw [hbuf]
    omega
  have hdiv : (bs / RECVBUF_SIZE).toNat = q := by
    rw [hbuf]
    omega
  rw [Behaviour.Suits, hmod, hdiv, hbuf]
  refine or_congr_right ?_
  split_ifs <;> omega

/-- The relay of a block, on every stream: it ends with the received bytes of the block written and
no negative length used exactly where `Suits` holds. -/
theorem relay_right_iff (sql : Sqlite DB) (srv : Server DB) (pmsg : Msg) (cofd tofd : ℤ)
    (b : Behaviour) (hbs : 0 < pmsg.bs) :
    RelayedRight sql srv pmsg cofd tofd b ↔ b.Suits pmsg.bs := by
  have hfail (h : ¬ b.ending = .eof) : b.ending = .failing := by
    cases hb : b.ending with
    | eof => exact absurd hb h
    | failing => rfl
  by_cases hwhole : (b.stream.length : ℤ) = pmsg.bs ∧ b.ending = .eof
  · exact iff_of_true (relayedRight_of_whole hbs hwhole.1 hwhole.2) (.inl hwhole)
  have hend (h : pmsg.bs ≤ b.stream.length) : pmsg.bs < b.stream.length ∨ b.ending = .failing := by
    rcases h.lt_or_eq with hlt | heq
    · exact .inl hlt
    · exact .inr (hfail fun heof => hwhole ⟨heq.symm, heof⟩)
  rcases lt_or_ge (b.stream.length : ℤ) pmsg.bs with hshort | hlong
  · refine iff_of_false (not_relayedRight_of_short hbs hshort) fun hsuits => ?_
    rcases hsuits with h | ⟨-, h, -⟩
    · exact hwhole h
    · exact absurd h (not_le.mpr hshort)
  rcases lt_or_ge pmsg.bs 100 with hsmall | hfull
  · refine iff_of_false (not_relayedRight_of_small hbs hsmall hlong (hend hlong)) fun hsuits => ?_
    rcases hsuits with h | ⟨h, -⟩
    · exact hwhole h
    · exact absurd h (not_le.mpr hsmall)
  obtain ⟨q, r, hq, hr, heq⟩ : ∃ q r : ℕ, 0 < q ∧ r < 100 ∧ pmsg.bs = 100 * q + r :=
    ⟨(pmsg.bs / 100).toNat, (pmsg.bs % 100).toNat, by omega, by omega, by omega⟩
  rw [suits_iff hq hr heq, or_iff_right hwhole]
  rcases Nat.eq_zero_or_pos r with rfl | hpos
  · by_cases hmore : pmsg.bs < b.stream.length
    · exact iff_of_true
        (relayedRight_of_ready hq hr heq (by omega) (Nat.zero_le _) (by omega))
        ⟨hlong, .inl ⟨rfl, hmore⟩⟩
    · refine iff_of_false (not_relayedRight_of_exact hq (by simpa using heq) (by omega)
        ((hend hlong).resolve_left hmore)) fun hsuits => ?_
      omega
  · rcases le_or_gt r (b.ready q) with hready | hunready
    · exact iff_of_true (relayedRight_of_ready hq hr heq (by omega) hready (by omega))
        ⟨hlong, .inr ⟨hpos, hready⟩⟩
    · refine iff_of_false (not_relayedRight_of_unready hq hr heq (by omega) hunready
        ((hend hlong).imp_left fun hmore => by omega)) fun hsuits => ?_
      omega

/-- Three bytes for a block of three. -/
theorem relay_right_of_three :
    RelayedRight Sqlite.silent (Server.start ()) { Msg.zero with bs := 3 } 7 9
      ⟨[1, 2, 3], .eof, fun _ => 1⟩ :=
  (relay_right_iff Sqlite.silent (Server.start ()) { Msg.zero with bs := 3 } 7 9
    ⟨[1, 2, 3], .eof, fun _ => 1⟩ (by decide)).mpr (by decide)

/-- The sender is gone behind the first byte of a block of three. -/
theorem relay_of_lost_sender :
    ¬ RelayedRight Sqlite.silent (Server.start ()) { Msg.zero with bs := 3 } 7 9
      ⟨[1], .eof, fun _ => 1⟩ :=
  not_relayedRight_of_short (by decide) (by decide)

end LinuxCat.ServerModel
