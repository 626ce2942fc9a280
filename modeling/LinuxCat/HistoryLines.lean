import LinuxCat.FileStreams
import LinuxCat.Messages

/-! # A history on the screen

Case 9 of the client writes the message to a file and prints it line by line. Its loops look at a
character that `fread` no longer changes at the end of the file. -/
namespace LinuxCat.HistoryLines
open ByteLayouts Messages FileStreams FileStreams.Stream

def newline : UInt8 := 10

/-- How case 9 ends: with these lines printed, or at an access outside `buf`. -/
inductive Ending
  | printed (lines : List Bytes)
  | outside
  | running
  deriving DecidableEq, Repr

def Ending.print (line : Bytes) : Ending → Ending
  | .printed lines => .printed (line :: lines)
  | e => e

def setByte (buf : CharArray 100) (i : ℕ) (b : UInt8) : CharArray 100 :=
  ⟨buf.bytes.set i b, by rw [List.length_set, buf.length_bytes]⟩

/-- The inner loop, with this much room left in `buf`; none when it runs out of room. -/
def readLine : ℕ → Stream UInt8 → CharArray 100 → UInt8 → Option (CharArray 100 × Stream UInt8)
  | 0, fp, buf, ch => if ch = newline then some (buf, fp) else none
  | room + 1, fp, buf, ch =>
    if ch = newline then some (buf, fp)
    else
      let r := fp.readInto ch
      readLine room r.2 (setByte buf (99 - room) ch) r.1

/-- The outer loop; `junk k` is what its variable `ch` holds when round `k` begins. -/
def printLines (junk : ℕ → UInt8) : ℕ → ℕ → Stream UInt8 → CharArray 100 → Ending
  | 0, _, _, _ => .running
  | fuel + 1, k, fp, buf =>
    if fp.atEnd then .printed []
    else
      let r := fp.readInto (junk k)
      match readLine 100 r.2 buf r.1 with
      | none => .outside
      | some (buf, fp) =>
        -- `%s` stops at a zero
        if 0 ∈ buf.bytes then (printLines junk fuel (k + 1) fp (.zero 100)).print buf.str
        else .outside

/-- Case 9 of the client's `thread_read`, with `buf` as the stack left it. -/
def case9 (junk : ℕ → UInt8) (fuel : ℕ) (pmsg : Msg) (buf : CharArray 100) : Ending :=
  -- the number of items written, which is compared with a number of bytes
  let ret := if pmsg.message.str = [] then 0 else 1
  if ret ≠ 1024 then printLines junk fuel 0 (.opened pmsg.message.str) buf else .printed []

/-- Case 9 ends, stays inside `buf` and prints the lines of the message. -/
def PrintsLines (junk : ℕ → UInt8) (pmsg : Msg) (buf : CharArray 100) : Prop :=
  ∃ fuel, case9 junk fuel pmsg buf = .printed (lines newline pmsg.message.str)

/-! ## The inner loop -/

theorem readLine_newline (room : ℕ) (fp : Stream UInt8) (buf : CharArray 100) :
    readLine room fp buf newline = some (buf, fp) := by
  cases room <;> rfl

/-- At the end of the file the character stays what it is. -/
theorem readLine_atEnd {ch : UInt8} (hch : ch ≠ newline) (room : ℕ) (buf : CharArray 100) :
    readLine room ⟨[], true⟩ buf ch = none := by
  induction room generalizing buf with
  | zero => rw [readLine, if_neg hch]
  | succ room ih =>
    rw [readLine, if_neg hch]
    exact ih _

/-- The loop ends at a newline of the file only. -/
theorem readLine_some {room : ℕ} {rest : Bytes} {buf buf' : CharArray 100} {ch : UInt8}
    {fp : Stream UInt8} (h : readLine room ⟨rest, false⟩ buf ch = some (buf', fp)) :
    ∃ l rest', ch :: rest = l ++ newline :: rest' ∧ newline ∉ l ∧ fp = ⟨rest', false⟩ := by
  induction room generalizing rest buf ch with
  | zero =>
    simp only [readLine] at h
    split_ifs at h with hch
    cases h
    exact ⟨[], rest, by rw [hch]; rfl, List.not_mem_nil, rfl⟩
  | succ room ih =>
    simp only [readLine] at h
    split_ifs at h with hch
    · cases h
      exact ⟨[], rest, by rw [hch]; rfl, List.not_mem_nil, rfl⟩
    · cases rest with
      | nil =>
        rw [readInto_nil, readLine_atEnd hch] at h
        cases h
      | cons b rest =>
        rw [readInto_cons] at h
        obtain ⟨l, rest', heq, hl, hfp⟩ := ih h
        refine ⟨ch :: l, rest', by rw [heq]; rfl, ?_, hfp⟩
        rintro (_ | ⟨_, hmem⟩)
        · exact hch rfl
        · exact hl hmem

/-! ## The outer loop -/

theorem print_eq_printed {e : Ending} {line : Bytes} {ls : List Bytes}
    (h : e.print line = .printed ls) : ∃ ls', e = .printed ls' ∧ ls = line :: ls' := by
  cases e with
  | printed ls' =>
    cases h
    exact ⟨ls', rfl, rfl⟩
  | outside => cases h
  | running => cases h

/-- When the loops end, one line more is printed than there are newlines in the file, and the last
byte of the file is one. -/
theorem printLines_printed {junk : ℕ → UInt8} {fuel k : ℕ} {rest : Bytes} {buf : CharArray 100}
    {ls : List Bytes} (h : printLines junk fuel k (.opened rest) buf = .printed ls) :
    ls.length = rest.count newline + 1 ∧ (rest = [] ∨ rest.getLast? = some newline) := by
  induction fuel generalizing k rest buf ls with
  | zero => cases h
  | succ fuel ih =>
    simp only [printLines, Stream.opened, Bool.false_eq_true, if_false] at h
    cases rest with
    | nil =>
      rw [readInto_nil] at h
      by_cases hjunk : junk k = newline
      · rw [hjunk, readLine_newline] at h
        simp only at h
        split_ifs at h
        obtain ⟨ls', hprinted, rfl⟩ := print_eq_printed h
        cases fuel with
        | zero => cases hprinted
        | succ fuel =>
          cases hprinted
          exact ⟨rfl, .inl rfl⟩
      · rw [readLine_atEnd hjunk] at h
        cases h
    | cons b rest =>
      rw [readInto_cons] at h
      simp only at h
      cases hread : readLine 100 ⟨rest, false⟩ buf b with
      | none =>
        rw [hread] at h
        cases h
      | some r =>
        obtain ⟨buf', fp⟩ := r
        obtain ⟨l, rest', heq, hl, rfl⟩ := readLine_some hread
        rw [hread] at h
        simp only at h
        split_ifs at h
        obtain ⟨ls', hprinted, rfl⟩ := print_eq_printed h
        obtain ⟨hlen, hend⟩ := ih hprinted
        have hcount : l.count newline = 0 := List.count_eq_zero.mpr hl
        refine ⟨?_, .inr ?_⟩
        · rw [heq, List.count_append, hcount, List.count_cons_self, List.length_cons, hlen]
          omega
        · rw [heq, List.getLast?_append]
          rcases hend with rfl | hlast
          · rfl
          · rw [List.getLast?_cons, hlast]
            rfl

/-- The outer loop takes one round more than the file has bytes, at most. -/
theorem printLines_stable {junk : ℕ → UInt8} {fuel k : ℕ} {rest : Bytes}
    (h : rest.length + 2 ≤ fuel) (buf : CharArray 100) (n : ℕ) :
    printLines junk (fuel + n) k (.opened rest) buf = printLines junk fuel k (.opened rest) buf := by
  induction fuel generalizing k rest buf with
  | zero => omega
  | succ fuel ih =>
    rw [show fuel + 1 + n = fuel + n + 1 by omega]
    simp only [printLines, Stream.opened]
    cases rest with
    | nil =>
      rw [readInto_nil]
      by_cases hjunk : junk k = newline
      · -- the flag is set, and the next round ends
        obtain ⟨m, rfl⟩ : ∃ m, fuel = m + 1 := ⟨fuel - 1, by omega⟩
        rw [show m + 1 + n = m + n + 1 by omega, hjunk, readLine_newline]
        rfl
      · rw [readLine_atEnd hjunk]
    | cons b rest =>
      rw [readInto_cons]
      cases hread : readLine 100 ⟨rest, false⟩ buf b with
      | none => rfl
      | some r =>
        obtain ⟨buf', fp⟩ := r
        obtain ⟨l, rest', heq, -, rfl⟩ := readLine_some hread
        have hlen := congrArg List.length heq
        simp only [List.length_cons, List.length_append] at hlen h
        simp only [show (⟨rest', false⟩ : Stream UInt8) = .opened rest' from rfl,
          @ih (k + 1) rest' (by omega)]

theorem case9_stable (junk : ℕ → UInt8) (pmsg : Msg) (buf : CharArray 100) (n : ℕ) :
    case9 junk (1026 + n) pmsg buf = case9 junk 1026 pmsg buf := by
  have hlen := pmsg.message.length_str_le
  simp only [case9, printLines_stable (show pmsg.message.str.length + 2 ≤ 1026 by omega)]

/-- The last round always prints a line that the message does not have, if there is a last round. -/
theorem history_never_printed (junk : ℕ → UInt8) (pmsg : Msg) (buf : CharArray 100) :
    ¬ PrintsLines junk pmsg buf := by
  rintro ⟨fuel, h⟩
  have hret : (if pmsg.message.str = [] then 0 else 1) ≠ 1024 := by split_ifs <;> decide
  rw [case9, if_pos hret] at h
  obtain ⟨hlen, hend⟩ := printLines_printed h
  rw [length_lines hend] at hlen
  omega

/-- No history yet, and the variables of the case are zeros: `ch` is never a newline. -/
theorem empty_history_leaves_buf : ¬ PrintsLines (fun _ => 0) Msg.zero (.zero 100) := by
  rintro ⟨fuel, h⟩
  have hstr : Msg.zero.message.str = [] := by decide
  rw [case9, hstr, if_pos (by decide)] at h
  cases fuel with
  | zero => cases h
  | succ fuel =>
    rw [printLines, if_neg (by simp [Stream.opened]), Stream.opened, readInto_nil] at h
    simp only [readLine_atEnd (show (0 : UInt8) ≠ newline by decide), reduceCtorEq] at h

/-! ## What is printed for whole lines -/

theorem bytes_setByte {s rest : Bytes} {b : UInt8} {buf : CharArray 100}
    (h : buf.bytes = s ++ rest) (hlt : s.length < 100) :
    (setByte buf s.length b).bytes = (s ++ [b]) ++ rest.drop 1 := by
  have hlen := buf.length_bytes
  rw [h, List.length_append] at hlen
  rw [setByte]
  simp only [h]
  cases rest with
  | nil => simp at hlen; omega
  | cons c rest => simp

/-- A round of the inner loop with room for its character. -/
theorem readLine_store {n : ℕ} {ch : UInt8} (hn : n < 100) (hch : ch ≠ newline)
    (fp : Stream UInt8) (buf : CharArray 100) :
    readLine (100 - n) fp buf ch =
      readLine (99 - n) (fp.readInto ch).2 (setByte buf n ch) (fp.readInto ch).1 := by
  have hroom : 100 - n = 99 - n + 1 := by omega
  have hplace : 99 - (99 - n) = n := by omega
  rw [hroom, readLine, if_neg hch, hplace]

/-- The inner loop puts the rest of a line behind what `buf` holds of it. -/
theorem readLine_line {l s rest left : Bytes} {ch : UInt8} {buf : CharArray 100}
    (hl : newline ∉ ch :: l) (hbuf : buf.bytes = s ++ left) (hlen : s.length + l.length < 100) :
    ∃ buf', readLine (100 - s.length) ⟨l ++ newline :: rest, false⟩ buf ch =
        some (buf', ⟨rest, false⟩) ∧ buf'.bytes = s ++ ch :: l ++ left.drop (l.length + 1) := by
  induction l generalizing s left ch buf with
  | nil =>
    have hch : ch ≠ newline := fun h => hl (h ▸ List.mem_cons_self)
    have hlt : s.length < 100 := by omega
    refine ⟨setByte buf s.length ch, ?_, by simpa using bytes_setByte hbuf hlt⟩
    rw [readLine_store hlt hch, List.nil_append, readInto_cons]
    exact readLine_newline _ _ _
  | cons c l ih =>
    have hch : ch ≠ newline := fun h => hl (h ▸ List.mem_cons_self)
    rw [List.length_cons] at hlen
    have hlt : s.length < 100 := by omega
    have hnext := ih (s := s ++ [ch]) (fun h => hl (List.mem_cons_of_mem _ h))
      (bytes_setByte hbuf hlt (b := ch)) (by rw [List.length_append, List.length_singleton]; omega)
    rw [List.length_append, List.length_singleton,
      show 100 - (s.length + 1) = 99 - s.length by omega] at hnext
    rw [readLine_store hlt hch, List.cons_append, readInto_cons]
    obtain ⟨buf', hread, hbytes⟩ := hnext
    refine ⟨buf', hread, ?_⟩
    rw [hbytes, List.drop_drop, List.length_cons]
    simp [Nat.add_comm]

/-- A line that fits with its terminator, read into an empty buffer. -/
theorem readLine_zero {l rest : Bytes} (hl : newline ∉ l) (hz : 0 ∉ l) (hlen : l.length < 100)
    (old : UInt8) :
    ∃ buf', readLine 100 ((Stream.opened (l ++ newline :: rest)).readInto old).2 (.zero 100)
        ((Stream.opened (l ++ newline :: rest)).readInto old).1 = some (buf', .opened rest) ∧
      buf'.str = l := by
  cases l with
  | nil => exact ⟨.zero 100, readLine_newline 100 _ _, by decide⟩
  | cons c l =>
    rw [List.length_cons] at hlen
    have hbuf : (CharArray.zero 100).bytes = [] ++ List.replicate 100 0 := rfl
    obtain ⟨buf', hread, hbytes⟩ := @readLine_line l [] rest _ c _ hl hbuf
      (by rw [List.length_nil]; omega)
    refine ⟨buf', hread, ?_⟩
    rw [CharArray.str, hbytes, List.nil_append, cstr_append_of_notMem hz, List.drop_replicate]
    have hnil : cstr (List.replicate (100 - (l.length + 1)) 0) = [] := by
      rw [cstr_eq_nil_iff]
      cases 100 - (l.length + 1) <;> simp [List.replicate_succ]
    rw [hnil, List.append_nil]

/-- Where `buf` is zeros, every line is whole and fits, and the variable of the last round happens
to hold a newline, the lines are printed and behind them an empty one. -/
theorem printLines_lines {junk : ℕ → UInt8} {ls : List Bytes}
    (hls : ∀ l ∈ ls, newline ∉ l ∧ 0 ∉ l ∧ l.length < 100) {k : ℕ}
    (hjunk : junk (k + ls.length) = newline) :
    printLines junk (ls.length + 2) k (.opened (ls.flatMap (fun l => l ++ [newline])))
        (.zero 100) = .printed (ls ++ [[]]) := by
  induction ls generalizing k with
  | nil =>
    have hzero : 0 ∈ (CharArray.zero 100).bytes := by decide
    have hstr : (CharArray.zero 100).str = [] := by decide
    rw [List.length_nil, Nat.add_zero] at hjunk
    rw [List.flatMap_nil, List.length_nil, printLines, if_neg (by simp [Stream.opened]),
      Stream.opened, readInto_nil]
    simp only [hjunk, readLine_newline, if_pos hzero, hstr]
    rfl
  | cons l ls ih =>
    obtain ⟨hnl, hz, hlen⟩ := hls l List.mem_cons_self
    have hrest := ih (k := k + 1) (fun l' hl' => hls l' (List.mem_cons_of_mem _ hl'))
      (by rw [← hjunk, List.length_cons]; congr 1; omega)
    obtain ⟨buf', hread, hstr⟩ :=
      @readLine_zero l (ls.flatMap (fun l => l ++ [newline])) hnl hz hlen (junk k)
    have hterm : 0 ∈ buf'.bytes := CharArray.zero_mem_bytes (by rw [hstr]; exact hlen)
    rw [List.flatMap_cons, List.append_assoc, List.singleton_append, List.length_cons,
      printLines, if_neg (by simp [Stream.opened])]
    simp only [hread, if_pos hterm, hstr]
    rw [show ls.length + 1 + 1 = ls.length + 2 from rfl, hrest]
    rfl

end LinuxCat.HistoryLines
