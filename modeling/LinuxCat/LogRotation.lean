import LinuxCat.ByteLayouts
import LinuxCat.WaitQueues
import Mathlib.Logic.Function.Basic

/-! # Three log files in turn

A file is left when it has grown to the limit, and the next one is truncated when it had been left
before. What the files hold of a run are its latest records. -/
namespace LinuxCat.LogFiles
open ByteLayouts

def MAX_LOG_FILE_NUM : ℕ := 3

instance : NeZero MAX_LOG_FILE_NUM := ⟨by decide⟩

def PRINT_LOG_TO_TERM : ℕ := 1
def PRINT_LOG_TO_FILE : ℕ := 1

/-- The globals of the log, and the files by their numbers; none is a file that is not there. -/
structure Log where
  logFileNo : Fin MAX_LOG_FILE_NUM
  printLogPlaceFlag : ℕ
  logFileSize : ℕ
  logInitFlag : ℕ
  pFile : Option (Fin MAX_LOG_FILE_NUM)
  files : Fin MAX_LOG_FILE_NUM → Option Bytes

def Log.start (files : Fin MAX_LOG_FILE_NUM → Option Bytes) : Log where
  logFileNo := 0
  printLogPlaceFlag := 0
  logFileSize := 0
  logInitFlag := 0
  pFile := none
  files := files

def logSetPrintLogPlaceFlag (s : Log) (flag : ℕ) : Log := { s with printLogPlaceFlag := flag }

/-- `LOG_Init` with a name; the names of the three files are left out. -/
def logInit (s : Log) (ulFileSize : ℕ) : Log × ℤ :=
  if ulFileSize = 0 then (s, -1)
  else if s.printLogPlaceFlag ≠ PRINT_LOG_TO_FILE ∨ s.logInitFlag ≠ 0 then (s, 0)
  else ({ s with logInitFlag := 1, logFileSize := ulFileSize }, 0)

/-- The size of a file in an `int`. -/
def getFileSize (content : Bytes) : ℤ := Int.bmod content.length (2 ^ 32)

def logOpenLogFile (s : Log) : Log :=
  if s.pFile ≠ none then s
  else
    let len : ℤ :=
      match s.files s.logFileNo with
      | none => 0
      | some content => getFileSize content
    if len < 0 then s
    -- opened with "a", or else with "w"
    else if 0 < len ∧ len < s.logFileSize then { s with pFile := some s.logFileNo }
    else
      { s with
        pFile := some s.logFileNo
        files := Function.update s.files s.logFileNo (some []) }

/-- `LOG_PrintLog` behind its first `snprintf`. -/
def logPrintLog (s : Log) (ucLogInfo : Bytes) : Log :=
  if s.printLogPlaceFlag = PRINT_LOG_TO_TERM then s
  else
    let s := logOpenLogFile s
    match s.pFile with
    | none => s
    | some i =>
      let content := (s.files i).getD [] ++ ucLogInfo
      let s := { s with files := Function.update s.files i (some content) }
      if s.logFileSize ≤ content.length then
        -- the numbers go round
        { s with pFile := none, logFileNo := s.logFileNo + 1 }
      else s

/-- `LOG_Init` only takes a limit while the log goes to its files, for which the flag has the value
that `LOG_PrintLog` takes for the terminal. -/
def logRun (initial : Fin MAX_LOG_FILE_NUM → Option Bytes) (limit flag : ℕ) (records : List Bytes) :
    Log :=
  let s := logSetPrintLogPlaceFlag (.start initial) PRINT_LOG_TO_FILE
  records.foldl logPrintLog (logSetPrintLogPlaceFlag (logInit s limit).1 flag)

/-! ## What is to hold -/

/-- One use of a file: what was left in it, and the records of this use. -/
structure Turn where
  leftover : Bytes
  records : List Bytes
  deriving DecidableEq, Repr

def Turn.content (turn : Turn) : Bytes := turn.leftover ++ turn.records.flatten

def Turn.add (turn : Turn) (r : Bytes) : Turn := { turn with records := turn.records ++ [r] }

/-- What a file from before the run keeps when it is opened. -/
def kept (limit : ℕ) : Option Bytes → Bytes
  | none => []
  | some content => if content.length < limit then content else []

/-- Grown to the limit by its last record. -/
def Filled (limit : ℕ) (turn : Turn) : Prop :=
  limit ≤ turn.content.length ∧ turn.content.length < limit + 1022

/-- The file of a turn. -/
def fileOf (j : ℕ) : Fin MAX_LOG_FILE_NUM := Fin.ofNat MAX_LOG_FILE_NUM j

/-- The turns of a run: those whose file was closed, and the one whose file is open. The files of
the last three are as they left them. -/
structure Turns (limit : ℕ) (initial : Fin MAX_LOG_FILE_NUM → Option Bytes) (s : Log)
    (closed opened : List Turn) : Prop where
  files : ∀ (j : ℕ) turn, (closed ++ opened)[j]? = some turn →
    (closed ++ opened).length ≤ j + MAX_LOG_FILE_NUM → s.files (fileOf j) = some turn.content
  unused : ∀ i : Fin MAX_LOG_FILE_NUM, (closed ++ opened).length ≤ i → s.files i = initial i
  leftover : ∀ (j : ℕ) turn, (closed ++ opened)[j]? = some turn →
    turn.leftover = if j < MAX_LOG_FILE_NUM then kept limit (initial (fileOf j)) else []
  filled : ∀ turn ∈ closed, Filled limit turn
  number : s.logFileNo = fileOf closed.length
  current : (opened = [] ∧ s.pFile = none) ∨
    ∃ turn, opened = [turn] ∧ s.pFile = some s.logFileNo ∧ turn.content.length < limit
  size : s.logFileSize = limit
  flag : s.printLogPlaceFlag ≠ PRINT_LOG_TO_TERM

/-- The turns whose files are there. -/
def held (turns : List Turn) : List Turn := turns.drop (turns.length - MAX_LOG_FILE_NUM)

/-- What the files hold of the records, oldest first. -/
def heldRecords (turns : List Turn) : List Bytes := (held turns).flatMap Turn.records

/-- The files hold the latest records, and of these at least those of the last two files that were
filled. -/
structure KeepsNewest (records : List Bytes) (closed opened : List Turn) : Prop where
  sequence : (closed ++ opened).flatMap Turn.records = records
  suffix : heldRecords (closed ++ opened) <:+ records
  latest : (heldRecords (closed ++ opened)).getLast? = records.getLast?
  recent : ((closed.drop (closed.length - 2)).flatMap Turn.records).length ≤
    (heldRecords (closed ++ opened)).length

/-! ## One record -/

section

variable {limit : ℕ} {initial : Fin MAX_LOG_FILE_NUM → Option Bytes} {s : Log}
  {closed opened : List Turn} {turn : Turn} {r : Bytes}

theorem val_fileOf (j : ℕ) : (fileOf j : ℕ) = j % 3 := rfl

theorem fileOf_succ (j : ℕ) : fileOf j + 1 = fileOf (j + 1) := by
  apply Fin.ext
  rw [Fin.val_add, val_fileOf, val_fileOf, show ((1 : Fin MAX_LOG_FILE_NUM) : ℕ) = 1 from rfl]
  simp only [MAX_LOG_FILE_NUM]
  omega

/-- Three turns in a row have different files. -/
theorem fileOf_ne {j k : ℕ} (hlt : j < k) (hk : k < j + 3) : fileOf j ≠ fileOf k := by
  intro h
  have hval := congrArg Fin.val h
  rw [val_fileOf, val_fileOf] at hval
  omega

theorem fileOf_add_three (j : ℕ) : fileOf (j + 3) = fileOf j := by
  apply Fin.ext
  rw [val_fileOf, val_fileOf]
  omega

theorem fileOf_val (i : Fin MAX_LOG_FILE_NUM) : fileOf i = i :=
  Fin.ext (Nat.mod_eq_of_lt i.isLt)

theorem getFileSize_eq {content : Bytes} (h : content.length < 2 ^ 31) :
    getFileSize content = content.length := by
  apply Int.bmod_eq_of_le <;> omega

/-- A file that is opened keeps what it has, or nothing. -/
theorem logOpenLogFile_eq (hnone : s.pFile = none) (hsize : s.logFileSize = limit)
    (hsmall : ∀ content, s.files s.logFileNo = some content → content.length < 2 ^ 31) :
    logOpenLogFile s = { s with
      pFile := some s.logFileNo
      files := Function.update s.files s.logFileNo
        (some (kept limit (s.files s.logFileNo))) } := by
  subst hsize
  rw [logOpenLogFile, if_neg (by simp [hnone])]
  cases hfile : s.files s.logFileNo with
  | none => simp [kept]
  | some content =>
    simp only [getFileSize_eq (hsmall content hfile)]
    rw [if_neg (by omega)]
    by_cases hlt : content.length < s.logFileSize
    · by_cases hpos : 0 < content.length
      · rw [if_pos (by omega), kept, if_pos hlt, ← hfile, Function.update_eq_self]
      · obtain rfl : content = [] := List.eq_nil_of_length_eq_zero (by omega)
        simp [kept]
    · rw [if_neg (by omega), kept, if_neg hlt]

theorem length_kept_lt (hpos : 0 < limit) (file : Option Bytes) :
    (kept limit file).length < limit := by
  cases file with
  | none => exact hpos
  | some content =>
    rw [kept]
    split_ifs with hlt
    · exact hlt
    · exact hpos

theorem kept_filled (h : Filled limit turn) : kept limit (some turn.content) = [] :=
  if_neg (Nat.not_lt.mpr h.1)

/-- The next file is one from before the run, or the one that was left the longest ago. -/
theorem Turns.next (h : Turns limit initial s closed []) :
    (closed.length < MAX_LOG_FILE_NUM ∧ s.files s.logFileNo = initial (fileOf closed.length)) ∨
      (MAX_LOG_FILE_NUM ≤ closed.length ∧
        ∃ turn, Filled limit turn ∧ s.files s.logFileNo = some turn.content) := by
  rw [h.number]
  rcases Nat.lt_or_ge closed.length MAX_LOG_FILE_NUM with hlt | hge
  · refine .inl ⟨hlt, h.unused _ ?_⟩
    rw [List.append_nil, val_fileOf]
    exact Nat.le_of_eq (Nat.mod_eq_of_lt hlt).symm
  · obtain ⟨k, hk⟩ := Nat.exists_eq_add_of_le hge
    have hk : closed.length = k + 3 := by
      simp only [MAX_LOG_FILE_NUM] at hk
      omega
    obtain ⟨turn, hturn⟩ : ∃ turn, closed[k]? = some turn :=
      ⟨_, List.getElem?_eq_getElem (by omega)⟩
    refine .inr ⟨hge, turn, h.filled turn (List.mem_of_getElem? hturn), ?_⟩
    rw [hk, fileOf_add_three]
    exact h.files k turn (by rwa [List.append_nil]) (by rw [List.append_nil, hk]; rfl)

/-- A record is written to the open file. -/
def Log.put (s : Log) (content : Bytes) : Log :=
  { s with files := Function.update s.files s.logFileNo (some content) }

/-- With its content in the file whose turn it is, a turn stands behind those that are closed. -/
theorem Turns.put (h : Turns limit initial s closed opened) {turn' : Turn}
    (hleft : turn'.leftover = if closed.length < MAX_LOG_FILE_NUM then
      kept limit (initial (fileOf closed.length)) else []) :
    (∀ (j : ℕ) turn, (closed ++ [turn'])[j]? = some turn →
        (closed ++ [turn']).length ≤ j + MAX_LOG_FILE_NUM →
        (s.put turn'.content).files (fileOf j) = some turn.content) ∧
      (∀ i : Fin MAX_LOG_FILE_NUM, (closed ++ [turn']).length ≤ i →
        (s.put turn'.content).files i = initial i) ∧
      ∀ (j : ℕ) turn, (closed ++ [turn'])[j]? = some turn →
        turn.leftover = if j < MAX_LOG_FILE_NUM then kept limit (initial (fileOf j)) else [] := by
  have hlen : (closed ++ opened).length ≤ closed.length + 1 := by
    rcases h.current with ⟨rfl, -⟩ | ⟨turn, rfl, -⟩ <;> simp
  -- the other turns are in the list already
  have hbefore {j : ℕ} {turn : Turn} (hj : closed[j]? = some turn) :
      (closed ++ opened)[j]? = some turn := by
    rw [List.getElem?_append_left (List.getElem?_eq_some_iff.mp hj).1]
    exact hj
  rw [List.length_append, List.length_singleton]
  refine ⟨fun j turn hj hlast => ?_, fun i hi => ?_, fun j turn hj => ?_⟩
  · obtain ⟨rfl, rfl⟩ | hj := WaitQueues.getElem?_concat_cases hj
    · rw [Log.put, h.number]
      exact Function.update_self _ _ _
    · have hne : fileOf j ≠ s.logFileNo := by
        rw [h.number]
        exact fileOf_ne (List.getElem?_eq_some_iff.mp hj).1
          (by simp only [MAX_LOG_FILE_NUM] at hlast; omega)
      exact (Function.update_of_ne hne _ _).trans (h.files j turn (hbefore hj) (hlen.trans hlast))
  · have hne : s.logFileNo ≠ fileOf i := by
      rw [h.number]
      exact fileOf_ne hi (by have := i.isLt; simp only [MAX_LOG_FILE_NUM] at this; omega)
    rw [fileOf_val] at hne
    exact (Function.update_of_ne hne.symm _ _).trans (h.unused i (hlen.trans hi))
  · obtain ⟨rfl, rfl⟩ | hj := WaitQueues.getElem?_concat_cases hj
    · exact hleft
    · exact h.leftover j turn (hbefore hj)

/-- Opening a file begins a turn. -/
theorem Turns.begin (h : Turns limit initial s closed []) (hpos : 0 < limit)
    (hlimit : limit < 2 ^ 30)
    (hinitial : ∀ i content, initial i = some content → content.length < 2 ^ 30) :
    ∃ leftover, Turns limit initial (logOpenLogFile s) closed [⟨leftover, []⟩] := by
  have hnone : s.pFile = none := by
    rcases h.current with ⟨-, hnone⟩ | ⟨turn, hturn, -⟩
    · exact hnone
    · cases hturn
  have hopen : logOpenLogFile s =
      { s.put (kept limit (s.files s.logFileNo)) with pFile := some s.logFileNo } := by
    refine logOpenLogFile_eq hnone h.size fun content hcontent => ?_
    rcases h.next with ⟨-, hfile⟩ | ⟨-, turn, hfilled, hfile⟩
    · have := hinitial _ _ (hfile.symm.trans hcontent)
      omega
    · obtain rfl := Option.some.inj (hfile.symm.trans hcontent)
      have := hfilled.2
      omega
  have hleft : kept limit (s.files s.logFileNo) =
      if closed.length < MAX_LOG_FILE_NUM then kept limit (initial (fileOf closed.length)) else [] := by
    rcases h.next with ⟨hlt, hfile⟩ | ⟨hge, turn, hfilled, hfile⟩
    · rw [if_pos hlt, hfile]
    · rw [if_neg (Nat.not_lt.mpr hge), hfile, kept_filled hfilled]
  have hcontent : (⟨kept limit (s.files s.logFileNo), []⟩ : Turn).content =
      kept limit (s.files s.logFileNo) := List.append_nil _
  obtain ⟨hfiles, hunused, hleftover⟩ :=
    h.put (show (⟨kept limit (s.files s.logFileNo), []⟩ : Turn).leftover = _ from hleft)
  rw [hcontent] at hfiles hunused
  refine ⟨kept limit (s.files s.logFileNo), ?_⟩
  rw [hopen]
  refine ⟨hfiles, hunused, hleftover, h.filled, h.number, .inr ⟨_, rfl, rfl, ?_⟩, h.size, h.flag⟩
  rw [hcontent]
  exact length_kept_lt hpos _

theorem content_add (turn : Turn) (r : Bytes) : (turn.add r).content = turn.content ++ r := by
  simp [Turn.content, Turn.add]

/-- The file stays open, or it is closed and the number goes on. -/
theorem Turns.write (h : Turns limit initial s closed [turn]) (hr : r.length ≤ 1022) :
    (limit ≤ (turn.content ++ r).length →
      Turns limit initial
        { s.put (turn.content ++ r) with pFile := none, logFileNo := s.logFileNo + 1 }
        (closed ++ [turn.add r]) []) ∧
      ((turn.content ++ r).length < limit →
        Turns limit initial (s.put (turn.content ++ r)) closed [turn.add r]) := by
  obtain ⟨hpFile, hlt⟩ : s.pFile = some s.logFileNo ∧ turn.content.length < limit := by
    rcases h.current with ⟨hnil, -⟩ | ⟨turn', hturn, hpFile, hlt⟩
    · cases hnil
    · cases hturn
      exact ⟨hpFile, hlt⟩
  have hleft := h.leftover closed.length turn List.getElem?_concat_length
  obtain ⟨hfiles, hunused, hleftover⟩ := h.put (show (turn.add r).leftover = _ from hleft)
  rw [← content_add]
  constructor
  · intro hfull
    have hfilled : Filled limit (turn.add r) := by
      refine ⟨hfull, ?_⟩
      rw [content_add, List.length_append]
      omega
    refine ⟨?_, ?_, ?_, WaitQueues.forall_mem_concat h.filled hfilled, ?_, .inl ⟨rfl, rfl⟩, h.size,
      h.flag⟩
    · simpa only [List.append_nil] using hfiles
    · simpa only [List.append_nil] using hunused
    · simpa only [List.append_nil] using hleftover
    · show s.logFileNo + 1 = _
      rw [h.number, fileOf_succ, List.length_append, List.length_singleton]
  · intro hopen
    exact ⟨hfiles, hunused, hleftover, h.filled, h.number, .inr ⟨_, rfl, hpFile, hopen⟩, h.size,
      h.flag⟩

/-- `LOG_PrintLog` on the file that `LOG_OpenLogFile` leaves open. -/
theorem logPrintLog_eq (hflag : s.printLogPlaceFlag ≠ PRINT_LOG_TO_TERM)
    (h : Turns limit initial (logOpenLogFile s) closed [turn]) :
    logPrintLog s r =
      if limit ≤ (turn.content ++ r).length then
        { (logOpenLogFile s).put (turn.content ++ r) with
          pFile := none
          logFileNo := (logOpenLogFile s).logFileNo + 1 }
      else (logOpenLogFile s).put (turn.content ++ r) := by
  have hpFile : (logOpenLogFile s).pFile = some (logOpenLogFile s).logFileNo := by
    rcases h.current with ⟨hnil, -⟩ | ⟨turn', hturn, hpFile, -⟩
    · cases hnil
    · exact hpFile
  have hfile : (logOpenLogFile s).files (logOpenLogFile s).logFileNo = some turn.content := by
    rw [h.number]
    refine h.files closed.length turn List.getElem?_concat_length ?_
    rw [List.length_append, List.length_singleton, MAX_LOG_FILE_NUM]
    omega
  have hsize := h.size
  rw [logPrintLog, if_neg hflag]
  simp only [hpFile, hfile, Option.getD_some, hsize, Log.put]

theorem turns_step (h : Turns limit initial s closed opened) (hpos : 0 < limit)
    (hlimit : limit < 2 ^ 30)
    (hinitial : ∀ i content, initial i = some content → content.length < 2 ^ 30)
    (hr : r.length ≤ 1022) :
    ∃ closed' opened', Turns limit initial (logPrintLog s r) closed' opened' ∧
      (closed' ++ opened').flatMap Turn.records = (closed ++ opened).flatMap Turn.records ++ [r] ∧
      ((∀ turn ∈ closed ++ opened, turn.records ≠ []) →
        ∀ turn ∈ closed' ++ opened', turn.records ≠ []) := by
  -- a file is open, or is opened for a turn without records
  obtain ⟨turn, hopen, hrecords, hold⟩ : ∃ turn,
      Turns limit initial (logOpenLogFile s) closed [turn] ∧
      turn.records = opened.flatMap Turn.records ∧
      (∀ turn ∈ closed, turn ∈ closed ++ opened) := by
    have hold : ∀ turn ∈ closed, turn ∈ closed ++ opened :=
      fun turn hmem => List.mem_append_left _ hmem
    rcases h.current with ⟨rfl, hnone⟩ | ⟨turn, rfl, hpFile, -⟩
    · obtain ⟨leftover, hbegin⟩ := h.begin hpos hlimit hinitial
      exact ⟨_, hbegin, rfl, hold⟩
    · refine ⟨turn, ?_, by simp, hold⟩
      rw [logOpenLogFile, if_pos (by simp [hpFile])]
      exact h
  obtain ⟨hfull, hroom⟩ := hopen.write hr
  have hflat : (closed ++ [turn.add r]).flatMap Turn.records =
      (closed ++ opened).flatMap Turn.records ++ [r] := by
    simp [Turn.add, hrecords]
  have hwhole (hne : ∀ turn ∈ closed ++ opened, turn.records ≠ []) :
      ∀ turn' ∈ closed ++ [turn.add r], turn'.records ≠ [] :=
    WaitQueues.forall_mem_concat (fun turn' hmem => hne turn' (hold turn' hmem)) (by simp [Turn.add])
  rw [logPrintLog_eq h.flag hopen]
  split_ifs with hlen
  · exact ⟨_, _, hfull hlen, by rw [List.append_nil, hflat], by rwa [List.append_nil]⟩
  · exact ⟨_, _, hroom (Nat.not_le.mp hlen), hflat, hwhole⟩

/-! ## Runs -/

theorem turns_run {records : List Bytes} (h : Turns limit initial s closed opened)
    (hpos : 0 < limit) (hlimit : limit < 2 ^ 30)
    (hinitial : ∀ i content, initial i = some content → content.length < 2 ^ 30)
    (hrecords : ∀ r ∈ records, r.length ≤ 1022)
    (hwhole : ∀ turn ∈ closed ++ opened, turn.records ≠ []) :
    ∃ closed' opened', Turns limit initial (records.foldl logPrintLog s) closed' opened' ∧
      (closed' ++ opened').flatMap Turn.records =
        (closed ++ opened).flatMap Turn.records ++ records ∧
      ∀ turn ∈ closed' ++ opened', turn.records ≠ [] := by
  induction records generalizing s closed opened with
  | nil => exact ⟨closed, opened, h, by rw [List.append_nil], hwhole⟩
  | cons r records ih =>
    obtain ⟨closed₁, opened₁, h₁, hflat₁, hwhole₁⟩ :=
      turns_step h hpos hlimit hinitial (hrecords r List.mem_cons_self)
    obtain ⟨closed', opened', h', hflat, hwhole'⟩ :=
      ih h₁ (fun r' hr' => hrecords r' (List.mem_cons_of_mem _ hr')) (hwhole₁ hwhole)
    exact ⟨closed', opened', h', by rw [hflat, hflat₁, List.append_assoc]; rfl, hwhole'⟩

theorem turns_start {flag : ℕ} (hpos : 0 < limit) (hflag : flag ≠ PRINT_LOG_TO_TERM) :
    Turns limit initial (logRun initial limit flag []) [] [] := by
  have hinit : (logInit (logSetPrintLogPlaceFlag (.start initial) PRINT_LOG_TO_FILE) limit).1 =
      { logSetPrintLogPlaceFlag (.start initial) PRINT_LOG_TO_FILE with
        logInitFlag := 1
        logFileSize := limit } := by
    rw [logInit, if_neg (by omega), if_neg (by simp [logSetPrintLogPlaceFlag, Log.start])]
  rw [logRun, hinit]
  exact ⟨fun j turn hj => by simp at hj, fun _ _ => rfl, fun j turn hj => by simp at hj,
    fun turn hmem => (nomatch hmem), rfl, .inl ⟨rfl, rfl⟩, rfl, hflag⟩

theorem length_flatMap_le_of_suffix {l₁ l₂ : List Turn} (h : l₁ <:+ l₂) :
    (l₁.flatMap Turn.records).length ≤ (l₂.flatMap Turn.records).length := by
  obtain ⟨l₀, rfl⟩ := h
  rw [List.flatMap_append, List.length_append]
  omega

/-- The turns whose files are there are the last of the run. -/
theorem keepsNewest_of_turns {records : List Bytes} (h : Turns limit initial s closed opened)
    (hflat : (closed ++ opened).flatMap Turn.records = records)
    (hwhole : ∀ turn ∈ closed ++ opened, turn.records ≠ []) :
    KeepsNewest records closed opened := by
  have hsplit : ((closed ++ opened).take ((closed ++ opened).length - MAX_LOG_FILE_NUM)).flatMap
      Turn.records ++ heldRecords (closed ++ opened) = records := by
    rw [heldRecords, held, ← List.flatMap_append, List.take_append_drop, hflat]
  refine ⟨hflat, ⟨_, hsplit⟩, ?_, ?_⟩
  · cases hheld : held (closed ++ opened) with
    | nil =>
      have hnil : closed ++ opened = [] := by
        have hlen := congrArg List.length hheld
        rw [held, List.length_drop, List.length_nil, MAX_LOG_FILE_NUM] at hlen
        exact List.eq_nil_of_length_eq_zero (by omega)
      rw [← hflat, heldRecords, hheld, hnil]
    | cons turn turns =>
      have hmem : turn ∈ closed ++ opened :=
        List.mem_of_mem_drop (i := (closed ++ opened).length - MAX_LOG_FILE_NUM)
          (hheld ▸ List.mem_cons_self : turn ∈ held (closed ++ opened))
      have hne : heldRecords (closed ++ opened) ≠ [] := by
        rw [heldRecords, hheld, List.flatMap_cons]
        exact List.append_ne_nil_of_left_ne_nil (hwhole turn hmem) _
      rw [← hsplit, List.getLast?_append, List.getLast?_eq_getLast_of_ne_nil hne]
      rfl
  · rcases h.current with ⟨rfl, -⟩ | ⟨turn, rfl, -⟩
    · rw [List.append_nil, heldRecords, held]
      exact length_flatMap_le_of_suffix (List.drop_suffix_drop_left _ (by
        simp only [MAX_LOG_FILE_NUM]; omega))
    · have hheld : held (closed ++ [turn]) = closed.drop (closed.length - 2) ++ [turn] := by
        rw [held, List.length_append, List.length_singleton,
          show closed.length + 1 - MAX_LOG_FILE_NUM = closed.length - 2 by
            simp only [MAX_LOG_FILE_NUM]; omega,
          List.drop_append_of_le_length (by omega)]
      rw [heldRecords, hheld, List.flatMap_append, List.length_append]
      omega

end

/-- After every record the files of the last three turns hold what was left in them and then whole
records, closed files have grown to the limit and an open one has not, and the records in the files
are the latest of the run. -/
theorem log_keeps_newest (initial : Fin MAX_LOG_FILE_NUM → Option Bytes) (limit flag : ℕ)
    (records : List Bytes) (hpos : 0 < limit) (hlimit : limit < 2 ^ 30)
    (hinitial : ∀ i content, initial i = some content → content.length < 2 ^ 30)
    (hflag : flag ≠ PRINT_LOG_TO_TERM) (hrecords : ∀ r ∈ records, 1 ≤ r.length ∧ r.length ≤ 1022) :
    ∃ closed opened, Turns limit initial (logRun initial limit flag records) closed opened ∧
      KeepsNewest records closed opened := by
  obtain ⟨closed, opened, h, hflat, hwhole⟩ := turns_run (turns_start hpos hflag)
    hpos hlimit hinitial (fun r hr => (hrecords r hr).2) (by simp)
  exact ⟨closed, opened, h, keepsNewest_of_turns h hflat hwhole⟩

/-- Five records, two bytes to a file, and a byte left in the first one. -/
theorem five_records_kept :
    ∃ closed opened,
      Turns 2 (fun i => if i = 0 then some [120] else none)
        (logRun (fun i => if i = 0 then some [120] else none) 2 0 [[97], [98, 99], [100], [101], [102]])
        closed opened ∧
      KeepsNewest [[97], [98, 99], [100], [101], [102]] closed opened := by
  refine log_keeps_newest _ 2 0 _ (by decide) (by decide) (fun i content hi => ?_) (by decide)
    (by decide)
  split_ifs at hi
  cases hi
  decide

end LinuxCat.LogFiles
