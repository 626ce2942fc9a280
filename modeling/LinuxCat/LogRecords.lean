import LinuxCat.LogRotation
import LinuxCat.ServerModel

/-! # What is logged, and where

`LOG_INFO` cuts a text to the buffer it has for the place the log goes to, `LOG_PrintLog` puts the
time and the type before it and cuts it again. `PRINT_LOG_TO_TERM` and `PRINT_LOG_TO_FILE` are one
number, so that a log for the file is printed. -/
namespace LinuxCat.LogFiles
open ByteLayouts
open ServerModel (text)

def LOG_DEBUG : UInt8 := 0
def LOG_ERROR : UInt8 := 1
def LOG_WARNING : UInt8 := 2
def LOG_ACTION : UInt8 := 3
def LOG_SYSTEM : UInt8 := 4

def STR_COMM_SIZE : ℕ := 128
def STR_MAX_SIZE : ℕ := 1024

/-- `strncpy(a, s, k)`: the text, filled up with zeros. -/
def strncpy {n : ℕ} (a : CharArray n) (s : Bytes) (k : ℕ) : CharArray n := a.memcpy (pad k s)

/-- The string that `snprintf(a, size, ...)` leaves of its output. -/
def snprintf (size : ℕ) (out : Bytes) : Bytes := out.take (size - 1)

/-- From `LOG_WARNING` on, no case ends with a `break`. -/
def logLogTypeToStr (ucType : UInt8) (typeString : CharArray STR_COMM_SIZE) :
    CharArray STR_COMM_SIZE :=
  let ulBufLen := STR_COMM_SIZE - 1
  if ucType = LOG_DEBUG then strncpy typeString (text "DEBUG") ulBufLen
  else if ucType = LOG_ERROR then strncpy typeString (text "ERROR") ulBufLen
  else
    let s := if ucType = LOG_WARNING then strncpy typeString (text "WARNING") ulBufLen
      else typeString
    let s := if ucType = LOG_WARNING ∨ ucType = LOG_ACTION then strncpy s (text "ACTION") ulBufLen
      else s
    let s := if ucType = LOG_WARNING ∨ ucType = LOG_ACTION ∨ ucType = LOG_SYSTEM then
        strncpy s (text "SYSTEM") ulBufLen
      else s
    strncpy s (text "UNKNOWN") ulBufLen

/-- The record that `LOG_PrintLog` makes at the time `now`. -/
def logRecord (now : Bytes) (ucType : UInt8) (info : Bytes) : Bytes :=
  let ucTime := snprintf (STR_COMM_SIZE - 1) now
  let ucLogTypeStr := logLogTypeToStr ucType (.zero STR_COMM_SIZE)
  snprintf (STR_MAX_SIZE - 1)
    (text "[" ++ ucTime ++ text "] [" ++ ucLogTypeStr.str ++ text "] " ++ info)

/-- The log with its other flag; `printed` is a history, the records on the terminal. -/
structure Logger where
  log : Log
  printDebugLogFlag : ℕ
  printed : List Bytes

def Logger.start (files : Fin MAX_LOG_FILE_NUM → Option Bytes) : Logger where
  log := .start files
  printDebugLogFlag := 0
  printed := []

/-- `LOG_PrintLog`. -/
def printLog (s : Logger) (now : Bytes) (ucType : UInt8) (info : Bytes) : Logger :=
  let record := logRecord now ucType info
  if s.log.printLogPlaceFlag = PRINT_LOG_TO_TERM then { s with printed := s.printed ++ [record] }
  else { s with log := logPrintLog s.log record }

/-- `LOG_INFO`, where `line` is its text with the file, the line and the function behind it. -/
def logInfo (s : Logger) (now : Bytes) (type : UInt8) (line : Bytes) : Logger :=
  if s.log.printLogPlaceFlag = PRINT_LOG_TO_FILE then
    if s.printDebugLogFlag = 0 ∧ type = LOG_DEBUG then s
    else printLog s now type (snprintf (STR_MAX_SIZE - 1) line)
  else printLog s now type (snprintf (STR_COMM_SIZE - 1) line)

/-- What the program calls of the log. -/
inductive Call
  | setPrintLogPlaceFlag (flag : ℕ)
  | setPrintDebugLogFlag (flag : ℕ)
  | init (ulFileSize : ℕ)
  | info (now : Bytes) (type : UInt8) (line : Bytes)
  | destroy

def Call.apply (s : Logger) : Call → Logger
  | .setPrintLogPlaceFlag flag => { s with log := logSetPrintLogPlaceFlag s.log flag }
  | .setPrintDebugLogFlag flag => { s with printDebugLogFlag := flag }
  | .init ulFileSize => { s with log := (logInit s.log ulFileSize).1 }
  | .info now type line => logInfo s now type line
  | .destroy => { s with log := { s.log with pFile := none } }

/-! ## The types -/

theorem str_strncpy {n k : ℕ} (a : CharArray n) {s : Bytes} (hs : s.length < k) (hk : k ≤ n)
    (hz : 0 ∉ s) : (strncpy a s k).str = s := by
  obtain ⟨j, hj⟩ := Nat.exists_eq_add_of_lt hs
  have hzeros : k - s.length = j + 1 := by omega
  rw [strncpy, CharArray.str, CharArray.bytes_memcpy _ (by rw [length_pad]; exact hk), pad,
    List.take_of_length_le hs.le, hzeros, List.replicate_succ, List.append_assoc,
    cstr_append_of_notMem hz, List.cons_append, cstr_cons, if_pos rfl, List.append_nil]

/-- What is left of the type. -/
def tag (ucType : UInt8) : Bytes :=
  if ucType = LOG_DEBUG then text "DEBUG"
  else if ucType = LOG_ERROR then text "ERROR"
  else text "UNKNOWN"

theorem str_logLogTypeToStr (ucType : UInt8) (a : CharArray STR_COMM_SIZE) :
    (logLogTypeToStr ucType a).str = tag ucType := by
  have hstr (b : CharArray STR_COMM_SIZE) {s : Bytes} (hs : s.length < STR_COMM_SIZE - 1)
      (hz : 0 ∉ s) : (strncpy b s (STR_COMM_SIZE - 1)).str = s :=
    str_strncpy b hs (by decide) hz
  unfold logLogTypeToStr tag
  dsimp only
  split_ifs <;> exact hstr _ (by decide +kernel) (by decide +kernel)

/-- A record as it is to be read: the time, the type and the text, up to 1022 bytes. -/
def tagged (now : Bytes) (ucType : UInt8) (info : Bytes) : Bytes :=
  (text "[" ++ now.take 126 ++ text "] [" ++ tag ucType ++ text "] " ++ info).take 1022

theorem logRecord_eq (now : Bytes) (ucType : UInt8) (info : Bytes) :
    logRecord now ucType info = tagged now ucType info := by
  rw [logRecord, str_logLogTypeToStr]
  rfl

/-- The first of two cuts to one length changes nothing. -/
theorem tagged_take (now : Bytes) (ucType : UInt8) (line : Bytes) :
    tagged now ucType (line.take 1022) = tagged now ucType line := by
  unfold tagged
  generalize text "[" ++ now.take 126 ++ text "] [" ++ tag ucType ++ text "] " = head
  rw [List.take_append, List.take_append, List.take_take, min_eq_left (by omega)]

/-! ## The place of the records -/

/-- What a call is to log where the flag is the number of both places. -/
def Call.printed (debug : ℕ) : Call → List Bytes
  | .info now type line => if debug = 0 ∧ type = LOG_DEBUG then [] else [tagged now type line]
  | _ => []

/-- The flag for `LOG_DEBUG` behind a call. -/
def Call.debug (debug : ℕ) : Call → ℕ
  | .setPrintDebugLogFlag flag => flag
  | _ => debug

/-- The same for a sequence of calls. -/
def printedOf (debug : ℕ) : List Call → List Bytes
  | [] => []
  | call :: calls => call.printed debug ++ printedOf (call.debug debug) calls

/-- What a call is to log anywhere else. -/
def Call.stored : Call → List Bytes
  | .info now type line => [tagged now type (line.take 126)]
  | _ => []

/-- The calls that do not end the log or move it. -/
def Call.stays : Call → Bool
  | .info .. | .setPrintDebugLogFlag _ => true
  | _ => false

/-- The calls that leave the log where `main` has put it. -/
def Call.keepsPlace : Call → Bool
  | .setPrintLogPlaceFlag flag => flag = PRINT_LOG_TO_FILE
  | _ => true

theorem logInit_place (s : Log) (size : ℕ) :
    (logInit s size).1.printLogPlaceFlag = s.printLogPlaceFlag ∧
      (logInit s size).1.files = s.files := by
  unfold logInit
  split_ifs <;> exact ⟨rfl, rfl⟩

/-- With the flag that `main` sets, every record is printed. -/
theorem apply_printed {s : Logger} (hplace : s.log.printLogPlaceFlag = PRINT_LOG_TO_FILE)
    {call : Call} (hcall : call.keepsPlace) :
    (call.apply s).log.printLogPlaceFlag = PRINT_LOG_TO_FILE ∧
      (call.apply s).log.files = s.log.files ∧
      (call.apply s).printed = s.printed ++ call.printed s.printDebugLogFlag ∧
      (call.apply s).printDebugLogFlag = call.debug s.printDebugLogFlag := by
  cases call with
  | setPrintLogPlaceFlag flag =>
    exact ⟨of_decide_eq_true hcall, rfl, (List.append_nil _).symm, rfl⟩
  | setPrintDebugLogFlag flag => exact ⟨hplace, rfl, (List.append_nil _).symm, rfl⟩
  | init size =>
    obtain ⟨hflag, hfiles⟩ := logInit_place s.log size
    exact ⟨hflag.trans hplace, hfiles, (List.append_nil _).symm, rfl⟩
  | info now type line =>
    have hterm : s.log.printLogPlaceFlag = PRINT_LOG_TO_TERM := hplace
    have hrecord : logRecord now type (snprintf (STR_MAX_SIZE - 1) line) = tagged now type line :=
      (logRecord_eq ..).trans (tagged_take ..)
    simp only [Call.apply, Call.printed, Call.debug, logInfo, if_pos hplace, printLog, if_pos hterm,
      hrecord]
    split_ifs
    · exact ⟨hplace, rfl, (List.append_nil _).symm, rfl⟩
    · exact ⟨hplace, rfl, rfl, rfl⟩
  | destroy => exact ⟨hplace, rfl, (List.append_nil _).symm, rfl⟩

/-- `main` sets the flag for the file, and from then on, whatever is called and logged, no file of
the log is created or written: every record that passes the flag for `LOG_DEBUG` is printed, in the
order of the calls. -/
theorem file_flag_prints {s : Logger} (hplace : s.log.printLogPlaceFlag = PRINT_LOG_TO_FILE)
    (calls : List Call) (hcalls : ∀ call ∈ calls, call.keepsPlace) :
    (calls.foldl Call.apply s).log.files = s.log.files ∧
      (calls.foldl Call.apply s).printed = s.printed ++ printedOf s.printDebugLogFlag calls := by
  induction calls generalizing s with
  | nil => exact ⟨rfl, (List.append_nil _).symm⟩
  | cons call calls ih =>
    obtain ⟨hplace', hfiles, hprinted, hdebug⟩ := apply_printed hplace (hcalls call List.mem_cons_self)
    obtain ⟨hfiles', hprinted'⟩ := ih hplace' fun c hc => hcalls c (List.mem_cons_of_mem _ hc)
    refine ⟨hfiles'.trans hfiles, ?_⟩
    rw [List.foldl_cons, hprinted', hprinted, hdebug, printedOf, List.append_assoc]

/-- The log as `main` of the server sets it up. -/
def mainLogger : Logger :=
  [Call.setPrintDebugLogFlag 1, .setPrintLogPlaceFlag PRINT_LOG_TO_FILE, .init 8000].foldl
    Call.apply (.start fun _ => none)

/-- A warning is printed as unknown. -/
theorem warning_printed :
    ([Call.info [48] LOG_WARNING (text "hi\n")].foldl Call.apply mainLogger).printed =
      [text "[0] [UNKNOWN] hi\n"] :=
  (file_flag_prints (s := mainLogger) rfl [.info [48] LOG_WARNING (text "hi\n")]
    (by simp [Call.keepsPlace])).2.trans
    (by decide +kernel)

/-- With any other flag, every record is put to a file. -/
theorem apply_stored {s : Logger} (hplace : s.log.printLogPlaceFlag ≠ PRINT_LOG_TO_TERM)
    {call : Call} (hcall : call.stays) :
    (call.apply s).log = call.stored.foldl logPrintLog s.log ∧ (call.apply s).printed = s.printed := by
  cases call with
  | setPrintDebugLogFlag flag => exact ⟨rfl, rfl⟩
  | info now type line =>
    have hfile : s.log.printLogPlaceFlag ≠ PRINT_LOG_TO_FILE := hplace
    have hinfo : logInfo s now type line =
        { s with log := logPrintLog s.log (logRecord now type (snprintf (STR_COMM_SIZE - 1) line)) } := by
      rw [logInfo, if_neg hfile, printLog, if_neg hplace]
    rw [Call.apply, hinfo, logRecord_eq]
    exact ⟨rfl, rfl⟩
  | _ => cases hcall

theorem run_stored {limit : ℕ} {initial : Fin MAX_LOG_FILE_NUM → Option Bytes} {s : Logger}
    {closed opened : List Turn} (h : Turns limit initial s.log closed opened) (hpos : 0 < limit)
    (hlimit : limit < 2 ^ 30)
    (hinitial : ∀ i content, initial i = some content → content.length < 2 ^ 30)
    (calls : List Call) (hcalls : ∀ call ∈ calls, call.stays)
    (hwhole : ∀ turn ∈ closed ++ opened, turn.records ≠ []) :
    (calls.foldl Call.apply s).printed = s.printed ∧
      ∃ closed' opened', Turns limit initial (calls.foldl Call.apply s).log closed' opened' ∧
        (closed' ++ opened').flatMap Turn.records =
          (closed ++ opened).flatMap Turn.records ++ calls.flatMap Call.stored ∧
        ∀ turn ∈ closed' ++ opened', turn.records ≠ [] := by
  induction calls generalizing s closed opened with
  | nil => exact ⟨rfl, closed, opened, h, (List.append_nil _).symm, hwhole⟩
  | cons call calls ih =>
    obtain ⟨hlog, hprinted⟩ := apply_stored h.flag (hcalls call List.mem_cons_self)
    have hlen : ∀ r ∈ call.stored, r.length ≤ 1022 := by
      intro r hr
      cases call <;> simp only [Call.stored, List.not_mem_nil, List.mem_singleton] at hr
      subst hr
      exact List.length_take_le _ _
    obtain ⟨closed₁, opened₁, h₁, hflat₁, hwhole₁⟩ := turns_run h hpos hlimit hinitial hlen hwhole
    rw [← hlog] at h₁
    obtain ⟨hprinted', closed', opened', h', hflat, hwhole'⟩ :=
      ih h₁ (fun c hc => hcalls c (List.mem_cons_of_mem _ hc)) hwhole₁
    refine ⟨hprinted'.trans hprinted, closed', opened', h', ?_, hwhole'⟩
    rw [hflat, hflat₁, List.flatMap_cons, List.append_assoc]

/-- Where the flag is changed behind `LOG_Init` and every `fopen` succeeds, the files hold the
latest of all records, those of `LOG_DEBUG` too whatever their own flag is, and each has the first
126 bytes of its text. -/
theorem other_flag_stores (initial : Fin MAX_LOG_FILE_NUM → Option Bytes) (limit flag : ℕ)
    (calls : List Call) (hpos : 0 < limit) (hlimit : limit < 2 ^ 30)
    (hinitial : ∀ i content, initial i = some content → content.length < 2 ^ 30)
    (hflag : flag ≠ PRINT_LOG_TO_TERM) (hcalls : ∀ call ∈ calls, call.stays) :
    let s := (Call.setPrintLogPlaceFlag PRINT_LOG_TO_FILE :: .init limit ::
      .setPrintLogPlaceFlag flag :: calls).foldl Call.apply (.start initial)
    s.printed = [] ∧ ∃ closed opened, Turns limit initial s.log closed opened ∧
      KeepsNewest (calls.flatMap Call.stored) closed opened := by
  obtain ⟨hprinted, closed, opened, h, hflat, hwhole⟩ := run_stored
    (s := ⟨logRun initial limit flag [], 0, []⟩) (turns_start hpos hflag) hpos hlimit hinitial calls
    hcalls (by simp)
  exact ⟨hprinted, closed, opened, h, keepsNewest_of_turns h hflat hwhole⟩

/-- Two records for `LOG_DEBUG`, one before its flag is set. -/
theorem debug_stored :
    let calls := [Call.info [48] LOG_DEBUG [97, 10], .setPrintDebugLogFlag 1, .info [49] LOG_DEBUG [98, 10]]
    let s := (Call.setPrintLogPlaceFlag PRINT_LOG_TO_FILE :: .init 20 :: .setPrintLogPlaceFlag 0 ::
      calls).foldl Call.apply (.start fun _ => none)
    s.printed = [] ∧ ∃ closed opened, Turns 20 (fun _ => none) s.log closed opened ∧
      KeepsNewest (calls.flatMap Call.stored) closed opened :=
  other_flag_stores (fun _ => none) 20 0 _ (by decide) (by decide) (fun _ _ hi => by cases hi)
    (by decide) (by decide)

end LinuxCat.LogFiles
