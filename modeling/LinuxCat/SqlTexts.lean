import LinuxCat.MessageHistory
import LinuxCat.QuotedLiterals

/-! # What SQLite makes of the texts of the users

The statements are put together with the fields between two quotes as they are. What SQLite reads
is the statement that was meant exactly if no field has a quote in it. -/
namespace LinuxCat.ServerModel
open ByteLayouts Messages QuotedLiterals

/-- A database that writes down what is executed. -/
def recording : Sqlite (List Bytes) := ⟨fun db statement => (db ++ [statement], [])⟩

def semicolon : UInt8 := 59

/-- One statement was executed. It fits its buffer with the terminator, is code and literals by
turns as intended, and ends with the only semicolon of its code. -/
def Encodes (size : ℕ) (executed : List Bytes) (first : Bytes) (rest : List (Bytes × Bytes)) :
    Prop :=
  ∃ sql, executed = [sql] ∧ sql.length < size ∧
    lex quote false sql = some (segments first rest) ∧
    ∃ code, first ++ (rest.map Prod.snd).flatten = code ++ [semicolon] ∧ semicolon ∉ code

def selectPasswordFirst : Bytes := text "select password from person where name = "

def selectNameFirst : Bytes := text "select name from person where name = "

def selectManagerFirst : Bytes := text "select password from manager where name = "

def insertMessageFirst : Bytes := text "insert into storagemessage(fromname,toname,message) values("

def insertMessageRest (name toname message : Bytes) : List (Bytes × Bytes) :=
  [(name, text ", "), (toname, text ", "), (message, text ");")]

def selectMessageFirst : Bytes :=
  text "select fromname,toname,message,timestamp from storagemessage where (toname = "

def selectMessageRest (name toname : Bytes) : List (Bytes × Bytes) :=
  [(toname, text " and fromname = "), (name, text ") or (fromname = "),
    (toname, text " and toname = "), (name, text ") order by timestamp desc limit 8;")]

section
variable {DB : Type}

/-- An insert into `storagemessage`, a C string in its buffer, stores the values of its literals. -/
def StoresLiterals (sql : Sqlite DB) (storage : DB → List Stored) : Prop :=
  ∀ db statement name toname message, 0 ∉ statement → statement.length < 2048 →
    lex quote false statement =
      some (segments insertMessageFirst (insertMessageRest name toname message)) →
    ∃ timestamp, storage (sql.exec db statement).1 =
      storage db ++ [⟨name, toname, message, timestamp⟩]

/-- The five texts are read as they were meant, and a message is stored as it was sent. -/
structure TextsSurvive (sql : Sqlite DB) (storage : DB → List Stored) (junk : CharArray 20)
    (msg : Msg) : Prop where
  password : Encodes 1024 (querypassword recording [] junk msg).1 selectPasswordFirst
    [(msg.name.str, text ";")]
  name : Encodes 1024 (queryname recording [] junk msg).1 selectNameFirst [(msg.name.str, text ";")]
  manager : Encodes 1024 (queryManagerPassword recording [] junk msg).1 selectManagerFirst
    [(msg.name.str, text ";")]
  insert : Encodes 2048 (insertDataMessage recording [] msg) insertMessageFirst
    (insertMessageRest msg.name.str msg.toname.str msg.message.str)
  select : Encodes 2048 (selectMessage recording [] msg).1 selectMessageFirst
    (selectMessageRest msg.name.str msg.toname.str)
  stored : ∀ db, ∃ timestamp, storage (insertDataMessage sql db msg) =
    storage db ++ [⟨msg.name.str, msg.toname.str, msg.message.str, timestamp⟩]

end

/-! ## The statements -/

theorem insertMessageText_eq (name toname message : Bytes) :
    insertMessageText name toname message =
      statement quote insertMessageFirst (insertMessageRest name toname message) := by
  have hfirst : text "insert into storagemessage(fromname,toname,message) values('" =
      insertMessageFirst ++ [quote] := by decide
  have hcomma : text "', '" = quote :: (text ", " ++ [quote]) := by decide
  have hlast : text "');" = quote :: text ");" := by decide
  simp [insertMessageText, hfirst, hcomma, hlast, insertMessageRest, statement]

theorem selectMessageText_eq (name toname : Bytes) :
    selectMessageText name toname =
      statement quote selectMessageFirst (selectMessageRest name toname) := by
  have hfirst : text "select fromname,toname,message,timestamp from storagemessage where (toname = '" =
      selectMessageFirst ++ [quote] := by decide
  have hand : text "' and fromname = '" = quote :: (text " and fromname = " ++ [quote]) := by
    decide
  have hor : text "') or (fromname = '" = quote :: (text ") or (fromname = " ++ [quote]) := by
    decide
  have hand' : text "' and toname = '" = quote :: (text " and toname = " ++ [quote]) := by
    decide
  have hlast : text "') order by timestamp desc limit 8;" =
      quote :: text ") order by timestamp desc limit 8;" := by decide
  simp [selectMessageText, hfirst, hand, hor, hand', hlast, selectMessageRest, statement]

/-- The selects of one name. -/
theorem selectName_eq {head first : Bytes} (hfirst : head = first ++ [quote]) (name : Bytes) :
    head ++ name ++ text "';" = statement quote first [(name, text ";")] := by
  have hlast : text "';" = quote :: text ";" := by decide
  simp [hfirst, hlast, statement]

theorem executed_selects (junk : CharArray 20) (msg : Msg) :
    (querypassword recording [] junk msg).1 =
        [statement quote selectPasswordFirst [(msg.name.str, text ";")]] ∧
      (queryname recording [] junk msg).1 =
        [statement quote selectNameFirst [(msg.name.str, text ";")]] ∧
      (queryManagerPassword recording [] junk msg).1 =
        [statement quote selectManagerFirst [(msg.name.str, text ";")]] :=
  ⟨congrArg (fun sql => [sql]) (selectName_eq (by decide) _),
    congrArg (fun sql => [sql]) (selectName_eq (by decide) _),
    congrArg (fun sql => [sql]) (selectName_eq (by decide) _)⟩

theorem executed_messages (msg : Msg) :
    insertDataMessage recording [] msg = [statement quote insertMessageFirst
        (insertMessageRest msg.name.str msg.toname.str msg.message.str)] ∧
      (selectMessage recording [] msg).1 = [statement quote selectMessageFirst
        (selectMessageRest msg.name.str msg.toname.str)] :=
  ⟨congrArg (fun sql => [sql]) (insertMessageText_eq _ _ _),
    congrArg (fun sql => [sql]) (selectMessageText_eq _ _)⟩

/-! ## What is read -/

theorem encodes_iff {size : ℕ} {first : Bytes} {rest : List (Bytes × Bytes)} (hfirst : quote ∉ first)
    (hcode : ∀ p ∈ rest, p.2 ≠ [] ∧ quote ∉ p.2)
    (hlen : (statement quote first rest).length < size)
    (hend : ∃ code, first ++ (rest.map Prod.snd).flatten = code ++ [semicolon] ∧ semicolon ∉ code) :
    Encodes size [statement quote first rest] first rest ↔ ∀ p ∈ rest, quote ∉ p.1 := by
  rw [← lex_statement_iff hfirst hcode]
  constructor
  · rintro ⟨sql, hsql, -, hlex, -⟩
    rwa [List.singleton_inj.mp hsql]
  · exact fun hlex => ⟨_, rfl, hlen, hlex, hend⟩

/-- A code that ends with its only semicolon. -/
theorem ends_of_decide {code : Bytes} (h : code.getLast? = some semicolon ∧ semicolon ∉ code.dropLast) :
    ∃ code', code = code' ++ [semicolon] ∧ semicolon ∉ code' := by
  refine ⟨code.dropLast, ?_, h.2⟩
  rw [List.dropLast_append_getLast? _ h.1]

/-- The three selects of a name. -/
theorem encodes_select_iff {first : Bytes} (hfirst : quote ∉ first) (hlen : first.length < 1000)
    (hend : (first ++ text ";").getLast? = some semicolon ∧ semicolon ∉ (first ++ text ";").dropLast)
    (name : CharArray 20) :
    Encodes 1024 [statement quote first [(name.str, text ";")]] first [(name.str, text ";")] ↔
      quote ∉ name.str := by
  have hname := name.length_str_le
  have hlast : text ";" = [semicolon] := by decide
  rw [encodes_iff hfirst]
  · simp
  · simp only [List.mem_singleton, forall_eq, hlast]
    decide
  · rw [hlast, statement]
    simp only [List.flatMap_cons, List.flatMap_nil, List.append_nil, List.length_append,
      List.length_cons, List.length_nil]
    omega
  · simpa using ends_of_decide hend

theorem encodes_insert_iff (msg : Msg) :
    Encodes 2048 (insertDataMessage recording [] msg) insertMessageFirst
        (insertMessageRest msg.name.str msg.toname.str msg.message.str) ↔
      quote ∉ msg.name.str ∧ quote ∉ msg.toname.str ∧ quote ∉ msg.message.str := by
  have hname := msg.name.length_str_le
  have hto := msg.toname.length_str_le
  have hmessage := msg.message.length_str_le
  rw [(executed_messages msg).1, encodes_iff (by decide)]
  · simp [insertMessageRest]
  · simp only [insertMessageRest, List.mem_cons, List.not_mem_nil, or_false, forall_eq_or_imp,
      forall_eq]
    decide
  · have hcode : (statement quote insertMessageFirst (insertMessageRest [] [] [])).length < 900 := by
      decide
    simp only [statement, insertMessageRest, List.flatMap_cons, List.flatMap_nil, List.append_nil,
      List.length_append, List.length_cons, List.length_nil] at hcode ⊢
    omega
  · have hend : (insertMessageFirst ++ ((insertMessageRest [] [] []).map Prod.snd).flatten).getLast? =
          some semicolon ∧
        semicolon ∉ (insertMessageFirst ++
          ((insertMessageRest [] [] []).map Prod.snd).flatten).dropLast := by
      decide
    exact ends_of_decide hend

theorem encodes_selectMessage_iff (msg : Msg) :
    Encodes 2048 (selectMessage recording [] msg).1 selectMessageFirst
        (selectMessageRest msg.name.str msg.toname.str) ↔
      quote ∉ msg.toname.str ∧ quote ∉ msg.name.str := by
  have hname := msg.name.length_str_le
  have hto := msg.toname.length_str_le
  rw [(executed_messages msg).2, encodes_iff (by decide)]
  · simp [selectMessageRest]
    tauto
  · simp only [selectMessageRest, List.mem_cons, List.not_mem_nil, or_false, forall_eq_or_imp,
      forall_eq]
    decide
  · have hcode : (statement quote selectMessageFirst (selectMessageRest [] [])).length < 1000 := by
      decide +kernel
    simp only [statement, selectMessageRest, List.flatMap_cons, List.flatMap_nil, List.append_nil,
      List.length_append, List.length_cons, List.length_nil] at hcode ⊢
    omega
  · have hend : (selectMessageFirst ++ ((selectMessageRest [] []).map Prod.snd).flatten).getLast? =
          some semicolon ∧
        semicolon ∉ (selectMessageFirst ++
          ((selectMessageRest [] []).map Prod.snd).flatten).dropLast := by
      decide
    exact ends_of_decide hend

theorem zero_notMem_insertMessage (msg : Msg) :
    0 ∉ insertMessageText msg.name.str msg.toname.str msg.message.str := by
  have hcode : (0 : UInt8) ∉ insertMessageText [] [] [] := by decide
  have hfields (a : CharArray 20) : 0 ∉ a.str := zero_notMem_cstr _
  have hmessage : 0 ∉ msg.message.str := zero_notMem_cstr _
  simp only [insertMessageText, List.mem_append, List.not_mem_nil, or_false, not_or] at hcode ⊢
  simp only [hfields, hmessage, hcode, not_false_eq_true, and_self]

section
variable {DB : Type} {sql : Sqlite DB} {storage : DB → List Stored}

/-- The texts of a request survive exactly if none of them has a quote. -/
theorem texts_survive_iff (h : StoresLiterals sql storage) (junk : CharArray 20) (msg : Msg) :
    TextsSurvive sql storage junk msg ↔
      quote ∉ msg.name.str ∧ quote ∉ msg.toname.str ∧ quote ∉ msg.message.str := by
  obtain ⟨hpassword, hname, hmanager⟩ := executed_selects junk msg
  constructor
  · exact fun hsurvive => (encodes_insert_iff msg).mp hsurvive.insert
  · rintro ⟨hn, ht, hm⟩
    have hinsert := (encodes_insert_iff msg).mpr ⟨hn, ht, hm⟩
    refine ⟨?_, ?_, ?_, hinsert, (encodes_selectMessage_iff msg).mpr ⟨ht, hn⟩, fun db => ?_⟩
    · rw [hpassword]
      exact (encodes_select_iff (by decide) (by decide) (by decide) _).mpr hn
    · rw [hname]
      exact (encodes_select_iff (by decide) (by decide) (by decide) _).mpr hn
    · rw [hmanager]
      exact (encodes_select_iff (by decide) (by decide) (by decide) _).mpr hn
    · obtain ⟨statement, hexecuted, hfits, hlex, -⟩ := hinsert
      obtain rfl : insertMessageText msg.name.str msg.toname.str msg.message.str = statement :=
        List.singleton_inj.mp hexecuted
      exact h db _ _ _ _ (zero_notMem_insertMessage msg) hfits hlex

end

/-! ## An executable table of messages -/

/-- The insert, read as SQLite reads it; every other statement is an error. The rows carry no
time. -/
def storageSqlite : Sqlite (List Stored) where
  exec rows statement :=
    match lex quote false statement with
    | some [first, name, comma, toname, comma', message, last] =>
      if segments first [(name, comma), (toname, comma'), (message, last)] =
          segments insertMessageFirst (insertMessageRest name toname message) then
        (rows ++ [⟨name, toname, message, []⟩], [])
      else (rows, [])
    | _ => (rows, [])

theorem storesLiterals_storageSqlite : StoresLiterals storageSqlite id := by
  intro rows statement name toname message _ _ hlex
  refine ⟨[], ?_⟩
  simp only [storageSqlite, hlex]
  exact congrArg Prod.fst (if_pos rfl)

def messageOf (message : Bytes) : Msg :=
  { Msg.zero with
    name := .ofBytes 20 (text "amy")
    toname := .ofBytes 20 (text "bob")
    message := .ofBytes 1024 message }

theorem hello_survives : TextsSurvive storageSqlite id (.zero 20) (messageOf (text "hello")) :=
  (texts_survive_iff storesLiterals_storageSqlite (.zero 20) (messageOf (text "hello"))).mpr
    (by decide)

/-- An ordinary apostrophe. -/
theorem apostrophe_lost :
    ¬ TextsSurvive storageSqlite id (.zero 20) (messageOf (text "it's late")) := by
  intro h
  obtain ⟨timestamp, hrow⟩ := h.stored []
  have hnone : insertDataMessage storageSqlite [] (messageOf (text "it's late")) = [] := by
    decide
  rw [hnone] at hrow
  cases hrow

end LinuxCat.ServerModel
