import LinuxCat.PersonTable

/-! # What the three queries say about the tables

A row's value goes through a buffer of 20 bytes that a query without a row leaves as it was, and
`my_strcmp` takes every beginning of the wanted string for the whole. -/
namespace LinuxCat.ServerModel
open ByteLayouts Messages

/-- A row of `person` or `manager` as C strings. -/
structure Credential extends Person where
  zero_name : 0 ∉ name
  zero_password : 0 ∉ password
  deriving DecidableEq, Repr

def selectManagerText (name : Bytes) : Bytes :=
  text "select password from manager where name = '" ++ name ++ text "';"

/-- The rows of the table under a name. -/
def rowsNamed (name : Bytes) (rows : List Credential) : List Credential :=
  rows.filter (fun p => p.name = name)

/-- The callback sees each selected row once. -/
structure CredentialTables {DB : Type} (sql : Sqlite DB) (person manager : DB → List Credential) :
    Prop where
  selectName : ∀ db name, quote ∉ name →
    (sql.exec db (selectNameText name)).2 = (rowsNamed name (person db)).map (fun p => [p.name])
  selectPassword : ∀ db name, quote ∉ name →
    (sql.exec db (selectPasswordText name)).2 = (rowsNamed name (person db)).map (fun p => [p.password])
  selectManager : ∀ db name, quote ∉ name →
    (sql.exec db (selectManagerText name)).2 = (rowsNamed name (manager db)).map (fun p => [p.password])

/-- What is copied fits the buffer, and the answer is 1 exactly if `P` holds. -/
def Decides (rows : List (List Bytes)) (answer : ℤ) (P : Prop) : Prop :=
  (∀ row ∈ rows, (row.headD []).length < 20) ∧ (answer = 1 ↔ P)

/-- The string is not empty, and the wanted one begins with it. -/
def Begins (s wanted : Bytes) : Prop := s ≠ [] ∧ s <+: wanted

/-- A value of the table fits and is no beginning of the wanted string but this itself; and where
there is none, nor is the string the buffer held before. -/
def Apart (values : List Bytes) (junk wanted : Bytes) : Prop :=
  (∀ v ∈ values, v.length < 20 ∧ (Begins v wanted → v = wanted)) ∧
    (values = [] → ¬ Begins junk wanted)

instance (s wanted : Bytes) : Decidable (Begins s wanted) := inferInstanceAs (Decidable (_ ∧ _))

instance (values : List Bytes) (junk wanted : Bytes) : Decidable (Apart values junk wanted) :=
  inferInstanceAs (Decidable (_ ∧ (_ → ¬ _)))

section
variable {DB : Type} {sql : Sqlite DB} {db : DB}

/-- A select of one value at most. -/
theorem queryEquals_decides_iff (junk : CharArray 20) {query : Bytes} {wanted : CharArray 20}
    {values : List Bytes} (hrows : (sql.exec db query).2 = values.map (fun v => [v]))
    (hone : values.length ≤ 1) (hzero : ∀ v ∈ values, 0 ∉ v) (hwanted : wanted.str ≠ []) :
    Decides (sql.exec db query).2 (queryEquals sql db junk query wanted).2 (wanted.str ∈ values) ↔
      Apart values junk.str wanted.str := by
  rw [Decides, queryEquals_eq_one_iff hwanted, hrows]
  match values with
  | [] => simp [Apart, mySqliteCallback, Begins]
  | [v] =>
    have hz := hzero v (by simp)
    simp only [List.map_cons, List.map_nil, List.mem_singleton, forall_eq, List.headD_cons, Apart,
      reduceCtorEq, false_implies, and_true]
    refine and_congr_right fun hlen => ?_
    have hbuf : (mySqliteCallback junk [[v]]).str = v :=
      str_mySqliteCallback (by simp) (by simp) hlen.le hz
    rw [hbuf, Begins]
    constructor
    · exact fun hiff hbegins => (hiff.mp hbegins).symm
    · intro hself
      refine ⟨fun hbegins => (hself hbegins).symm, ?_⟩
      rintro rfl
      exact ⟨hwanted, List.prefix_rfl⟩
  | _ :: _ :: _ => simp at hone

/-- A table with one row a name has one row at most under each. -/
theorem length_rowsNamed_le {rows : List Credential} (h : (rows.map (fun p => p.name)).Nodup)
    (name : Bytes) : (rowsNamed name rows).length ≤ 1 := by
  have hsame : (rowsNamed name rows).map (fun p => p.name) =
      List.replicate (rowsNamed name rows).length name := by
    refine List.eq_replicate_iff.mpr ⟨List.length_map _, fun n hn => ?_⟩
    obtain ⟨p, hp, rfl⟩ := List.mem_map.mp hn
    simpa using (List.mem_filter.mp hp).2
  have hnodup : ((rowsNamed name rows).map (fun p => p.name)).Nodup :=
    h.sublist (List.filter_sublist.map _)
  rwa [hsame, List.nodup_replicate] at hnodup

theorem mem_map_rowsNamed {rows : List Credential} {name value : Bytes} (f : Credential → Bytes) :
    value ∈ (rowsNamed name rows).map f ↔ ∃ p ∈ rows, p.name = name ∧ f p = value := by
  simp [rowsNamed, and_assoc]

/-- One column of a table with one row a name. -/
theorem column_decides_iff (junk : CharArray 20) {query name : Bytes} {wanted : CharArray 20}
    {rows : List Credential} {f : Credential → Bytes} (hzero : ∀ p, 0 ∉ f p)
    (hrows : (sql.exec db query).2 = (rowsNamed name rows).map (fun p => [f p]))
    (hnodup : (rows.map (fun p => p.name)).Nodup) (hwanted : wanted.str ≠ []) :
    Decides (sql.exec db query).2 (queryEquals sql db junk query wanted).2
        (∃ p ∈ rows, p.name = name ∧ f p = wanted.str) ↔
      Apart ((rowsNamed name rows).map f) junk.str wanted.str := by
  rw [← mem_map_rowsNamed f]
  refine queryEquals_decides_iff junk ?_ ?_ (fun v hv => ?_) hwanted
  · rw [hrows, List.map_map]
    rfl
  · rw [List.length_map]
    exact length_rowsNamed_le hnodup name
  · obtain ⟨p, -, rfl⟩ := List.mem_map.mp hv
    exact hzero p

/-- The three queries decide their tables exactly where no string of a row or of the stack is a
beginning of the wanted one that my_strcmp takes for it. -/
theorem credentials_decided_iff {person manager : DB → List Credential}
    (h : CredentialTables sql person manager) (db : DB) (junk : CharArray 20) (msg : Msg)
    (hperson : ((person db).map (fun p => p.name)).Nodup)
    (hmanager : ((manager db).map (fun p => p.name)).Nodup)
    (hquote : quote ∉ msg.name.str) (hname : msg.name.str ≠ []) (hpassword : msg.password.str ≠ []) :
    (Decides (sql.exec db (selectNameText msg.name.str)).2 (queryname sql db junk msg).2
        (∃ p ∈ person db, p.name = msg.name.str) ↔
      Apart ((rowsNamed msg.name.str (person db)).map (fun p => p.name)) junk.str msg.name.str) ∧
    (Decides (sql.exec db (selectPasswordText msg.name.str)).2 (querypassword sql db junk msg).2
        (∃ p ∈ person db, p.name = msg.name.str ∧ p.password = msg.password.str) ↔
      Apart ((rowsNamed msg.name.str (person db)).map (fun p => p.password)) junk.str msg.password.str) ∧
    (Decides (sql.exec db (selectManagerText msg.name.str)).2 (queryManagerPassword sql db junk msg).2
        (∃ p ∈ manager db, p.name = msg.name.str ∧ p.password = msg.password.str) ↔
      Apart ((rowsNamed msg.name.str (manager db)).map (fun p => p.password)) junk.str
        msg.password.str) := by
  have hself : (∃ p ∈ person db, p.name = msg.name.str) ↔
      ∃ p ∈ person db, p.name = msg.name.str ∧ p.name = msg.name.str := by
    simp only [and_self]
  refine ⟨?_, ?_, ?_⟩
  · rw [hself]
    exact column_decides_iff junk (fun p => p.zero_name) (h.selectName db _ hquote) hperson hname
  · exact column_decides_iff junk (fun p => p.zero_password) (h.selectPassword db _ hquote) hperson
      hpassword
  · exact column_decides_iff junk (fun p => p.zero_password) (h.selectManager db _ hquote) hmanager
      hpassword

end

/-! ## Executable tables -/

/-- The values a select returns whose text is this head, a name and the closing quote. -/
def selected (head : Bytes) (rows : List Credential) (f : Credential → Bytes) (statement : Bytes) :
    List (List Bytes) :=
  (rowsNamed (literal (statement.drop head.length)) rows).map (fun p => [f p])

/-- The tables `person` and `manager`, and the three selects on them. -/
def credentialSqlite : Sqlite (List Credential × List Credential) where
  exec tables statement :=
    let selectName := text "select name from person where name = '"
    let selectPassword := text "select password from person where name = '"
    let selectManager := text "select password from manager where name = '"
    if selectName.isPrefixOf statement then
      (tables, selected selectName tables.1 (fun p => p.name) statement)
    else if selectPassword.isPrefixOf statement then
      (tables, selected selectPassword tables.1 (fun p => p.password) statement)
    else if selectManager.isPrefixOf statement then
      (tables, selected selectManager tables.2 (fun p => p.password) statement)
    else (tables, [])

theorem selected_append {name : Bytes} (h : quote ∉ name) (head : Bytes) (rows : List Credential)
    (f : Credential → Bytes) :
    selected head rows f (head ++ name ++ text "';") = (rowsNamed name rows).map (fun p => [f p]) := by
  rw [selected, List.append_assoc, List.drop_left]
  exact congrArg (fun n => (rowsNamed n rows).map (fun p => [f p])) (literal_append h _)

theorem isPrefixOf_append (head name : Bytes) : head.isPrefixOf (head ++ name ++ text "';") = true := by
  rw [List.isPrefixOf_iff_prefix, List.append_assoc]
  exact List.prefix_append _ _

theorem credentialTables_credentialSqlite : CredentialTables credentialSqlite Prod.fst Prod.snd where
  selectName db name h := by
    have hhead := isPrefixOf_append (text "select name from person where name = '") name
    simp only [credentialSqlite, selectNameText, if_pos hhead, selected_append h]
  selectPassword db name h := by
    have hother : (text "select name from person where name = '").isPrefixOf
        (selectPasswordText name) = false := rfl
    have hhead := isPrefixOf_append (text "select password from person where name = '") name
    rw [selectPasswordText] at hother
    simp only [credentialSqlite, selectPasswordText, hother, Bool.false_eq_true, if_false,
      if_pos hhead, selected_append h]
  selectManager db name h := by
    have hother : (text "select name from person where name = '").isPrefixOf
        (selectManagerText name) = false := rfl
    have hother' : (text "select password from person where name = '").isPrefixOf
        (selectManagerText name) = false := rfl
    have hhead := isPrefixOf_append (text "select password from manager where name = '") name
    rw [selectManagerText] at hother hother'
    simp only [credentialSqlite, selectManagerText, hother, hother', Bool.false_eq_true, if_false,
      if_pos hhead, selected_append h]

def amy : Credential where
  name := text "amy"
  password := text "12"
  zero_name := by decide
  zero_password := by decide

def amyAsks (password : Bytes) : Msg :=
  { Msg.zero with name := .ofBytes 20 (text "amy"), password := .ofBytes 20 password }

/-- The right password, with what the stack may hold. -/
theorem amy_decided :
    Decides (credentialSqlite.exec ([amy], []) (selectPasswordText (amyAsks (text "12")).name.str)).2
        (querypassword credentialSqlite ([amy], []) (.ofBytes 20 (text "1")) (amyAsks (text "12"))).2
        (∃ p ∈ [amy], p.name = (amyAsks (text "12")).name.str ∧
          p.password = (amyAsks (text "12")).password.str) :=
  ((credentials_decided_iff credentialTables_credentialSqlite ([amy], []) (.ofBytes 20 (text "1"))
    (amyAsks (text "12")) (by decide) (by decide) (by decide)
    (by decide) (by decide)).2.1).mpr (by decide)

/-- A password that goes on behind the right one. -/
theorem longer_password_accepted :
    (querypassword credentialSqlite ([amy], []) (.zero 20) (amyAsks (text "123"))).2 = 1 ∧
      ¬ ∃ p ∈ [amy], p.name = (amyAsks (text "123")).name.str ∧
        p.password = (amyAsks (text "123")).password.str := by
  decide

end LinuxCat.ServerModel
