import LinuxCat.DecimalTexts
import LinuxCat.ServerRuns

/-! # The table of registered users

What the two selects and the insert on `person` do is assumed of SQLite, for names without a
quote and passwords that are one token. An executable table at the end meets the assumption. -/
namespace LinuxCat.ServerModel
open ByteLayouts Messages DecimalTexts

/-- A row of `person`, without its key. -/
structure Person where
  name : Bytes
  password : Bytes
  deriving DecidableEq, Repr

def quote : UInt8 := 39

def selectNameText (name : Bytes) : Bytes :=
  text "select name from person where name = '" ++ name ++ text "';"

def selectPasswordText (name : Bytes) : Bytes :=
  text "select password from person where name = '" ++ name ++ text "';"

def insertText (name password : Bytes) : Bytes :=
  text "insert into person(name,password)values('" ++ name ++ text "'," ++ password ++ text ");"

def isLetter (b : UInt8) : Bool := (65 ≤ b ∧ b ≤ 90) ∨ (97 ≤ b ∧ b ≤ 122) ∨ b = 95

def lower (b : UInt8) : UInt8 := if 65 ≤ b ∧ b ≤ 90 then b + 32 else b

/-- The words that are values and no identifiers. -/
def valueWords : List Bytes :=
  [text "null", text "true", text "false", text "current_time", text "current_date",
    text "current_timestamp"]

/-- A letter, then letters and digits. -/
def IsIdentifier (bs : Bytes) : Prop :=
  bs.head?.any isLetter = true ∧ (∀ b ∈ bs, isLetter b = true ∨ isDigit b = true) ∧
    bs.map lower ∉ valueWords

instance (bs : Bytes) : Decidable (IsIdentifier bs) := inferInstanceAs (Decidable (_ ∧ _ ∧ _))

/-- The select of `queryname` on the rows of `person`. -/
def SelectsNames {DB : Type} (sql : Sqlite DB) (person : DB → List Person) : Prop :=
  ∀ db name, quote ∉ name → person (sql.exec db (selectNameText name)).1 = person db ∧
    (sql.exec db (selectNameText name)).2 =
      ((person db).filter (fun p => p.name = name)).map (fun p => [p.name])

/-- The rows of `person`, and the statements on it: a quoted literal without a quote is its text, a
number is stored as its canonical text, and an identifier is an error. -/
structure PersonTable {DB : Type} (sql : Sqlite DB) (person : DB → List Person) : Prop where
  selectName : ∀ db name, quote ∉ name → person (sql.exec db (selectNameText name)).1 = person db ∧
    (sql.exec db (selectNameText name)).2 =
      ((person db).filter (fun p => p.name = name)).map (fun p => [p.name])
  selectPassword : ∀ db name, quote ∉ name →
    person (sql.exec db (selectPasswordText name)).1 = person db ∧
    (sql.exec db (selectPasswordText name)).2 =
      ((person db).filter (fun p => p.name = name)).map (fun p => [p.password])
  insertNumber : ∀ db name password, quote ∉ name → IsNumber password →
    person (sql.exec db (insertText name password)).1 =
      person db ++ [⟨name, decimal (value password)⟩]
  insertIdentifier : ∀ db name password, quote ∉ name → IsIdentifier password →
    person (sql.exec db (insertText name password)).1 = person db

def names (rows : List Person) : List Bytes := rows.map Person.name

/-! ## What the queries return -/

/-- `my_strcmp` accepts every beginning of the second string but the empty one. -/
theorem myStrcmp_eq_one_iff {dest src : Bytes} (hsrc : cstr src ≠ []) :
    myStrcmp dest src = 1 ↔ cstr dest ≠ [] ∧ cstr dest <+: cstr src := by
  induction dest generalizing src with
  | nil =>
    rw [Ne, cstr_eq_nil_iff] at hsrc
    simp only [myStrcmp, if_neg hsrc, cstr, List.takeWhile_nil, ne_eq, not_true_eq_false, false_and,
      zero_ne_one]
  | cons d dest ih =>
    cases src with
    | nil => exact absurd rfl hsrc
    | cons s src =>
      have hs : s ≠ 0 := by
        rwa [Ne, cstr_eq_nil_iff] at hsrc
      rw [cstr_cons s, if_neg hs, myStrcmp, List.headD_cons, List.tail_cons]
      by_cases hd : d = s
      · rw [if_pos hd, cstr_cons d, hd, if_neg hs, List.cons_prefix_cons]
        simp only [ne_eq, reduceCtorEq, not_false_eq_true, true_and]
        by_cases hz : dest.headD 0 = 0
        · rw [if_pos hz, cstr_eq_nil_iff.mpr hz]
          simp
        · have hne : cstr dest ≠ [] := fun h => hz (cstr_eq_nil_iff.mp h)
          rw [if_neg hz]
          by_cases hsrc' : cstr src = []
          · -- the second string ends first
            refine iff_of_false ?_ (by simpa [hsrc'] using hne)
            cases dest with
            | nil => exact absurd rfl hz
            | cons e dest =>
              rw [myStrcmp, cstr_eq_nil_iff.mp hsrc', if_neg (by simpa using hz)]
              simp
          · rw [ih hsrc']
            exact and_iff_right hne
      · rw [if_neg hd, cstr_cons d]
        refine iff_of_false (by simp) ?_
        split_ifs
        · simp
        · rw [List.cons_prefix_cons]
          exact fun h => hd h.2.1

theorem queryEquals_eq_one_iff {DB : Type} {sql : Sqlite DB} {db : DB} {junk : CharArray 20}
    {query : Bytes} {wanted : CharArray 20} (hwanted : wanted.str ≠ []) :
    (queryEquals sql db junk query wanted).2 = 1 ↔
      (mySqliteCallback junk (sql.exec db query).2).str ≠ [] ∧
        (mySqliteCallback junk (sql.exec db query).2).str <+: wanted.str := by
  unfold CharArray.str
  rw [← myStrcmp_eq_one_iff hwanted]
  simp [queryEquals]

/-- The buffer behind a select that returns one row at least, all with the same string. -/
theorem str_mySqliteCallback {junk : CharArray 20} {rows : List (List Bytes)} {s : Bytes}
    (hne : rows ≠ []) (hrows : ∀ row ∈ rows, row.headD [] = s) (hlen : s.length ≤ 20)
    (hz : 0 ∉ s) : (mySqliteCallback junk rows).str = s := by
  obtain ⟨init, last, rfl⟩ := (List.eq_nil_or_concat' rows).resolve_left hne
  simp only [mySqliteCallback, List.foldl_append, List.foldl_cons, List.foldl_nil]
  rw [hrows last (by simp)]
  exact CharArray.str_strcpy_of _ hlen hz

section Queries
variable {DB : Type} {sql : Sqlite DB} {person : DB → List Person} {m : Msg}

theorem PersonTable.selectsNames (h : PersonTable sql person) : SelectsNames sql person :=
  h.selectName

/-- `queryname` finds the name, or takes what the stack left in its buffer for it. -/
theorem SelectsNames.queryname_eq (h : SelectsNames sql person) (db : DB) (junk : CharArray 20)
    (hquote : quote ∉ m.name.str) (hne : m.name.str ≠ []) :
    person (queryname sql db junk m).1 = person db ∧
      ((queryname sql db junk m).2 = 1 ↔
        m.name.str ∈ names (person db) ∨ (junk.str ≠ [] ∧ junk.str <+: m.name.str)) := by
  obtain ⟨hkeep, hrows⟩ := h db m.name.str hquote
  refine ⟨hkeep, ?_⟩
  have hquery : (queryname sql db junk m).2 = 1 ↔ _ := queryEquals_eq_one_iff hne
  unfold selectNameText at hrows
  rw [hquery, hrows]
  by_cases hmem : m.name.str ∈ names (person db)
  · obtain ⟨p, hp, hname⟩ := List.mem_map.mp hmem
    have hfound : p ∈ (person db).filter (fun p => p.name = m.name.str) :=
      List.mem_filter.mpr ⟨hp, by simpa using hname⟩
    have hbuf : (mySqliteCallback junk (((person db).filter (fun p => p.name = m.name.str)).map
        (fun p => [p.name]))).str = m.name.str := by
      refine str_mySqliteCallback (List.ne_nil_of_mem (List.mem_map_of_mem hfound))
        (fun row hrow => ?_) m.name.length_str_le (zero_notMem_cstr _)
      obtain ⟨p', hp', rfl⟩ := List.mem_map.mp hrow
      simpa using (List.mem_filter.mp hp').2
    rw [hbuf]
    exact iff_of_true ⟨hne, List.prefix_rfl⟩ (.inl hmem)
  · have hnone : (person db).filter (fun p => p.name = m.name.str) = [] := by
      rw [List.filter_eq_nil_iff]
      intro p hp hname
      exact hmem (List.mem_map.mpr ⟨p, hp, by simpa using hname⟩)
    rw [hnone]
    simp [mySqliteCallback, hmem]

/-- `querypassword` for a name with one row accepts what this row's password begins. -/
theorem PersonTable.querypassword_eq (h : PersonTable sql person) {db : DB} (junk : CharArray 20)
    {p : Person} (hquote : quote ∉ m.name.str) (hne : m.password.str ≠ [])
    (hrow : (person db).filter (fun p => p.name = m.name.str) = [p]) (hlen : p.password.length ≤ 20)
    (hz : 0 ∉ p.password) :
    (querypassword sql db junk m).2 = 1 ↔ p.password ≠ [] ∧ p.password <+: m.password.str := by
  obtain ⟨-, hrows⟩ := h.selectPassword db m.name.str hquote
  have hquery : (querypassword sql db junk m).2 = 1 ↔ _ := queryEquals_eq_one_iff hne
  have hbuf : (mySqliteCallback junk (sql.exec db (selectPasswordText m.name.str)).2).str =
      p.password := by
    rw [hrows, hrow]
    exact str_mySqliteCallback (by simp) (by simp) hlen hz
  rw [hquery]
  unfold selectPasswordText at hbuf
  rw [hbuf]

end Queries

/-! ## An executable table -/

/-- What stands between the start of a literal and its closing quote. -/
def literal (bs : Bytes) : Bytes := bs.takeWhile (· ≠ quote)

/-- What follows the separator behind the closing quote. -/
def afterLiteral (sep bs : Bytes) : Bytes := (bs.dropWhile (· ≠ quote)).drop sep.length

/-- The three statements; everything but a number is an error in the insert. -/
def personSqlite : Sqlite (List Person) where
  exec rows statement :=
    let behind (head : Bytes) := statement.drop head.length
    let selectName := text "select name from person where name = '"
    let selectPassword := text "select password from person where name = '"
    let insert := text "insert into person(name,password)values('"
    if selectName.isPrefixOf statement then
      (rows, (rows.filter (fun p => p.name = literal (behind selectName))).map (fun p => [p.name]))
    else if selectPassword.isPrefixOf statement then
      (rows,
        (rows.filter (fun p => p.name = literal (behind selectPassword))).map (fun p => [p.password]))
    else if insert.isPrefixOf statement then
      let password := (afterLiteral (text "',") (behind insert)).dropLast.dropLast
      if IsNumber password then
        (rows ++ [⟨literal (behind insert), decimal (value password)⟩], [])
      else (rows, [])
    else (rows, [])

theorem literal_append {name : Bytes} (h : quote ∉ name) (rest : Bytes) :
    literal (name ++ quote :: rest) = name := by
  rw [literal, List.takeWhile_append_of_pos]
  · simp
  · intro b hb
    have hne : b ≠ quote := fun he => h (he ▸ hb)
    simpa using hne

theorem afterLiteral_append {name : Bytes} (sep : Bytes) (h : quote ∉ name) (hsep : sep.head? = some quote)
    (rest : Bytes) : afterLiteral sep (name ++ (sep ++ rest)) = rest := by
  have hdrop : (name ++ (sep ++ rest)).dropWhile (· ≠ quote) = sep ++ rest := by
    rw [List.dropWhile_append_of_pos]
    · cases sep with
      | nil => cases hsep
      | cons b sep =>
        cases hsep
        rfl
    · intro b hb
      have hne : b ≠ quote := fun he => h (he ▸ hb)
      simpa using hne
  rw [afterLiteral, hdrop, List.drop_left]

theorem not_isNumber_of_isIdentifier {bs : Bytes} (h : IsIdentifier bs) : ¬ IsNumber bs := by
  rintro ⟨-, hdigits⟩
  cases bs with
  | nil => cases h.1
  | cons b bs =>
    have hdigit := isDigit_iff.mp (hdigits b List.mem_cons_self)
    have hletter : isLetter b = true := h.1
    simp only [isLetter, Bool.decide_or, Bool.or_eq_true, decide_eq_true_eq,
      UInt8.le_iff_toNat_le, ← UInt8.toNat_inj, UInt8.reduceToNat] at hletter
    omega

theorem exec_insertText (rows : List Person) {name : Bytes} (h : quote ∉ name) (password : Bytes) :
    (personSqlite.exec rows (insertText name password)).1 =
      if IsNumber password then rows ++ [⟨name, decimal (value password)⟩] else rows := by
  have hother : (text "select name from person where name = '").isPrefixOf
      (insertText name password) = false := rfl
  have hother' : (text "select password from person where name = '").isPrefixOf
      (insertText name password) = false := rfl
  have hshape : insertText name password = text "insert into person(name,password)values('" ++
      (name ++ (text "'," ++ (password ++ text ");"))) := by
    simp [insertText, List.append_assoc]
  have hhead : (text "insert into person(name,password)values('").isPrefixOf
      (insertText name password) = true := by
    rw [List.isPrefixOf_iff_prefix, hshape]
    exact List.prefix_append _ _
  have hrest : (insertText name password).drop
      (text "insert into person(name,password)values('").length =
        name ++ (text "'," ++ (password ++ text ");")) := by
    rw [hshape, List.drop_left]
  have hname : literal (name ++ (text "'," ++ (password ++ text ");"))) = name := literal_append h _
  have hvalue : (password ++ text ");").dropLast.dropLast = password := by
    have : password ++ text ");" = password ++ [41] ++ [59] := by
      rw [List.append_assoc]
      rfl
    rw [this, List.dropLast_concat, List.dropLast_concat]
  simp only [personSqlite, hother, hother', hhead, if_true, hrest, hname,
    afterLiteral_append (text "',") h rfl, hvalue, Bool.false_eq_true, if_false]
  split_ifs <;> rfl

theorem personTable_personSqlite : PersonTable personSqlite id where
  selectName db name h := by
    have hhead : (text "select name from person where name = '").isPrefixOf (selectNameText name) =
        true := by
      rw [List.isPrefixOf_iff_prefix, selectNameText, List.append_assoc]
      exact List.prefix_append _ _
    have hname : literal ((selectNameText name).drop
        (text "select name from person where name = '").length) = name := by
      rw [selectNameText, List.append_assoc, List.drop_left]
      exact literal_append h _
    simp only [personSqlite, hhead, if_true, hname]
    exact ⟨trivial, rfl⟩
  selectPassword db name h := by
    have hother : (text "select name from person where name = '").isPrefixOf
        (selectPasswordText name) = false := rfl
    have hhead : (text "select password from person where name = '").isPrefixOf
        (selectPasswordText name) = true := by
      rw [List.isPrefixOf_iff_prefix, selectPasswordText, List.append_assoc]
      exact List.prefix_append _ _
    have hname : literal ((selectPasswordText name).drop
        (text "select password from person where name = '").length) = name := by
      rw [selectPasswordText, List.append_assoc, List.drop_left]
      exact literal_append h _
    simp only [personSqlite, hother, hhead, if_true, hname]
    exact ⟨rfl, rfl⟩
  insertNumber db name password h hnumber := by
    rw [exec_insertText db h, if_pos hnumber]
    rfl
  insertIdentifier db name password h hid := by
    rw [exec_insertText db h, if_neg (not_isNumber_of_isIdentifier hid)]

end LinuxCat.ServerModel
