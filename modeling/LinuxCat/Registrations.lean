import LinuxCat.PersonTable

/-! # A registration and the login behind it

The insert writes the password without quotes, so what is stored is what SQLite takes the text
for. The login compares with what is stored. -/
namespace LinuxCat.ServerModel
open ByteLayouts Messages DecimalTexts

variable {DB : Type} {sql : Sqlite DB} {person : DB → List Person}

/-- The record `reg_user` sends. -/
def regUser (name password : Bytes) : Msg :=
  { Msg.zero with action := 0, name := .ofBytes 20 name, password := .ofBytes 20 password }

/-- What `scanf("%s")` reads into a field of 20 bytes, when there is no quote in it. -/
structure Entered (bs : Bytes) : Prop where
  ne_nil : bs ≠ []
  length : bs.length ≤ 19
  blank : ∀ b ∈ bs, b ≠ 0 ∧ b ≠ 32 ∧ ¬ (9 ≤ b ∧ b ≤ 13)
  quote : quote ∉ bs

/-- A handler's steps on a registration: the `switch`, and the insert if it comes to it. -/
def register (sql : Sqlite DB) (srv : Server DB) (cfd : ℤ) (junk : CharArray 20) (m : Msg) :
    Option (Server DB) :=
  (threadReadPc sql srv cfd .recv (.record m junk)).bind (fun r =>
    if r.2 = .recv then some r.1 else (threadReadPc sql r.1 cfd r.2 .go).map Prod.fst)

/-- The registration leaves one row of the name, and a login with the password is accepted. -/
def RoundTrips (sql : Sqlite DB) (person : DB → List Person) (srv : Server DB) (cfd : ℤ)
    (junk : CharArray 20) (name password : Bytes) : Prop :=
  ∃ srv', register sql srv cfd junk (regUser name password) = some srv' ∧
    ((person srv'.db).filter (fun p => p.name = name)).length = 1 ∧
    ∀ junk', credentialCheck sql junk' srv'.db { regUser name password with action := 1 } = some 1

/-- A number without a leading zero, or of zeros only; and the buffer of `queryname`, as the stack
left it, holds no beginning of the name. -/
structure Registrable (junk : CharArray 20) (name password : Bytes) : Prop where
  number : IsNumber password
  leading : password.head? ≠ some 48 ∨ ∀ b ∈ password, b = 48
  buffer : ¬ (junk.str ≠ [] ∧ junk.str <+: name)

theorem Entered.str_ofBytes {bs : Bytes} (h : Entered bs) : (CharArray.ofBytes 20 bs).str = bs :=
  CharArray.str_ofBytes (h.length.trans (by norm_num)) (fun hz => (h.blank 0 hz).1 rfl)

section Steps
variable {srv : Server DB} {cfd : ℤ} {junk : CharArray 20} {name password : Bytes}

theorem register_eq : register sql srv cfd junk (regUser name password) =
    some (if 1 = (queryname sql srv.db junk (regUser name password)).2 then
      { srv with db := (queryname sql srv.db junk (regUser name password)).1 }.write cfd
        (.record { regUser name password with action := 255 })
    else { srv with
      db := (sql.exec (queryname sql srv.db junk (regUser name password)).1
        (insertPersonText (regUser name password))).1 }) := by
  have hdispatch : threadReadPc sql srv cfd .recv (.record (regUser name password) junk) =
      some (case0 sql junk srv cfd (regUser name password)) := rfl
  simp only [register, hdispatch, Option.bind_some, case0]
  split_ifs with hq hpc hpc
  · rfl
  · exact absurd rfl hpc
  · cases hpc
  · rfl

theorem queryname_regUser (h : PersonTable sql person) (junk : CharArray 20) (password : Bytes)
    (hname : Entered name)
    (hfree : name ∉ names (person srv.db)) :
    person (queryname sql srv.db junk (regUser name password)).1 = person srv.db ∧
      (1 = (queryname sql srv.db junk (regUser name password)).2 ↔
        junk.str ≠ [] ∧ junk.str <+: name) := by
  have hstr : (regUser name password).name.str = name := hname.str_ofBytes
  obtain ⟨hkeep, hquery⟩ := h.selectsNames.queryname_eq srv.db junk (m := regUser name password)
    (by rw [hstr]; exact hname.quote) (by rw [hstr]; exact hname.ne_nil)
  rw [hstr] at hquery
  refine ⟨hkeep, ?_⟩
  rw [eq_comm, hquery]
  exact or_iff_right hfree

theorem filter_eq_nil_of_free {rows : List Person} (hfree : name ∉ names rows) :
    rows.filter (fun p => p.name = name) = [] := by
  rw [List.filter_eq_nil_iff]
  intro p hp hpname
  exact hfree (List.mem_map.mpr ⟨p, hp, by simpa using hpname⟩)

/-- A registration that leaves the table as it was is lost. -/
theorem not_roundTrips_of_unchanged (hfree : name ∉ names (person srv.db))
    (hkept : ∀ srv', register sql srv cfd junk (regUser name password) = some srv' →
      person srv'.db = person srv.db) :
    ¬ RoundTrips sql person srv cfd junk name password := by
  rintro ⟨srv', hr, hone, -⟩
  rw [hkept srv' hr, filter_eq_nil_of_free hfree] at hone
  cases hone

/-- A name is refused when the buffer happens to hold a beginning of it. -/
theorem not_roundTrips_of_buffer (h : PersonTable sql person) (hname : Entered name)
    (hfree : name ∉ names (person srv.db)) (hjunk : junk.str ≠ [] ∧ junk.str <+: name) :
    ¬ RoundTrips sql person srv cfd junk name password := by
  obtain ⟨hkeep, hquery⟩ := queryname_regUser h junk password hname hfree
  refine not_roundTrips_of_unchanged hfree fun srv' hr => ?_
  rw [register_eq, if_pos (hquery.mpr hjunk)] at hr
  cases hr
  exact hkeep

/-- What the insert finds, and where it leaves the server. -/
theorem register_inserts (h : PersonTable sql person) (cfd : ℤ) (hname : Entered name)
    (hpassword : Entered password) (hfree : name ∉ names (person srv.db))
    (hjunk : ¬ (junk.str ≠ [] ∧ junk.str <+: name)) :
    ∃ db, person db = person srv.db ∧ register sql srv cfd junk (regUser name password) =
      some { srv with db := (sql.exec db (insertText name password)).1 } := by
  obtain ⟨hkeep, hquery⟩ := queryname_regUser h junk password hname hfree
  refine ⟨_, hkeep, ?_⟩
  rw [register_eq, if_neg (fun hq => hjunk (hquery.mp hq))]
  have htext : insertPersonText (regUser name password) = insertText name password := by
    change text _ ++ (CharArray.ofBytes 20 name).str ++ text "'," ++
      (CharArray.ofBytes 20 password).str ++ text ");" = _
    rw [hname.str_ofBytes, hpassword.str_ofBytes]
    rfl
  rw [htext]

/-- A number is stored as its canonical text, which the login accepts for every password that
begins with it. -/
theorem roundTrips_iff_of_number (h : PersonTable sql person) (hname : Entered name)
    (hpassword : Entered password) (hfree : name ∉ names (person srv.db))
    (hnumber : IsNumber password) :
    RoundTrips sql person srv cfd junk name password ↔ Registrable junk name password := by
  by_cases hjunk : junk.str ≠ [] ∧ junk.str <+: name
  · exact iff_of_false (not_roundTrips_of_buffer h hname hfree hjunk) (fun hr => hr.buffer hjunk)
  obtain ⟨db, hdb, hr⟩ := register_inserts h cfd hname hpassword hfree hjunk
  have hrow : (person (sql.exec db (insertText name password)).1).filter
      (fun p => p.name = name) = [⟨name, decimal (value password)⟩] := by
    rw [h.insertNumber db name password hname.quote hnumber, hdb, List.filter_append,
      filter_eq_nil_of_free hfree]
    simp
  have hlen : (decimal (value password)).length ≤ 20 :=
    (length_decimal_value_le hnumber).trans (hpassword.length.trans (by norm_num))
  have hzero : 0 ∉ decimal (value password) := fun hz => by
    have := isDigit_iff.mp (isDigit_of_mem_decimal hz)
    simp at this
  have hcheck (junk' : CharArray 20) : credentialCheck sql junk'
      (sql.exec db (insertText name password)).1 { regUser name password with action := 1 } =
        some 1 ↔ decimal (value password) <+: password := by
    let login := { regUser name password with action := 1 }
    have hn : login.name.str = name := hname.str_ofBytes
    have hp : login.password.str = password := hpassword.str_ofBytes
    have hquery := h.querypassword_eq junk' (m := login) (by rw [hn]; exact hname.quote)
      (by rw [hp]; exact hpassword.ne_nil) (by rw [hn]; exact hrow) hlen hzero
    have hcred : credentialCheck sql junk' (sql.exec db (insertText name password)).1 login =
        some (querypassword sql (sql.exec db (insertText name password)).1 junk' login).2 := rfl
    rw [hcred, Option.some.injEq, hquery, hp]
    exact and_iff_right (decimal_ne_nil _)
  constructor
  · rintro ⟨srv', hr', -, haccepted⟩
    obtain rfl := Option.some.inj (hr.symm.trans hr')
    exact ⟨hnumber, (decimal_value_prefix_iff hnumber).mp ((hcheck junk).mp (haccepted junk)), hjunk⟩
  · intro hreg
    refine ⟨_, hr, by rw [hrow]; rfl, fun junk' => ?_⟩
    exact (hcheck junk').mpr ((decimal_value_prefix_iff hnumber).mpr hreg.leading)

/-- A word is an error nobody reports. -/
theorem not_roundTrips_of_identifier (h : PersonTable sql person) (hname : Entered name)
    (hpassword : Entered password) (hfree : name ∉ names (person srv.db))
    (hid : IsIdentifier password) : ¬ RoundTrips sql person srv cfd junk name password := by
  by_cases hjunk : junk.str ≠ [] ∧ junk.str <+: name
  · exact not_roundTrips_of_buffer h hname hfree hjunk
  obtain ⟨db, hdb, hr⟩ := register_inserts h cfd hname hpassword hfree hjunk
  refine not_roundTrips_of_unchanged hfree fun srv' hr' => ?_
  obtain rfl := Option.some.inj (hr.symm.trans hr')
  exact (h.insertIdentifier db name password hname.quote hid).trans hdb

end Steps

/-- In the executable table every password that is no number is lost. -/
theorem not_roundTrips_personSqlite {junk : CharArray 20} {name password : Bytes}
    (hname : Entered name) (hpassword : Entered password) (hnumber : ¬ IsNumber password) :
    ¬ RoundTrips personSqlite id (Server.start []) 0 junk name password := by
  have hfree : name ∉ names (id (Server.start ([] : List Person)).db) := by simp [names, Server.start]
  by_cases hjunk : junk.str ≠ [] ∧ junk.str <+: name
  · exact not_roundTrips_of_buffer personTable_personSqlite hname hfree hjunk
  obtain ⟨db, hdb, hr⟩ :=
    register_inserts personTable_personSqlite 0 hname hpassword hfree hjunk
  refine not_roundTrips_of_unchanged hfree fun srv' hr' => ?_
  obtain rfl := Option.some.inj (hr.symm.trans hr')
  rw [id, exec_insertText db hname.quote, if_neg hnumber]
  exact hdb

/-- The round trip holds in every table that meets the assumption exactly if the password is a
canonical number or only zeros, and the buffer is harmless; and where the assumption says what
becomes of the password, it holds in each table under the same condition. -/
theorem registration_roundTrips_iff {name password : Bytes} (hname : Entered name)
    (hpassword : Entered password) (junk : CharArray 20) :
    ((∀ (DB : Type) (sql : Sqlite DB) (person : DB → List Person) (srv : Server DB) (cfd : ℤ),
        PersonTable sql person → name ∉ names (person srv.db) →
        RoundTrips sql person srv cfd junk name password) ↔ Registrable junk name password) ∧
      (IsNumber password ∨ IsIdentifier password →
        ∀ (DB : Type) (sql : Sqlite DB) (person : DB → List Person) (srv : Server DB) (cfd : ℤ),
          PersonTable sql person → name ∉ names (person srv.db) →
          (RoundTrips sql person srv cfd junk name password ↔ Registrable junk name password)) := by
  refine ⟨⟨fun hall => ?_, fun hreg DB sql person srv cfd h hfree => ?_⟩, ?_⟩
  · have hfree : name ∉ names (id (Server.start ([] : List Person)).db) := by
      simp [names, Server.start]
    have htrip := hall _ personSqlite id (Server.start []) 0 personTable_personSqlite hfree
    by_cases hnumber : IsNumber password
    · exact (roundTrips_iff_of_number personTable_personSqlite hname hpassword hfree hnumber).mp htrip
    · exact absurd htrip (not_roundTrips_personSqlite hname hpassword hnumber)
  · exact (roundTrips_iff_of_number h hname hpassword hfree hreg.number).mpr hreg
  · rintro (hnumber | hid) DB sql person srv cfd h hfree
    · exact roundTrips_iff_of_number h hname hpassword hfree hnumber
    · refine iff_of_false (not_roundTrips_of_identifier h hname hpassword hfree hid) fun hreg => ?_
      exact not_isNumber_of_isIdentifier hid hreg.number

theorem entered_r : Entered [114] := ⟨by decide, by decide, by decide +kernel, by decide⟩

/-- `r` registers with `42`. -/
theorem registration_fortyTwo :
    RoundTrips personSqlite id (Server.start []) 0 (.zero 20) [114] [52, 50] :=
  (registration_roundTrips_iff entered_r ⟨by decide, by decide, by decide +kernel, by decide⟩
    (.zero 20)).1.mpr ⟨by decide +kernel, by decide, by decide⟩ _ personSqlite id (Server.start []) 0
    personTable_personSqlite (by decide)

/-- `r` registers with `007`, which is stored as `7` and not accepted, or with `abc`, which is not
stored at all. -/
theorem registration_lost :
    Entered [48, 48, 55] ∧ Entered [97, 98, 99] ∧
      (∃ srv, register personSqlite (Server.start []) 0 (.zero 20) (regUser [114] [48, 48, 55]) =
        some srv ∧ srv.db = [⟨[114], [55]⟩]) ∧
      ¬ RoundTrips personSqlite id (Server.start []) 0 (.zero 20) [114] [48, 48, 55] ∧
      (∃ srv, register personSqlite (Server.start []) 0 (.zero 20) (regUser [114] [97, 98, 99]) =
        some srv ∧ srv.db = [] ∧ srv.written = []) ∧
      ¬ RoundTrips personSqlite id (Server.start []) 0 (.zero 20) [114] [97, 98, 99] := by
  have hseven : Entered [48, 48, 55] := ⟨by decide, by decide, by decide +kernel, by decide⟩
  have habc : Entered [97, 98, 99] := ⟨by decide, by decide, by decide +kernel, by decide⟩
  refine ⟨hseven, habc, ⟨_, rfl, by decide +kernel⟩, fun htrip => ?_, ⟨_, rfl, by decide, by decide⟩, ?_⟩
  · have hreg := (roundTrips_iff_of_number personTable_personSqlite entered_r hseven
      (by decide +kernel) (by decide +kernel)).mp htrip
    exact absurd hreg.leading (by decide)
  · exact not_roundTrips_personSqlite entered_r habc (by decide)

end LinuxCat.ServerModel
