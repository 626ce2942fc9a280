import LinuxCat.ClientProtocol

/-! # From what is typed to what is asked

A user registers, logs in, talks and logs out, word by word; `main` knows the words only by where it
meets them. Here is what is typed, what is meant by it, and where `main` can be in it. -/
namespace LinuxCat.ClientModel
open ByteLayouts Messages WordScans NumberScans DecimalTexts
open ServerModel (text)
open UserLists (isspace)

/-! ## What is typed -/

/-- A word that its field holds. -/
structure Word (f : Field) where
  bytes : Bytes
  word : IsWord isspace bytes
  zero : 0 ∉ bytes
  length : bytes.length < f.width

/-- What is said in a conversation: a text, or the name of a file. -/
inductive Said
  | message (w : Word .message) (hw : w.bytes ≠ text "sfile" ∧ w.bytes ≠ text "quite")
  | file (filename : Word .filename)

/-- What is chosen in the menu of a user. -/
inductive Talk
  | chat (toname : Word .toname) (said : List Said)
  | all (ms : List { w : Word .message // w.bytes ≠ text "quite" })

/-- What is chosen in the first menu. -/
inductive Visit
  | register (name : Word .name) (password : Word .password)
  | session (name : Word .name) (password : Word .password) (talks : List Talk)

def Said.words : Said → List Bytes
  | .message w _ => [w.bytes]
  | .file filename => [text "sfile", filename.bytes]

def Talk.words : Talk → List Bytes
  | .chat toname said =>
    decimal 1 :: toname.bytes :: (said.flatMap Said.words ++ [text "quite"])
  | .all ms => decimal 2 :: (ms.map (fun w => w.1.bytes) ++ [text "quite"])

def Visit.words : Visit → List Bytes
  | .register name password => [decimal 2, name.bytes, password.bytes]
  | .session name password talks =>
    decimal 1 :: name.bytes :: password.bytes :: (talks.flatMap Talk.words ++ [decimal 3])

/-- All that is typed, up to the choice that ends the program. -/
def script (vs : List Visit) : List Bytes := vs.flatMap Visit.words ++ [decimal 0]

/-! ## What is meant -/

/-- The texts of a record that are meant. -/
abbrev Texts := List (Field × Bytes)

/-- What a record is to ask for. -/
structure Wish where
  action : ℤ
  texts : Texts

def Holds (m : Msg) (texts : Texts) : Prop := ∀ p ∈ texts, (m.get p.1).str = p.2

def Asks (m : Msg) (w : Wish) : Prop := m.action = w.action ∧ Holds m w.texts

def Said.wish (who : Texts) : Said → Wish
  | .message w _ => ⟨2, (.message, w.bytes) :: who⟩
  | .file filename => ⟨3, (.filename, filename.bytes) :: who⟩

def Talk.wishes (who : Texts) : Talk → List Wish
  | .chat toname said =>
    ⟨9, (.toname, toname.bytes) :: who⟩ :: said.map (Said.wish ((.toname, toname.bytes) :: who))
  | .all ms =>
    ms.map (fun w => ⟨4, (.message, w.1.bytes) :: (.toname, text "all") :: who⟩)

/-- The user of a session. -/
def user (name : Word .name) (password : Word .password) : Texts :=
  [(.name, name.bytes), (.password, password.bytes)]

def Visit.wishes : Visit → List Wish
  | .register name password => [⟨0, user name password⟩]
  | .session name password talks =>
    ⟨1, user name password⟩ :: ⟨6, user name password⟩ ::
      (talks.flatMap (Talk.wishes (user name password)) ++ [⟨10, user name password⟩])

def wishes (vs : List Visit) : List Wish := vs.flatMap Visit.wishes

instance (m : Msg) (texts : Texts) : Decidable (Holds m texts) := by
  unfold Holds
  infer_instance

instance (m : Msg) (w : Wish) : Decidable (Asks m w) := inferInstanceAs (Decidable (_ ∧ _))

/-! ## Reading one word -/

theorem Word.str (w : Word f) (a : CharArray f.width) : (a.strcpy w.bytes).str = w.bytes :=
  a.str_strcpy_of w.length.le w.zero

theorem scanfInt_decimal {stdin : Bytes} {n : ℕ} {ws : List Bytes} (hn : n < 2 ^ 31)
    (hin : words isspace stdin = decimal n :: ws) (old : ℤ) :
    ∃ rest, words isspace rest = ws ∧ scanfInt stdin old = ((n : ℤ), rest) := by
  have hds : IsNumber (decimal n) := ⟨decimal_ne_nil n, fun b hb => isDigit_of_mem_decimal hb⟩
  have hspace (b : UInt8) (hb : isDigit b = true) : isspace b = false := by
    have hdigit := isDigit_iff.mp hb
    simp only [isspace, UInt8.le_iff_toNat_le, ← UInt8.toNat_inj]
    simp
    omega
  obtain ⟨rest, hscan, hrest⟩ := scanNumber_of_words_cons hspace hin hds
  have hint : toInt n = n := by
    rw [toInt, min_eq_left (by omega), max_eq_right (by omega)]
    exact Int.bmod_eq_of_le (by omega) (by omega)
  refine ⟨rest, hrest, ?_⟩
  rw [scanfInt, hscan, value_decimal]
  exact congrArg (fun v => (v, rest)) hint

theorem Holds.set {m : Msg} {texts : Texts} (h : Holds m texts) {f : Field}
    (hf : ∀ p ∈ texts, p.1 ≠ f) (a : CharArray f.width) : Holds (m.set f a) ((f, a.str) :: texts) := by
  refine List.forall_mem_cons.mpr ⟨by rw [Msg.get_set], fun p hp => ?_⟩
  rw [Msg.get_set_of_ne _ _ (hf p hp)]
  exact h p hp

theorem Holds.of_cons {m : Msg} {p : Field × Bytes} {texts : Texts} (h : Holds m (p :: texts)) :
    Holds m texts :=
  (List.forall_mem_cons.mp h).2

theorem Holds.congr {m m' : Msg} {texts : Texts} (h : Holds m texts)
    (hget : ∀ f, m'.get f = m.get f) : Holds m' texts := by
  intro p hp
  rw [hget]
  exact h p hp

theorem Holds.action {m : Msg} {texts : Texts} (h : Holds m texts) (action : ℤ) :
    Holds { m with action := action } texts := h.congr fun f => by cases f <;> rfl

/-- A word that fits is put to its field, and the other texts stay. -/
theorem scanf_fits {c : Client} {f : Field} {w : Word f} {ws : List Bytes}
    (hin : words isspace c.stdin = w.bytes :: ws) (next : Client → Client) :
    ∃ stdin pmsg, words isspace stdin = ws ∧ (IsInt c.pmsg.action → pmsg.action = c.pmsg.action) ∧
      (∀ texts, Holds c.pmsg texts → (∀ p ∈ texts, p.1 ≠ f) → Holds pmsg ((f, w.bytes) :: texts)) ∧
      c.scanf f next = next { c with stdin := stdin, pmsg := pmsg } := by
  obtain ⟨rest, ended, hscan, hrest⟩ := scan_of_words_cons hin
  have hpmsg := c.pmsg.scanned_of_fits (f := f) w.length
  refine ⟨rest, _, hrest, fun hact => Msg.action_scanned hact hpmsg, fun texts hm hf => ?_, ?_⟩
  · have hset := hm.set hf ((c.pmsg.get f).strcpy w.bytes)
    rw [w.str] at hset
    exact hset.congr fun g => Msg.get_ofBytes_toBytes _ g
  · rw [scanf_of_word next (by rw [hscan]) hpmsg, hscan]

/-! ## Where `main` is in what is typed -/

section

variable (name : Word .name) (password : Word .password) (toname : Word .toname)
  (filename : Word .filename) (said : List Said)
  (ms : List { w : Word .message // w.bytes ≠ text "quite" }) (talks : List Talk) (vs : List Visit)

/-- What is typed from the menu of a user on, from a place in a conversation, and from one among
what is said to all. -/
def homeWords : List Bytes := talks.flatMap Talk.words ++ decimal 3 :: script vs

def chatWords : List Bytes := said.flatMap Said.words ++ text "quite" :: homeWords talks vs

def allWords : List Bytes := ms.map (fun w => w.1.bytes) ++ text "quite" :: homeWords talks vs

/-- What is still to be asked for there. -/
def homeWishes : List Wish :=
  talks.flatMap (Talk.wishes (user name password)) ++ ⟨10, user name password⟩ :: wishes vs

def chatWishes : List Wish :=
  said.map (Said.wish ((.toname, toname.bytes) :: user name password)) ++
    homeWishes name password talks vs

def allWishes : List Wish :=
  ms.map (fun w => ⟨4, (.message, w.1.bytes) :: (.toname, text "all") :: user name password⟩) ++
    homeWishes name password talks vs

end

/-- With what `main` has in its variables it is behind what is typed, up to these words, and has
still to ask for these. -/
inductive Behind (lognum : ℤ) (m : Msg) : Pc → List Bytes → List Wish → Prop
  | top (vs) : Behind lognum m .top (script vs) (wishes vs)
  | menu (vs) (hlognum : lognum = 0) : Behind lognum m .menu (script vs) (wishes vs)
  | regName (name password vs) (hact : m.action = 0) :
      Behind lognum m .regName (name.bytes :: password.bytes :: script vs)
        (⟨0, user name password⟩ :: wishes vs)
  | regPassword (name : Word .name) (password vs) (hact : m.action = 0)
      (hm : Holds m [(.name, name.bytes)]) :
      Behind lognum m .regPassword (password.bytes :: script vs)
        (⟨0, user name password⟩ :: wishes vs)
  | logName (name password talks vs) (hlognum : lognum = 0) (hact : m.action = 1) :
      Behind lognum m .logName (name.bytes :: password.bytes :: homeWords talks vs)
        (⟨1, user name password⟩ :: ⟨6, user name password⟩ :: homeWishes name password talks vs)
  | logPassword (name : Word .name) (password talks vs) (hlognum : lognum = 0) (hact : m.action = 1)
      (hm : Holds m [(.name, name.bytes)]) :
      Behind lognum m .logPassword (password.bytes :: homeWords talks vs)
        (⟨1, user name password⟩ :: ⟨6, user name password⟩ :: homeWishes name password talks vs)
  /-- the answer to the login is not yet there, or not yet seen -/
  | login (name password talks vs) (pc : Pc) (hpc : pc.loggingIn) (hlognum : lognum = 0 ∨ lognum = 1)
      (hm : Holds m (user name password)) :
      Behind lognum m pc (homeWords talks vs)
        (⟨6, user name password⟩ :: homeWishes name password talks vs)
  /-- the user has logged out -/
  | finished (vs) (hlognum : lognum = 3) : Behind lognum m .test3 (script vs) (wishes vs)
  | home (name password talks vs) (hm : Holds m (user name password)) :
      Behind lognum m .home (homeWords talks vs) (homeWishes name password talks vs)
  /-- the choices, until their tests -/
  | chosenChat (name password) (toname : Word .toname) (said talks vs) (hlognum : lognum = 1)
      (hm : Holds m (user name password)) :
      Behind lognum m .home1 (toname.bytes :: chatWords said talks vs)
        (⟨9, (.toname, toname.bytes) :: user name password⟩ ::
          chatWishes name password toname said talks vs)
  | chosenAll (name password ms talks vs) (pc : Pc) (hpc : pc = .home1 ∨ pc = .home2)
      (hlognum : lognum = 2) (hm : Holds m (user name password)) :
      Behind lognum m pc (allWords ms talks vs) (allWishes name password ms talks vs)
  | chosenQuite (name password vs) (pc : Pc) (hpc : pc = .home1 ∨ pc = .home2 ∨ pc = .home3)
      (hlognum : lognum = 3) (hm : Holds m (user name password)) :
      Behind lognum m pc (script vs) (⟨10, user name password⟩ :: wishes vs)
  | toname (name password) (toname : Word .toname) (said talks vs) (hm : Holds m (user name password)) :
      Behind lognum m .toname (toname.bytes :: chatWords said talks vs)
        (⟨9, (.toname, toname.bytes) :: user name password⟩ ::
          chatWishes name password toname said talks vs)
  /-- in a conversation -/
  | chat (name password) (toname : Word .toname) (said talks vs) (pc : Pc)
      (hpc : pc = .chat ∨ pc = .waitId)
      (hm : Holds m ((.toname, toname.bytes) :: user name password)) :
      Behind lognum m pc (chatWords said talks vs) (chatWishes name password toname said talks vs)
  | filename (name password) (toname : Word .toname) (filename : Word .filename) (said talks vs)
      (hm : Holds m ((.toname, toname.bytes) :: user name password)) :
      Behind lognum m .filename (filename.bytes :: chatWords said talks vs)
        (⟨3, (.filename, filename.bytes) :: (.toname, toname.bytes) :: user name password⟩ ::
          chatWishes name password toname said talks vs)
  | openFile (name password) (toname : Word .toname) (filename : Word .filename) (said talks vs)
      (hm : Holds m ((.filename, filename.bytes) :: (.toname, toname.bytes) :: user name password)) :
      Behind lognum m .openFile (chatWords said talks vs)
        (⟨3, (.filename, filename.bytes) :: (.toname, toname.bytes) :: user name password⟩ ::
          chatWishes name password toname said talks vs)
  | all (name password ms talks vs)
      (hm : Holds m ((.toname, text "all") :: user name password)) :
      Behind lognum m .all (allWords ms talks vs) (allWishes name password ms talks vs)
  | exited : Behind lognum m .exited [] []

/-- A bound on the steps of `main` up to the next word. -/
def Pc.rank : Pc → ℕ
  | .top | .test1 | .waitId => 1
  | .testMinus1 | .openFile => 2
  | .test3 => 3
  | .home3 => 4
  | .home2 => 5
  | .home1 => 6
  | _ => 0

namespace Client

def IsBehind (c : Client) (todo : List Wish) : Prop :=
  Behind c.lognum c.pmsg c.pc (words isspace c.stdin) todo

/-- A bound on the steps of `main` that are left, without those in which it waits for a login. -/
def left (c : Client) : ℕ := 8 * (words isspace c.stdin).length + c.pc.rank

end Client

end LinuxCat.ClientModel
