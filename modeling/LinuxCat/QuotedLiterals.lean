import Mathlib.Data.List.Induction

/-! # Statements with quoted literals

A literal starts and ends with the quote, and two quotes inside it stand for one. A statement that
is put together without doubling them is read back as it was meant exactly if no value has a
quote. -/
namespace QuotedLiterals

variable {α : Type*} {q c : α} {v code cs : List α}

/-- The code before the first literal, and each value with the code behind it. -/
def statement (q : α) (first : List α) (rest : List (List α × List α)) : List α :=
  first ++ rest.flatMap (fun p => q :: (p.1 ++ q :: p.2))

def segments (first : List α) (rest : List (List α × List α)) : List (List α) :=
  first :: rest.flatMap (fun p => [p.1, p.2])

theorem statement_cons (first value : List α) (rest : List (List α × List α)) :
    statement q first ((value, code) :: rest) =
      first ++ q :: (value ++ q :: statement q code rest) := by
  simp [statement]

theorem segments_cons (first value : List α) (rest : List (List α × List α)) :
    segments first ((value, code) :: rest) = first :: value :: segments code rest := rfl

theorem modifyHead_cons_eq {s : List α} {ss ss' : List (List α)} {d : α}
    (h : ss'.modifyHead (List.cons d) = s :: ss) : ∃ s', s = d :: s' ∧ ss' = s' :: ss := by
  cases ss' with
  | nil => cases h
  | cons s' ss' =>
    obtain ⟨rfl, rfl⟩ := List.cons.inj h
    exact ⟨s', rfl, rfl⟩

variable [DecidableEq α]

/-- The segments of a text by turns: what stands outside of literals, and the value of a literal.
The flag says that the text starts inside one; none when it ends inside one. -/
def lex (q : α) : Bool → List α → Option (List (List α))
  | false, [] => some [[]]
  | true, [] => none
  | false, c :: cs =>
    if c = q then (lex q true cs).map (List.cons [])
    else (lex q false cs).map (List.modifyHead (List.cons c))
  | true, [c] => if c = q then some [[], []] else none
  | true, c :: d :: cs =>
    if c = q then
      if d = q then (lex q true cs).map (List.modifyHead (List.cons q))
      else (lex q false (d :: cs)).map (List.cons [])
    else (lex q true (d :: cs)).map (List.modifyHead (List.cons c))

theorem lex_nil : lex q false [] = some [[]] := rfl

theorem lex_code_cons (c : α) (cs : List α) :
    lex q false (c :: cs) =
      if c = q then (lex q true cs).map (List.cons [])
      else (lex q false cs).map (List.modifyHead (List.cons c)) := rfl

theorem lex_literal_singleton (c : α) :
    lex q true [c] = if c = q then some [[], []] else none := rfl

theorem lex_literal_cons (c d : α) (cs : List α) :
    lex q true (c :: d :: cs) =
      if c = q then
        if d = q then (lex q true cs).map (List.modifyHead (List.cons q))
        else (lex q false (d :: cs)).map (List.cons [])
      else (lex q true (d :: cs)).map (List.modifyHead (List.cons c)) := rfl

/-! ## Outside of literals -/

theorem lex_code_append (hcode : q ∉ code) (cs : List α) :
    lex q false (code ++ cs) = (lex q false cs).map (List.modifyHead (code ++ ·)) := by
  induction code with
  | nil =>
    have hid : List.modifyHead (([] : List α) ++ ·) = id := by
      funext ss
      cases ss <;> rfl
    rw [hid, Option.map_id]
    rfl
  | cons c code ih =>
    obtain ⟨hc, hrest⟩ := not_or.mp (List.mem_cons.not.mp hcode)
    rw [List.cons_append, lex_code_cons, if_neg (Ne.symm hc), ih hrest, Option.map_map]
    congr 1
    funext ss
    cases ss <;> rfl

theorem lex_quote (cs : List α) : lex q false (q :: cs) = (lex q true cs).map (List.cons []) := by
  rw [lex_code_cons, if_pos rfl]

/-! ## Inside a literal -/

/-- A character that is no quote is its own. -/
theorem lex_cons_of_ne (hc : c ≠ q) (hcs : cs ≠ []) :
    lex q true (c :: cs) = (lex q true cs).map (List.modifyHead (List.cons c)) := by
  obtain ⟨d, cs, rfl⟩ := List.exists_cons_of_ne_nil hcs
  rw [lex_literal_cons, if_neg hc]

/-- One quote ends the literal. -/
theorem lex_closing (hc : c ≠ q) (cs : List α) :
    lex q true (q :: c :: cs) = (lex q false (c :: cs)).map (List.cons []) := by
  rw [lex_literal_cons, if_pos rfl, if_neg hc]

theorem lex_doubled (cs : List α) :
    lex q true (q :: q :: cs) = (lex q true cs).map (List.modifyHead (List.cons q)) := by
  rw [lex_literal_cons, if_pos rfl, if_pos rfl]

theorem lex_literal (hv : q ∉ v) (hc : c ≠ q) (cs : List α) :
    lex q true (v ++ q :: c :: cs) = (lex q false (c :: cs)).map (List.cons v) := by
  induction v with
  | nil => exact lex_closing hc cs
  | cons d v ih =>
    obtain ⟨hd, hrest⟩ := not_or.mp (List.mem_cons.not.mp hv)
    rw [List.cons_append, lex_cons_of_ne (Ne.symm hd) (by simp), ih hrest, Option.map_map]
    rfl

/-- A literal that starts with a character other than a quote has it for its first one. -/
theorem head_of_lex (hc : c ≠ q) {s : List α} {ss : List (List α)}
    (h : lex q true (c :: cs) = some (s :: ss)) : ∃ s', s = c :: s' ∧ lex q true cs = some (s' :: ss) := by
  by_cases hcs : cs = []
  · rw [hcs, lex_literal_singleton, if_neg hc] at h
    cases h
  · rw [lex_cons_of_ne hc hcs] at h
    obtain ⟨ss', hlex, h⟩ := Option.map_eq_some_iff.mp h
    obtain ⟨s', rfl, rfl⟩ := modifyHead_cons_eq h
    exact ⟨s', rfl, hlex⟩

/-- A value is read back as it was written only if it has no quote: once two quotes are taken for
one, the reader is ahead of the writer, here by `k` quotes, and stays so. -/
theorem quote_notMem_of_lex (hc : c ≠ q) {ss : List (List α)} {k : ℕ}
    (h : lex q true (v ++ q :: c :: cs) = some ((List.replicate k q ++ v) :: ss)) :
    k = 0 ∧ q ∉ v := by
  induction v using List.twoStepInduction generalizing k with
  | nil =>
    rw [List.nil_append, lex_closing hc] at h
    obtain ⟨ss', -, h⟩ := Option.map_eq_some_iff.mp h
    cases k with
    | zero => simp
    | succ k => cases h
  | singleton d =>
    by_cases hd : d = q
    · subst hd
      rw [List.singleton_append, lex_doubled] at h
      obtain ⟨ss', hlex, h⟩ := Option.map_eq_some_iff.mp h
      obtain ⟨s', hs', rfl⟩ := modifyHead_cons_eq h
      obtain ⟨s'', rfl, -⟩ := head_of_lex hc hlex
      rw [← List.replicate_succ', List.replicate_succ] at hs'
      have hmem : c ∈ List.replicate k d := by
        rw [(List.cons.inj hs').2]
        exact List.mem_cons_self
      exact absurd (List.eq_of_mem_replicate hmem) hc
    · obtain ⟨s', hs', -⟩ := head_of_lex hd h
      cases k with
      | zero => simpa using Ne.symm hd
      | succ k => exact absurd (List.cons.inj hs').1.symm hd
  | cons_cons d e v ih ih' =>
    by_cases hd : d = q
    · subst hd
      by_cases he : e = d
      · subst he
        rw [List.cons_append, List.cons_append, lex_doubled] at h
        obtain ⟨ss', hlex, h⟩ := Option.map_eq_some_iff.mp h
        obtain ⟨s', hs', rfl⟩ := modifyHead_cons_eq h
        have hsplit : List.replicate k e ++ e :: e :: v = e :: (List.replicate (k + 1) e ++ v) := by
          rw [← List.cons_append, ← List.replicate_succ, List.replicate_succ', List.replicate_succ']
          simp
        rw [← (List.cons.inj (hsplit.symm.trans hs')).2] at hlex
        exact absurd (ih hlex).1 (Nat.succ_ne_zero k)
      · rw [List.cons_append, List.cons_append, lex_closing he] at h
        obtain ⟨ss', -, h⟩ := Option.map_eq_some_iff.mp h
        cases k <;> cases h
    · obtain ⟨s', hs', hlex⟩ := head_of_lex hd h
      cases k with
      | zero =>
        rw [← (List.cons.inj hs').2] at hlex
        have hrest := (ih' e (k := 0) hlex).2
        exact ⟨rfl, List.mem_cons.not.mpr (not_or.mpr ⟨Ne.symm hd, hrest⟩)⟩
      | succ k => exact absurd (List.cons.inj hs').1.symm hd

/-! ## Whole statements -/

/-- A statement is read back as it was meant exactly if no value has a quote. -/
theorem lex_statement_iff {first : List α} {rest : List (List α × List α)} (hfirst : q ∉ first)
    (hcode : ∀ p ∈ rest, p.2 ≠ [] ∧ q ∉ p.2) :
    lex q false (statement q first rest) = some (segments first rest) ↔ ∀ p ∈ rest, q ∉ p.1 := by
  induction rest generalizing first with
  | nil =>
    have h := lex_code_append hfirst []
    simpa [statement, segments, lex_nil] using h
  | cons p rest ih =>
    obtain ⟨value, code⟩ := p
    obtain ⟨hne, hquote⟩ := hcode (value, code) List.mem_cons_self
    obtain ⟨c, code', rfl⟩ := List.exists_cons_of_ne_nil hne
    have hc : c ≠ q := fun h => hquote (h ▸ List.mem_cons_self)
    have hrest := ih hquote fun p hp => hcode p (List.mem_cons_of_mem _ hp)
    have hbehind : statement q (c :: code') rest =
        c :: (code' ++ rest.flatMap (fun p => q :: (p.1 ++ q :: p.2))) := rfl
    have hliteral : lex q false (statement q first ((value, c :: code') :: rest)) =
        some (segments first ((value, c :: code') :: rest)) ↔
        lex q true (value ++ q :: statement q (c :: code') rest) =
          some (value :: segments (c :: code') rest) := by
      rw [statement_cons, lex_code_append hfirst, lex_quote, segments_cons, Option.map_map,
        Option.map_eq_some_iff]
      simp
    rw [hliteral, List.forall_mem_cons]
    constructor
    · intro h
      rw [hbehind] at h
      have hvalue := (quote_notMem_of_lex (k := 0) hc h).2
      refine ⟨hvalue, hrest.mp ?_⟩
      rw [lex_literal hvalue hc] at h
      obtain ⟨ss, hlex, h⟩ := Option.map_eq_some_iff.mp h
      rw [hbehind, hlex, (List.cons.inj h).2]
    · rintro ⟨hvalue, hvalues⟩
      rw [hbehind, lex_literal hvalue hc, ← hbehind, hrest.mpr hvalues]
      rfl

end QuotedLiterals
