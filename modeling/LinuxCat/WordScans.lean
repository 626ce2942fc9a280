import Mathlib.Data.List.TakeWhile

/-! # Scanning a text word by word

The conversion `%s` of `fscanf`: it skips space, takes what follows up to the next space, and
notices the end of the text only when it looks for a character that is not there. -/
namespace WordScans

variable {α : Type*}

/-- The word that was found, what is left of the text, and whether its end was met. -/
structure Scan (α : Type*) where
  word : Option (List α)
  rest : List α
  ended : Bool
  deriving DecidableEq, Repr

variable (space : α → Bool)

def scan (cs : List α) : Scan α :=
  let found := cs.dropWhile space
  let rest := found.dropWhile (fun c => !space c)
  if found.isEmpty then ⟨none, [], true⟩
  else ⟨some (found.takeWhile (fun c => !space c)), rest, rest.isEmpty⟩

/-- The words of a text: not empty, and without space. -/
def IsWord (w : List α) : Prop := w ≠ [] ∧ ∀ c ∈ w, space c = false

instance [DecidableEq α] (w : List α) : Decidable (IsWord space w) :=
  inferInstanceAs (Decidable (_ ∧ _))

/-- All words of a text, in their order. -/
def words (cs : List α) : List (List α) := (cs.splitOnP space).filter (fun w => !w.isEmpty)

variable {space} {w : List α}

theorem scan_cons_space {c : α} (hc : space c = true) (cs : List α) :
    scan space (c :: cs) = scan space cs := by
  simp only [scan, List.dropWhile_cons_of_pos hc]

/-- A word, and what follows it without space. -/
theorem scan_word_append (hw : IsWord space w) (cs : List α) :
    scan space (w ++ cs) = ⟨some (w ++ cs.takeWhile (fun c => !space c)),
      cs.dropWhile (fun c => !space c), (cs.dropWhile (fun c => !space c)).isEmpty⟩ := by
  obtain ⟨hne, hspace⟩ := hw
  obtain ⟨c, w, rfl⟩ := List.exists_cons_of_ne_nil hne
  have hhead : ¬ space c = true := by simp [hspace c List.mem_cons_self]
  have hall : ∀ d ∈ c :: w, (!space d) = true := by
    intro d hd
    simp [hspace d hd]
  have hfound : (c :: w ++ cs).dropWhile space = c :: w ++ cs :=
    List.dropWhile_cons_of_neg hhead
  simp only [scan, hfound, List.takeWhile_append_of_pos hall, List.dropWhile_append_of_pos hall]
  rfl

/-- The last word of a text that ends with it. -/
theorem scan_last (hw : IsWord space w) : scan space w = ⟨some w, [], true⟩ := by
  have h := scan_word_append hw []
  simpa using h

/-- A word with space behind it; the end of the text is not met. -/
theorem scan_before_space (hw : IsWord space w) {c : α} (hc : space c = true) (cs : List α) :
    scan space (w ++ c :: cs) = ⟨some w, c :: cs, false⟩ := by
  rw [scan_word_append hw]
  simp [hc]

/-- A scan that does not meet the end has taken something. -/
theorem scan_rest_lt {cs : List α} (h : (scan space cs).ended = false) :
    (scan space cs).rest.length < cs.length := by
  simp only [scan] at h ⊢
  split_ifs at h ⊢ with hfound
  have hne : cs.dropWhile space ≠ [] := by simpa using hfound
  have hhead : space ((cs.dropWhile space).head hne) = false :=
    List.head_dropWhile_not space hne
  have hsplit := List.cons_head_tail hne
  rw [← hsplit, List.dropWhile_cons_of_pos (by simp [hhead])]
  have htail := (List.dropWhile_suffix (fun c => !space c) (l := (cs.dropWhile space).tail)).length_le
  have hlen := congrArg List.length hsplit
  have hdrop := (List.dropWhile_suffix space (l := cs)).length_le
  rw [List.length_cons] at hlen
  exact lt_of_le_of_lt htail (by omega)

/-! ## Reading a text by its words -/

theorem words_append_space (cs : List α) {c : α} (hc : space c = true) (cs' : List α) :
    words space (cs ++ c :: cs') = words space cs ++ words space cs' := by
  rw [words, List.splitOnP_append_cons cs cs' hc, List.filter_append]
  rfl

theorem words_cons_space {c : α} (hc : space c = true) (cs : List α) :
    words space (c :: cs) = words space cs := words_append_space [] hc cs

theorem words_of_isWord (hw : IsWord space w) : words space w = [w] := by
  rw [words, List.splitOnP_eq_singleton hw.2]
  simp [hw.1]

theorem words_append_gap {gap : List α} (hgap : ∀ c ∈ gap, space c = true) (cs : List α) :
    words space (gap ++ cs) = words space cs := by
  induction gap with
  | nil => rfl
  | cons c gap ih =>
    rw [List.cons_append, words_cons_space (hgap c List.mem_cons_self)]
    exact ih fun d hd => hgap d (List.mem_cons_of_mem _ hd)

/-- Behind space, a text that has not ended begins with its first word. -/
theorem words_cases (space : α → Bool) (cs : List α) :
    (∀ c ∈ cs, space c = true) ∧ words space cs = [] ∨
      ∃ gap w rest, cs = gap ++ (w ++ rest) ∧ (∀ c ∈ gap, space c = true) ∧ IsWord space w ∧
        (∀ c ∈ rest.head?, space c = true) ∧ words space cs = w :: words space rest := by
  induction cs with
  | nil => exact .inl ⟨fun c hc => absurd hc List.not_mem_nil, rfl⟩
  | cons c cs ih =>
    by_cases hc : space c = true
    · rw [words_cons_space hc]
      rcases ih with ⟨hspace, hnil⟩ | ⟨gap, w, rest, rfl, hgap, hw⟩
      · exact .inl ⟨List.forall_mem_cons.mpr ⟨hc, hspace⟩, hnil⟩
      · exact .inr ⟨c :: gap, w, rest, rfl, List.forall_mem_cons.mpr ⟨hc, hgap⟩, hw⟩
    · let w := (c :: cs).takeWhile (fun d => !space d)
      let rest := (c :: cs).dropWhile (fun d => !space d)
      have hsplit : c :: cs = w ++ rest := List.takeWhile_append_dropWhile.symm
      have hw : IsWord space w := by
        refine ⟨?_, fun d hd => by simpa using List.mem_takeWhile_imp hd⟩
        simp only [w, List.takeWhile_cons, hc]
        simp
      have hrest : ∀ d ∈ rest.head?, space d = true := by
        intro d hd
        have := List.head?_dropWhile_not (fun d => !space d) (c :: cs)
        rw [Option.mem_def.mp hd] at this
        simpa using this
      refine .inr ⟨[], w, rest, hsplit, fun d hd => absurd hd List.not_mem_nil, hw, hrest, ?_⟩
      rw [hsplit]
      cases hcs : rest with
      | nil => rw [List.append_nil, words_of_isWord hw]; rfl
      | cons d ds =>
        have hd : space d = true := hrest d (by simp [hcs])
        rw [words_append_space w hd, words_of_isWord hw, words_cons_space hd]
        rfl

theorem scan_append_space {gap : List α} (hgap : ∀ c ∈ gap, space c = true) (cs : List α) :
    scan space (gap ++ cs) = scan space cs := by
  induction gap with
  | nil => rfl
  | cons c gap ih =>
    rw [List.cons_append, scan_cons_space (hgap c List.mem_cons_self)]
    exact ih fun d hd => hgap d (List.mem_cons_of_mem _ hd)

/-- A text without a word. -/
theorem scan_of_words_nil {cs : List α} (h : words space cs = []) :
    scan space cs = ⟨none, [], true⟩ := by
  rcases words_cases space cs with ⟨hspace, -⟩ | ⟨gap, w, rest, -, -, -, -, hwords⟩
  · rw [← List.append_nil cs, scan_append_space hspace]
    rfl
  · rw [h] at hwords
    cases hwords

/-- `%s` takes the first word and leaves the others. -/
theorem scan_of_words_cons {cs : List α} {ws : List (List α)} (h : words space cs = w :: ws) :
    ∃ rest ended, scan space cs = ⟨some w, rest, ended⟩ ∧ words space rest = ws := by
  rcases words_cases space cs with ⟨-, hnil⟩ | ⟨gap, w', rest, rfl, hgap, hw, hrest, hwords⟩
  · rw [h] at hnil
    cases hnil
  · rw [h] at hwords
    obtain ⟨rfl, rfl⟩ := List.cons.inj hwords
    rw [scan_append_space hgap]
    cases rest with
    | nil => exact ⟨[], true, by rw [List.append_nil, scan_last hw], rfl⟩
    | cons d ds => exact ⟨d :: ds, false, scan_before_space hw (hrest d rfl) ds, rfl⟩

end WordScans
