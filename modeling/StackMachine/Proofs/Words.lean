import StackMachine.Code

/-! The words of a text. Blanks part the words before them from the words after them, and a text
without blanks is its own only word, so words that are joined by blanks are found again. -/
namespace StackMachine
namespace Text

/-- A text that has characters, none of them blank. -/
def IsWord (w : String) : Prop := w ≠ "" ∧ ∀ c ∈ w.toList, isBlank c = false

instance (w : String) : Decidable (IsWord w) :=
  decidable_of_iff (w ≠ "" ∧ w.toList.all (!isBlank ·) = true) (by simp [IsWord])

theorem pieces_eq_splitOnP (cs : List Char) : pieces cs = cs.splitOnP isBlank := by
  induction cs with
  | nil => rw [pieces, List.splitOnP_nil]
  | cons c cs ih =>
    rw [List.splitOnP_cons_eq_if_modifyHead, pieces, ih]
    cases h : cs.splitOnP isBlank with
    | nil => exact absurd h (List.splitOnP_ne_nil isBlank cs)
    | cons w ws => rfl

/-- A blank separates words. -/
theorem words_append_blank (x y : String) {c : Char} (hc : isBlank c = true) :
    words (x ++ String.singleton c ++ y) = words x ++ words y := by
  unfold words
  have hsplit : (x ++ String.singleton c ++ y).toList = x.toList ++ c :: y.toList := by simp
  rw [hsplit, pieces_eq_splitOnP, List.splitOnP_append_cons _ _ hc, List.filter_append,
    List.map_append, pieces_eq_splitOnP, pieces_eq_splitOnP]

/-- A text that has characters, all of them blank. -/
def IsGap (gap : String) : Prop := gap ≠ "" ∧ ∀ c ∈ gap.toList, isBlank c = true

instance (gap : String) : Decidable (IsGap gap) :=
  decidable_of_iff (gap ≠ "" ∧ gap.toList.all isBlank = true) (by simp [IsGap])

theorem words_blanks_append {cs : List Char} (h : ∀ c ∈ cs, isBlank c = true) (y : String) :
    words (String.ofList cs ++ y) = words y := by
  induction cs with
  | nil => rw [String.ofList_nil, String.empty_append]
  | cons c cs ih =>
    have hsplit : String.ofList (c :: cs) ++ y =
        "" ++ String.singleton c ++ (String.ofList cs ++ y) := by
      simp [← String.toList_inj]
    have hrest := ih fun d hd => h d (List.mem_cons_of_mem c hd)
    rw [hsplit, words_append_blank _ _ (h c List.mem_cons_self), hrest]
    rfl

/-- Any number of blanks separates words as one does. -/
theorem words_append_gap (x y : String) {gap : String} (h : IsGap gap) :
    words (x ++ gap ++ y) = words x ++ words y := by
  have hne : gap.toList ≠ [] := fun hnil => h.1 (String.toList_inj.mp hnil)
  obtain ⟨c, cs, hcs⟩ := List.exists_cons_of_ne_nil hne
  have hblank := h.2
  rw [hcs, List.forall_mem_cons] at hblank
  have hsplit : x ++ gap ++ y = x ++ String.singleton c ++ (String.ofList cs ++ y) := by
    simp [← String.toList_inj, hcs]
  rw [hsplit, words_append_blank _ _ hblank.1, words_blanks_append hblank.2]

theorem words_gap {gap : String} (h : IsGap gap) : words gap = [] := by
  have hsplit := words_append_gap "" "" h
  rw [String.empty_append, String.append_empty] at hsplit
  exact hsplit

theorem not_blank_of_mem_pieces {cs p : List Char} (h : p ∈ pieces cs) :
    ∀ c ∈ p, isBlank c = false := by
  induction cs generalizing p with
  | nil =>
    cases List.mem_singleton.mp h
    exact fun c hc => nomatch hc
  | cons d cs ih =>
    rw [pieces] at h
    split at h
    · rcases List.mem_cons.mp h with rfl | h
      · exact fun c hc => nomatch hc
      · exact ih h
    · rename_i hd
      rw [Bool.not_eq_true] at hd
      split at h
      · cases List.mem_singleton.mp h
        exact List.forall_mem_singleton.mpr hd
      · rename_i w ws hpieces
        rw [hpieces] at ih
        rcases List.mem_cons.mp h with rfl | h
        · exact List.forall_mem_cons.mpr ⟨hd, ih List.mem_cons_self⟩
        · exact ih (List.mem_cons_of_mem w h)

theorem isWord_of_mem_words {text w : String} (h : w ∈ words text) : IsWord w := by
  obtain ⟨p, hp, rfl⟩ := List.mem_map.mp h
  obtain ⟨hpieces, hne⟩ := List.mem_filter.mp hp
  constructor
  · intro hnil
    have hp : p = [] := String.ofList_eq_empty_iff.mp hnil
    rw [hp] at hne
    cases hne
  · rw [String.toList_ofList]
    exact not_blank_of_mem_pieces hpieces

theorem words_of_isWord {w : String} (h : IsWord w) : words w = [w] := by
  unfold words
  have hne : w.toList ≠ [] := by
    intro hnil
    exact h.1 (String.toList_inj.mp hnil)
  rw [pieces_eq_splitOnP, List.splitOnP_eq_singleton h.2]
  simp [hne]

theorem words_intercalate {ws : List String} (h : ∀ w ∈ ws, IsWord w) :
    words (String.intercalate " " ws) = ws := by
  induction ws with
  | nil => rfl
  | cons w ws ih =>
    have hw := words_of_isWord (h w List.mem_cons_self)
    have hws := ih fun v hv => h v (List.mem_cons_of_mem w hv)
    by_cases hnil : ws = []
    · rw [hnil, String.intercalate_singleton, hw]
    · have hspace : " " = String.singleton ' ' := rfl
      rw [String.intercalate_cons_of_ne_nil hnil, hspace, words_append_blank _ _ (by decide), hw,
        ← hspace, hws]
      rfl

/-- The characters from `!` to `~` are not blank. -/
theorem isBlank_of_graphic {c : Char} (hlow : '!' ≤ c) (hhigh : c ≤ '~') : isBlank c = false := by
  have hlow : 0x21 ≤ c.toNat := hlow
  have hhigh : c.toNat ≤ 0x7E := hhigh
  simp only [isBlank, blankRanges, List.any_cons, List.any_nil, Bool.or_false, Bool.or_eq_false_iff,
    Bool.and_eq_false_iff, decide_eq_false_iff_not]
  omega

end Text

/-- The text of words is read as these words. -/
theorem Code.ofText_text_of_isWord {c : Code} (h : ∀ token ∈ c.tokens, Text.IsWord token) :
    ofText c.text = c := by
  unfold ofText text
  rw [Text.words_intercalate h]

theorem Code.ofText_text_iff {c : Code} :
    ofText c.text = c ↔ ∀ token ∈ c.tokens, Text.IsWord token := by
  constructor
  · intro h token htoken
    rw [← h] at htoken
    exact Text.isWord_of_mem_words htoken
  · exact ofText_text_of_isWord

end StackMachine
