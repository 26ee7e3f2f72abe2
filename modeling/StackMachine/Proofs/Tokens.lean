import StackMachine.Vocabulary

/-! The grammar of tokens. A token is read as a command exactly if it has the shape of that command,
and no token has two shapes. -/
namespace StackMachine
namespace Vocabulary

/-- `[0-9]+` -/
def IsDigitRun (cs : List Char) : Prop := cs ≠ [] ∧ ∀ c ∈ cs, '0' ≤ c ∧ c ≤ '9'

/-- `-?` -/
def IsSign (cs : List Char) : Prop := cs = [] ∨ cs = ['-']

/-- `-?[0-9]+` -/
def IsIntegerShape (cs : List Char) : Prop :=
  ∃ sign digits, IsSign sign ∧ IsDigitRun digits ∧ cs = sign ++ digits

/-- `-?[0-9]+\.[0-9]+` -/
def IsFloatShape (cs : List Char) : Prop :=
  ∃ sign whole fraction, IsSign sign ∧ IsDigitRun whole ∧ IsDigitRun fraction ∧
    cs = sign ++ whole ++ '.' :: fraction

/-- `[A-Za-z0-9_]+` -/
def IsNameRun (cs : List Char) : Prop :=
  cs ≠ [] ∧ ∀ c ∈ cs, 'A' ≤ c ∧ c ≤ 'Z' ∨ 'a' ≤ c ∧ c ≤ 'z' ∨ '0' ≤ c ∧ c ≤ '9' ∨ c = '_'

/-- The tokens that stand for a command where some calls are known. -/
def Denotes (calls : List (String × String)) (token : String) : Command → Prop
  | .literal .boolean => token = "true" ∨ token = "false"
  | .literal .integer => IsIntegerShape token.toList
  | .literal .float => IsFloatShape token.toList
  | .cursor verb => token = "cursor." ++ verb ∧ verb ≠ "" ∧ '.' ∉ verb.toList
  | .call stack function =>
    token = stack ++ "." ++ function ∧ IsNameRun stack.toList ∧ stack ≠ "cursor" ∧
      function ≠ "" ∧ '.' ∉ function.toList ∧
      ¬(IsDigitRun stack.toList ∧ IsDigitRun function.toList) ∧ (stack, function) ∈ calls
  | .noop => False

theorem isDigit_iff {c : Char} : c.isDigit = true ↔ '0' ≤ c ∧ c ≤ '9' := by
  rw [Char.isDigit, Bool.and_eq_true, decide_eq_true_iff, decide_eq_true_iff]
  rfl

theorem isNameChar_iff {c : Char} : isNameChar c = true ↔
    'A' ≤ c ∧ c ≤ 'Z' ∨ 'a' ≤ c ∧ c ≤ 'z' ∨ '0' ≤ c ∧ c ≤ '9' ∨ c = '_' := by
  have hupper : c.isUpper = true ↔ 'A' ≤ c ∧ c ≤ 'Z' := decide_eq_true_iff
  have hlower : c.isLower = true ↔ 'a' ≤ c ∧ c ≤ 'z' := by
    change (decide _ && decide _) = true ↔ _
    rw [Bool.and_eq_true, decide_eq_true_iff, decide_eq_true_iff]
    rfl
  have halphanum : c.isAlphanum = (c.isUpper || c.isLower || c.isDigit) := rfl
  rw [isNameChar, halphanum, Bool.or_eq_true, Bool.or_eq_true, Bool.or_eq_true,
    hupper, hlower, isDigit_iff, decide_eq_true_iff, or_assoc, or_assoc]

theorem isDigits_iff {cs : List Char} : Decimal.isDigits cs = true ↔ IsDigitRun cs := by
  simp [Decimal.isDigits, IsDigitRun, isDigit_iff]

theorem isName_iff {cs : List Char} :
    (!cs.isEmpty && cs.all isNameChar) = true ↔ IsNameRun cs := by
  simp [IsNameRun, isNameChar_iff]

theorem IsDigitRun.point_not_mem {cs : List Char} (h : IsDigitRun cs) : '.' ∉ cs := by
  intro hmem
  have hpoint := h.2 '.' hmem
  revert hpoint
  decide

theorem IsDigitRun.minus_not_mem {cs : List Char} (h : IsDigitRun cs) : '-' ∉ cs := by
  intro hmem
  have hminus := h.2 '-' hmem
  revert hminus
  decide

theorem IsNameRun.point_not_mem {cs : List Char} (h : IsNameRun cs) : '.' ∉ cs := by
  intro hmem
  have hpoint := h.2 '.' hmem
  revert hpoint
  decide

theorem IsNameRun.minus_not_mem {cs : List Char} (h : IsNameRun cs) : '-' ∉ cs := by
  intro hmem
  have hminus := h.2 '-' hmem
  revert hminus
  decide

theorem IsIntegerShape.point_not_mem {cs : List Char} (h : IsIntegerShape cs) : '.' ∉ cs := by
  obtain ⟨sign, digits, hs | hs, hd, rfl⟩ := h
  · simpa [hs] using hd.point_not_mem
  · simpa [hs] using hd.point_not_mem

/-- A text parts at its first point, and only there. -/
theorem splitPoint?_eq_some_iff {cs before after : List Char} :
    splitPoint? cs = some (before, after) ↔ cs = before ++ '.' :: after ∧ '.' ∉ before := by
  induction cs generalizing before with
  | nil => simp [splitPoint?]
  | cons c cs ih =>
    unfold splitPoint?
    by_cases hc : c = '.'
    · subst hc
      rw [if_pos rfl]
      constructor
      · intro h
        cases h
        exact ⟨rfl, List.not_mem_nil⟩
      · rintro ⟨he, hmem⟩
        cases before with
        | nil =>
          cases he
          rfl
        | cons b before =>
          obtain ⟨rfl, -⟩ := List.cons.inj he
          exact absurd List.mem_cons_self hmem
    · rw [if_neg hc, Option.map_eq_some_iff]
      constructor
      · rintro ⟨⟨rest, tail⟩, hsplit, he⟩
        cases he
        obtain ⟨rfl, hmem⟩ := ih.mp hsplit
        exact ⟨rfl, by simp [Ne.symm hc, hmem]⟩
      · rintro ⟨he, hmem⟩
        cases before with
        | nil => exact absurd (List.cons.inj he).1 hc
        | cons b before =>
          obtain ⟨rfl, hcs⟩ := List.cons.inj he
          have hrest : '.' ∉ before := fun h => hmem (List.mem_cons_of_mem _ h)
          exact ⟨(before, after), ih.mpr ⟨hcs, hrest⟩, rfl⟩

/-- The sign in front of digits is the only thing that the unsigned part leaves out. -/
theorem unsignedPart_append {sign rest : List Char} (hs : IsSign sign)
    (hr : ∀ cs, rest ≠ '-' :: cs) : unsignedPart (sign ++ rest) = rest := by
  rcases hs with rfl | rfl
  · unfold unsignedPart
    split
    · rename_i cs hcs
      exact absurd hcs (hr cs)
    · rfl
  · rfl

theorem exists_sign (cs : List Char) : ∃ sign, IsSign sign ∧ cs = sign ++ unsignedPart cs := by
  unfold unsignedPart
  split
  · exact ⟨['-'], .inr rfl, rfl⟩
  · exact ⟨[], .inl rfl, rfl⟩

theorem isInteger_iff {cs : List Char} : isInteger cs = true ↔ IsIntegerShape cs := by
  unfold isInteger
  rw [isDigits_iff]
  constructor
  · intro h
    obtain ⟨sign, hs, he⟩ := exists_sign cs
    exact ⟨sign, _, hs, h, he⟩
  · rintro ⟨sign, digits, hs, hd, rfl⟩
    rw [unsignedPart_append hs]
    · exact hd
    · rintro cs rfl
      exact hd.minus_not_mem List.mem_cons_self

theorem isFloat_iff {cs : List Char} : isFloat cs = true ↔ IsFloatShape cs := by
  unfold isFloat
  constructor
  · intro h
    split at h
    · rename_i whole fraction hsplit
      rw [Bool.and_eq_true, isDigits_iff, isDigits_iff] at h
      obtain ⟨sign, hs, he⟩ := exists_sign cs
      rw [splitPoint?_eq_some_iff] at hsplit
      refine ⟨sign, whole, fraction, hs, h.1, h.2, ?_⟩
      rw [List.append_assoc, ← hsplit.1]
      exact he
    · cases h
  · rintro ⟨sign, whole, fraction, hs, hw, hf, rfl⟩
    have hunsigned : unsignedPart (sign ++ whole ++ '.' :: fraction) = whole ++ '.' :: fraction := by
      rw [List.append_assoc]
      refine unsignedPart_append hs fun cs hcs => ?_
      obtain ⟨c, rest, rfl⟩ := List.exists_cons_of_ne_nil hw.1
      cases hcs
      exact hw.minus_not_mem List.mem_cons_self
    have hsplit := splitPoint?_eq_some_iff.mpr ⟨hunsigned, hw.point_not_mem⟩
    rw [hunsigned] at hsplit
    simp only [hunsigned, hsplit, isDigits_iff.mpr hw, isDigits_iff.mpr hf, Bool.and_self]

theorem splitCall?_eq_some_iff {token stack function : String} :
    splitCall? token.toList = some (stack, function) ↔
      token = stack ++ "." ++ function ∧ IsNameRun stack.toList ∧ function ≠ "" ∧
        '.' ∉ function.toList := by
  have htoken : token = stack ++ "." ++ function ↔
      token.toList = stack.toList ++ '.' :: function.toList := by
    rw [← String.toList_inj, String.toList_append, String.toList_append, List.append_assoc]
    rfl
  have hfunction : function ≠ "" ↔ function.toList ≠ [] := by
    rw [ne_eq, ← String.toList_inj]
    rfl
  rw [htoken, hfunction]
  unfold splitCall?
  constructor
  · intro h
    split at h
    · rename_i before after hsplit
      split at h
      · rename_i hshape
        cases h
        simp only [Bool.and_eq_true, Bool.not_eq_true', List.contains_eq_mem] at hshape
        obtain ⟨⟨hname, hne⟩, hpoint⟩ := hshape
        rw [String.toList_ofList, String.toList_ofList]
        exact ⟨(splitPoint?_eq_some_iff.mp hsplit).1, isName_iff.mp (by simp [hname]),
          by simpa using hne, by simpa using hpoint⟩
      · cases h
    · cases h
  · rintro ⟨he, hname, hne, hpoint⟩
    have hsplit := splitPoint?_eq_some_iff.mpr ⟨he, hname.point_not_mem⟩
    have hshape : (!stack.toList.isEmpty && stack.toList.all isNameChar &&
        !function.toList.isEmpty && !function.toList.contains '.') = true := by
      rw [isName_iff.mpr hname]
      simp [hne, hpoint]
    simp only [hsplit, hshape, if_true, String.ofList_toList]

theorem not_truth_of_point {token : String} (h : '.' ∈ token.toList) :
    ¬(token = "true" ∨ token = "false") := by
  rintro (rfl | rfl)
  · exact absurd h (by decide)
  · exact absurd h (by decide)

/-- A token of the form of a call is a call or a verb, unless it is a float. -/
theorem command?_of_splitCall? (v : Vocabulary) {token stack function : String}
    (hcall : splitCall? token.toList = some (stack, function))
    (hfloat : ¬IsFloatShape token.toList) :
    v.command? token = if stack = cursorName then some (.cursor function)
      else if v.isRegistered stack function then some (.call stack function) else none := by
  have hpoint : '.' ∈ token.toList := by
    rw [(splitCall?_eq_some_iff.mp hcall).1]
    simp
  have htruth := not_truth_of_point hpoint
  have hinteger : ¬IsIntegerShape token.toList := fun h => h.point_not_mem hpoint
  rw [← isInteger_iff] at hinteger
  rw [← isFloat_iff] at hfloat
  unfold command?
  simp only [Bool.or_eq_true, decide_eq_true_iff, htruth, hinteger, hfloat, if_false, hcall,
    Bool.false_eq_true]

/-- A float parts at its point into signed digits and digits. -/
theorem IsFloatShape.of_call {token stack function : String} (h : IsFloatShape token.toList)
    (hcall : splitCall? token.toList = some (stack, function)) :
    IsDigitRun stack.toList ∧ IsDigitRun function.toList := by
  obtain ⟨he, hname, -, -⟩ := splitCall?_eq_some_iff.mp hcall
  obtain ⟨sign, whole, fraction, hs, hw, hf, hshape⟩ := h
  have hsigned : '.' ∉ sign ++ whole := by
    rcases hs with rfl | rfl
    · simpa using hw.point_not_mem
    · simpa using hw.point_not_mem
  have htoken : token.toList = stack.toList ++ '.' :: function.toList := by
    rw [he, String.toList_append, String.toList_append, List.append_assoc]
    rfl
  have hfirst := splitPoint?_eq_some_iff.mpr ⟨hshape, hsigned⟩
  have hsecond := splitPoint?_eq_some_iff.mpr ⟨htoken, hname.point_not_mem⟩
  rw [hfirst] at hsecond
  obtain ⟨hstack, hfunction⟩ := Prod.mk.inj (Option.some.inj hsecond)
  rw [← hfunction]
  refine ⟨?_, hf⟩
  rcases hs with rfl | rfl
  · rw [← hstack]
    exact hw
  · refine absurd ?_ hname.minus_not_mem
    rw [← hstack]
    exact List.mem_cons_self

theorem command?_eq_some_iff {v : Vocabulary} {token : String} {c : Command} :
    v.command? token = some c ↔ Denotes v.known token c := by
  constructor
  · intro h
    unfold command? at h
    split at h
    · rename_i htruth
      cases h
      simpa [Denotes] using htruth
    split at h
    · rename_i hinteger
      cases h
      exact isInteger_iff.mp hinteger
    split at h
    · rename_i hfloat
      cases h
      exact isFloat_iff.mp hfloat
    rename_i hfloat
    split at h
    · rename_i stack function hcall
      obtain ⟨he, hname, hne, hpoint⟩ := splitCall?_eq_some_iff.mp hcall
      split at h
      · rename_i hs
        cases h
        subst hs
        exact ⟨he, hne, hpoint⟩
      · rename_i hs
        split at h
        · rename_i hr
          cases h
          refine ⟨he, hname, hs, hne, hpoint, ?_, mem_known.mpr hr⟩
          rintro ⟨hd, hd'⟩
          refine hfloat (isFloat_iff.mpr ⟨[], _, _, .inl rfl, hd, hd', ?_⟩)
          rw [he, String.toList_append, String.toList_append, List.append_assoc]
          rfl
        · cases h
    · cases h
  · intro h
    match c with
    | .literal .boolean =>
      have htruth : (token = "true" || token = "false") = true := by
        rw [Bool.or_eq_true, decide_eq_true_iff, decide_eq_true_iff]
        exact h
      unfold command?
      rw [if_pos htruth]
    | .literal .integer =>
      have hinteger : isInteger token.toList = true := isInteger_iff.mpr h
      have htruth : ¬(token = "true" ∨ token = "false") := by
        rintro (rfl | rfl)
        · exact absurd hinteger (by decide)
        · exact absurd hinteger (by decide)
      unfold command?
      simp only [Bool.or_eq_true, decide_eq_true_iff, htruth, hinteger, if_false, if_true]
    | .literal .float =>
      have hpoint : '.' ∈ token.toList := by
        obtain ⟨sign, whole, fraction, -, -, -, hshape⟩ := h
        rw [hshape]
        simp
      have htruth := not_truth_of_point hpoint
      have hinteger : ¬isInteger token.toList = true :=
        fun hi => (isInteger_iff.mp hi).point_not_mem hpoint
      have hfloat : isFloat token.toList = true := isFloat_iff.mpr h
      unfold command?
      simp only [Bool.or_eq_true, decide_eq_true_iff, htruth, hinteger, hfloat, if_false, if_true,
        Bool.false_eq_true]
    | .cursor verb =>
      obtain ⟨he, hne, hpoint⟩ := h
      have hname : IsNameRun "cursor".toList := isName_iff.mp (by decide)
      have hcall : splitCall? token.toList = some ("cursor", verb) :=
        splitCall?_eq_some_iff.mpr ⟨he, hname, hne, hpoint⟩
      have hfloat : ¬IsFloatShape token.toList := by
        intro hf
        exact absurd (isDigits_iff.mpr (hf.of_call hcall).1) (by decide)
      rw [command?_of_splitCall? v hcall hfloat]
      rfl
    | .call stack function =>
      obtain ⟨he, hname, hs, hne, hpoint, hdigits, hmem⟩ := h
      have hcall : splitCall? token.toList = some (stack, function) :=
        splitCall?_eq_some_iff.mpr ⟨he, hname, hne, hpoint⟩
      have hfloat : ¬IsFloatShape token.toList := fun hf => hdigits (hf.of_call hcall)
      rw [command?_of_splitCall? v hcall hfloat, if_neg (show ¬stack = cursorName from hs)]
      exact if_pos (mem_known.mp hmem)
    | .noop => exact h.elim

/-- After any registrations a token is read exactly as the grammar says: as the command whose shape
it has, with itself as the token of the instruction, and as nothing if it has no shape. No token has
the shapes of two commands. -/
theorem instruction?_exact (calls : List (String × String)) (token : String) :
    let v : Vocabulary := calls.foldl (fun v (stack, function) => v.register stack function) {}
    (∀ i, v.instruction? token = some i ↔
      Denotes calls token i.command ∧ i.token = token ∧ i.runs = 0) ∧
    (v.instruction? token = none ↔ ∀ c, ¬Denotes calls token c) ∧
    ∀ c d, Denotes calls token c → Denotes calls token d → c = d := by
  intro v
  have hcalls (c : Command) : Denotes v.known token c ↔ Denotes calls token c := by
    have hmem (stack function : String) :
        (stack, function) ∈ v.known ↔ (stack, function) ∈ calls :=
      mem_known.trans isRegistered_of_history
    unfold Denotes
    simp only [hmem]
  have hread (c : Command) : v.command? token = some c ↔ Denotes calls token c :=
    command?_eq_some_iff.trans (hcalls c)
  refine ⟨fun i => ?_, ?_, fun c d hc hd => ?_⟩
  · unfold instruction?
    rw [Option.map_eq_some_iff, ← hread]
    constructor
    · rintro ⟨command, hcommand, rfl⟩
      exact ⟨hcommand, rfl, rfl⟩
    · rintro ⟨hcommand, htoken, hruns⟩
      refine ⟨i.command, hcommand, ?_⟩
      rw [← htoken, ← hruns]
  · unfold instruction?
    rw [Option.map_eq_none_iff, Option.eq_none_iff_forall_ne_some]
    exact forall_congr' fun c => not_congr (hread c)
  · rw [← hread] at hc hd
    exact Option.some.inj (hc.symm.trans hd)

end Vocabulary
end StackMachine
