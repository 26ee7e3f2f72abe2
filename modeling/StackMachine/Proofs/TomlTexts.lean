import StackMachine.Proofs.NumberTexts
import StackMachine.Toml.Reader

/-! Documents of simple lines. A line of a bare key and a value adds an entry to the table that is
being read, so a document of such lines is read as their entries. The values are numbers and lists of
strings. -/
namespace StackMachine.Toml
open Decimal
open Json (NumberText spanDigits_append isDigits_cases)

/-! Numbers. In a document a line break follows them. -/

theorem digitRun_append {digits rest : List Char} (hd : isDigits digits = true)
    (hr : ∀ c ∈ rest.head?, c.isDigit = false ∧ c ≠ '_') :
    digitRun Char.isDigit (digits ++ rest) = some (digits, rest) := by
  obtain ⟨hne, hall⟩ := isDigits_cases hd
  clear hd
  induction digits with
  | nil => exact absurd rfl hne
  | cons c digits ih =>
    have hc : c.isDigit = true := hall c List.mem_cons_self
    cases digits with
    | nil =>
      cases rest with
      | nil => simp [digitRun, hc]
      | cons d rest =>
        obtain ⟨hd, hunderscore⟩ := hr d rfl
        simp [digitRun, hc, hd]
    | cons d digits =>
      have hd : d.isDigit = true := hall d (List.mem_cons_of_mem _ List.mem_cons_self)
      have hunderscore : d ≠ '_' := by
        rintro rfl
        cases hd
      have hrest := ih (List.cons_ne_nil _ _) fun x hx => hall x (List.mem_cons_of_mem _ hx)
      rw [List.cons_append] at hrest
      simp [digitRun, hc, hd, hrest, prepend]

theorem wholeDigits_append {whole rest : List Char} (hw : isDigits whole = true)
    (hz : whole = ['0'] ∨ whole.head? ≠ some '0')
    (hr : ∀ c ∈ rest.head?, c.isDigit = false ∧ c ≠ '_') :
    wholeDigits (whole ++ rest) = some (whole, rest) := by
  rcases hz with rfl | hz
  · rfl
  · unfold wholeDigits
    split
    · rename_i heq
      obtain ⟨c, digits, rfl⟩ := List.exists_cons_of_ne_nil (isDigits_cases hw).1
      cases heq
      exact absurd rfl hz
    · exact digitRun_append hw hr

theorem fractionPart_append {fraction : Option (List Char)} {rest : List Char}
    (hf : ∀ digits ∈ fraction, isDigits digits = true)
    (hr : ∀ c ∈ rest.head?, c.isDigit = false ∧ c ≠ '_') (hpoint : ∀ c ∈ rest.head?, c ≠ '.') :
    fractionPart (NumberText.fractionChars fraction ++ rest) = some (fraction, rest) := by
  cases fraction with
  | none =>
    unfold NumberText.fractionChars fractionPart
    rw [List.nil_append]
    split
    · exact absurd rfl (hpoint '.' rfl)
    · rfl
  | some digits =>
    unfold NumberText.fractionChars fractionPart
    simp only [List.cons_append, digitRun_append (hf digits rfl) hr, Option.map_some]

theorem exponentPart_append (exponent : Option ℤ) (rest : List Char) :
    exponentPart (NumberText.exponentChars exponent ++ '\n' :: rest) =
      some (exponent, '\n' :: rest) := by
  have hdigits (n : ℕ) : digitRun Char.isDigit (Nat.toDigits 10 n ++ '\n' :: rest) =
      some (Nat.toDigits 10 n, '\n' :: rest) := by
    refine digitRun_append (isDigits_toDigits n) ?_
    rintro c ⟨rfl⟩
    decide
  cases exponent with
  | none => rfl
  | some e =>
    rw [NumberText.exponentChars]
    cases e with
    | ofNat n =>
      have hn : (0 : ℤ) ≤ Int.ofNat n := Int.natCast_nonneg n
      rw [if_pos hn]
      simp [exponentPart, integerChars, takeSign, hdigits, digitsValue_toDigits]
    | negSucc n =>
      have hn : ¬(0 : ℤ) ≤ Int.negSucc n := by omega
      rw [if_neg hn]
      simp [exponentPart, integerChars, takeSign, hdigits, digitsValue_toDigits, Int.negSucc_eq]

/-- The text of a number behind its first digits. -/
def behindWhole (t : NumberText) (rest : List Char) : List Char :=
  NumberText.fractionChars t.fraction ++ (NumberText.exponentChars t.exponent ++ '\n' :: rest)

theorem chars_append_eq (t : NumberText) (rest : List Char) :
    t.chars ++ '\n' :: rest =
      (if t.negative then ['-'] else []) ++ (t.whole ++ behindWhole t rest) := by
  simp [NumberText.chars, behindWhole]

theorem head?_behindWhole {t : NumberText} {rest : List Char} {c : Char}
    (h : c ∈ (behindWhole t rest).head?) : c = '.' ∨ c = 'e' ∨ c = '\n' := by
  rcases Json.head?_fractionChars_append h with rfl | h
  · exact .inl rfl
  rcases Json.head?_exponentChars_append h with rfl | h
  · exact .inr (.inl rfl)
  · exact .inr (.inr (Option.some.inj h).symm)

theorem takeSign_append_digits {negative : Bool} {digits rest : List Char}
    (hd : isDigits digits = true) :
    takeSign ((if negative then ['-'] else []) ++ (digits ++ rest)) =
      (negative, digits ++ rest) := by
  obtain ⟨hne, hall⟩ := isDigits_cases hd
  obtain ⟨c, cs, rfl⟩ := List.exists_cons_of_ne_nil hne
  have hc : c.isDigit = true := hall c List.mem_cons_self
  cases negative with
  | true => rfl
  | false =>
    unfold takeSign
    split
    · rename_i heq
      cases heq
      cases hc
    · rename_i heq
      cases heq
      cases hc
    · rfl

/-- The node of a number. -/
def numberNode? (t : NumberText) : Option Node :=
  if t.parts.isWhole then
    integerNode? (if t.negative then -(digitsValue t.whole : Int) else digitsValue t.whole)
  else if t.numeral.toFloat.isInf && !t.negative then none
  else some (.float t.numeral.toFloat)

theorem decimalNumber_chars (t : NumberText) (rest : List Char) :
    decimalNumber (t.chars ++ '\n' :: rest) = (numberNode? t).map (·, '\n' :: rest) := by
  have hbehind : ∀ c ∈ (behindWhole t rest).head?, c.isDigit = false ∧ c ≠ '_' := by
    intro c hc
    rcases head?_behindWhole hc with rfl | rfl | rfl <;> decide
  have hexponent : ∀ c ∈ (NumberText.exponentChars t.exponent ++ '\n' :: rest).head?,
      (c.isDigit = false ∧ c ≠ '_') ∧ c ≠ '.' := by
    intro c hc
    rcases Json.head?_exponentChars_append hc with rfl | hc
    · decide
    · cases hc
      decide
  have hwhole := wholeDigits_append t.isDigits_whole t.whole_head hbehind
  have hfraction := fractionPart_append t.isDigits_fraction (fun c hc => (hexponent c hc).1)
    (fun c hc => (hexponent c hc).2)
  rw [chars_append_eq]
  unfold decimalNumber
  rw [takeSign_append_digits t.isDigits_whole]
  dsimp only
  rw [hwhole]
  simp only [Option.bind_eq_bind, Option.bind_some, behindWhole, hfraction, exponentPart_append]
  unfold numberNode?
  rw [apply_ite (Option.map _), apply_ite (Option.map _), Option.map_eq_bind]
  rfl

/-- Digits in front of a mark are all the digits in front of it. -/
theorem startsLike_eq_false {count : ℕ} {c : Char} (hc : c.isDigit = false)
    {digits rest : List Char} (hd : ∀ x ∈ digits, x.isDigit = true)
    (hr : ∀ x ∈ rest.head?, x.isDigit = false ∧ x ≠ c) :
    startsLike count c (digits ++ rest) = false := by
  rw [← Bool.not_eq_true]
  intro h
  unfold startsLike at h
  split at h
  · rename_i n d tail hfixed
    have hmark : d = c := by simpa using h
    subst hmark
    unfold fixedDigits at hfixed
    dsimp only at hfixed
    split at hfixed
    · rename_i hall
      obtain ⟨-, hdrop⟩ := Prod.mk.inj (Option.some.inj hfixed)
      have hfront : ∀ x ∈ (digits ++ rest).take count, x.isDigit = true := by
        simpa using (Bool.and_eq_true_iff.mp hall).2
      -- The text splits at the first mark and at the end of the digits, and both splits are the
      -- one that `spanDigits` finds, so the mark would stand at the head of `rest`.
      have hsplit : (digits ++ rest).take count ++ d :: tail = digits ++ rest := by
        rw [← hdrop, List.take_append_drop]
      have hspan := spanDigits_append hd fun x hx => (hr x hx).1
      rw [← hsplit, spanDigits_append hfront (by rintro x ⟨rfl⟩; exact hc)] at hspan
      obtain ⟨-, htail⟩ := Prod.mk.inj hspan
      rw [← htail] at hr
      exact (hr d rfl).2 rfl
    · cases hfixed
  · cases h

theorem startsLike_minus (count : ℕ) (c : Char) (cs : List Char) :
    startsLike (count + 1) c ('-' :: cs) = false := by
  simp [startsLike, fixedDigits]

/-- A number is not taken for a date or a time. -/
theorem startsLike_chars (count : ℕ) {c : Char} (hc : c = '-' ∨ c = ':') (t : NumberText)
    (rest : List Char) : startsLike (count + 1) c (t.chars ++ '\n' :: rest) = false := by
  have hmark : c.isDigit = false := by rcases hc with rfl | rfl <;> decide
  have hbehind : ∀ x ∈ (behindWhole t rest).head?, x.isDigit = false ∧ x ≠ c := by
    intro x hx
    rcases head?_behindWhole hx with rfl | rfl | rfl <;> rcases hc with rfl | rfl <;> decide
  rw [chars_append_eq]
  cases t.negative with
  | true => exact startsLike_minus count c _
  | false =>
    show startsLike (count + 1) c (t.whole ++ behindWhole t rest) = false
    exact startsLike_eq_false hmark (isDigits_cases t.isDigits_whole).2 hbehind

/-- What stands behind a zero in front of a number. -/
theorem second_of_chars (t : NumberText) (rest : List Char) {cs : List Char} {c : Char}
    (h : t.chars ++ '\n' :: rest = '0' :: c :: cs) : c = '.' ∨ c = 'e' ∨ c = '\n' := by
  rw [chars_append_eq] at h
  cases hsign : t.negative with
  | true =>
    rw [hsign] at h
    cases h
  | false =>
    obtain ⟨d, digits, hwhole⟩ := List.exists_cons_of_ne_nil (isDigits_cases t.isDigits_whole).1
    rw [hsign, hwhole] at h
    obtain ⟨rfl, hbehind⟩ := List.cons.inj h
    have hzero : t.whole = ['0'] := by
      refine t.whole_head.resolve_right fun hhead => hhead ?_
      rw [hwhole]
      rfl
    rw [hwhole] at hzero
    obtain rfl : digits = [] := (List.cons.inj hzero).2
    have hhead : c ∈ (behindWhole t rest).head? := congrArg List.head? hbehind
    exact head?_behindWhole hhead

theorem specialNumber_chars (t : NumberText) (rest : List Char) :
    specialNumber (t.chars ++ '\n' :: rest) = none := by
  obtain ⟨hne, hall⟩ := isDigits_cases t.isDigits_whole
  obtain ⟨d, digits, hwhole⟩ := List.exists_cons_of_ne_nil hne
  have hd : d.isDigit = true := hall d (hwhole ▸ List.mem_cons_self)
  unfold specialNumber
  rw [chars_append_eq, takeSign_append_digits t.isDigits_whole, hwhole]
  dsimp only
  split
  · rename_i heq
    cases heq
    cases hd
  · rename_i heq
    cases heq
    cases hd
  · rfl

theorem number_chars (t : NumberText) (rest : List Char) :
    number (t.chars ++ '\n' :: rest) = (numberNode? t).map (·, '\n' :: rest) := by
  have hspecial := specialNumber_chars t rest
  have hdecimal := decimalNumber_chars t rest
  have hsecond {c : Char} {cs : List Char} := @second_of_chars t rest cs c
  have hdate := startsLike_chars 3 (.inl rfl) t rest
  have htime := startsLike_chars 1 (.inr rfl) t rest
  -- The match is on the first two characters of the text, not on how the text was made.
  generalize t.chars ++ '\n' :: rest = text at *
  unfold number
  rw [hdate, htime, if_neg Bool.false_ne_true, if_neg Bool.false_ne_true]
  split
  · exact absurd (hsecond rfl) (by decide)
  · exact absurd (hsecond rfl) (by decide)
  · exact absurd (hsecond rfl) (by decide)
  · rw [hspecial, hdecimal, Option.none_or]

/-! Values. -/

/-- A text that is read as a value if a line break follows. -/
structure Spells (text : List Char) (node : Node) : Prop where
  starts : ∃ c cs, text = c :: cs ∧ isBlank c = false
  reads : ∀ rest, value maxDepth (text ++ '\n' :: rest) = some (node, '\n' :: rest)

theorem value_eq_number (depth : ℕ) {c : Char} (cs : List Char)
    (hc : c ∉ ['"', '\x27', '[', '\x7b', 't', 'f']) : value depth (c :: cs) = number (c :: cs) := by
  simp only [List.mem_cons, List.not_mem_nil, or_false, not_or] at hc
  unfold value
  simp [hc]

theorem spells_number {t : NumberText} {node : Node} (h : numberNode? t = some node) :
    Spells t.chars node := by
  obtain ⟨c, cs, hchars, hc⟩ := t.exists_chars_eq_cons
  refine ⟨⟨c, cs, hchars, by simp [isBlank, Json.ne_of_startsNumber hc]⟩, fun rest => ?_⟩
  have hnumber := number_chars t rest
  rw [h, hchars] at hnumber
  rw [hchars, List.cons_append, value_eq_number]
  · exact hnumber
  · simp [Json.ne_of_startsNumber hc]

/-- A name that stands between quotes as it is. -/
structure IsPlain (name : String) : Prop where
  ne_nil : name.toList ≠ []
  isPlain_of_mem : ∀ c ∈ name.toList, isLineChar c = true ∧ c ≠ '"' ∧ c ≠ '\\'

theorem basicTail_append {cs : List Char}
    (h : ∀ c ∈ cs, isLineChar c = true ∧ c ≠ '"' ∧ c ≠ '\\') (rest : List Char) :
    basicTail (cs ++ '"' :: rest) = some (cs, rest) := by
  induction cs with
  | nil => rfl
  | cons c cs ih =>
    obtain ⟨hline, hquote, hescape⟩ := h c List.mem_cons_self
    have hcs := ih fun d hd => h d (List.mem_cons_of_mem _ hd)
    rw [List.cons_append, basicTail]
    · simp [hline, hescape, hcs, prepend]
    · simpa using hquote
    · simp [hescape]
    · simp [hescape]
    · simp [hescape]

theorem value_string (depth : ℕ) {name : String} (h : IsPlain name) (rest : List Char) :
    value depth ('"' :: (name.toList ++ '"' :: rest)) = some (.string name, rest) := by
  have htail := basicTail_append h.isPlain_of_mem rest
  obtain ⟨c, cs, hcons⟩ := List.exists_cons_of_ne_nil h.ne_nil
  have hquote : c ≠ '"' := (h.isPlain_of_mem c (hcons ▸ List.mem_cons_self)).2.1
  have hstring : string ('"' :: (name.toList ++ '"' :: rest)) = some (name, rest) := by
    unfold string
    split
    · rename_i heq
      rw [hcons] at heq
      exact absurd (List.cons.inj (List.cons.inj heq).2).1 hquote
    · rename_i heq
      cases heq
    · simp [lineString, htail]
  unfold value
  simp [hstring]

/-- An item of an array on a line of its own. -/
def itemChars (name : String) : List Char :=
  ' ' :: ' ' :: ' ' :: ' ' :: '"' :: (name.toList ++ ['"', ',', '\n'])

/-- Texts that are not empty are together as long as they are many. -/
theorem length_le_flatMap {α : Type} {f : α → List Char} (h : ∀ a, f a ≠ []) (l : List α) :
    l.length ≤ (l.flatMap f).length := by
  have hone : ∀ n ∈ l.map fun a => (f a).length, 1 ≤ n := by
    intro n hn
    obtain ⟨a, -, rfl⟩ := List.mem_map.mp hn
    exact List.length_pos_iff.mpr (h a)
  rw [List.length_flatMap]
  simpa using List.length_le_sum_of_one_le _ hone

/-- The items are read line by line; the fuel has to exceed their number. -/
theorem arrayTail_items {depth : ℕ} {names : List String} (h : ∀ name ∈ names, IsPlain name)
    {fuel : ℕ} (hfuel : names.length < fuel) (rest : List Char) :
    arrayTail (value depth) fuel ('\n' :: (names.flatMap itemChars ++ ']' :: rest)) =
      some (names.map .string, rest) := by
  induction names generalizing fuel with
  | nil =>
    obtain ⟨fuel, rfl⟩ := Nat.exists_eq_add_one_of_ne_zero (Nat.ne_zero_of_lt hfuel)
    rfl
  | cons name names ih =>
    obtain ⟨fuel, rfl⟩ := Nat.exists_eq_add_one_of_ne_zero (Nat.ne_zero_of_lt hfuel)
    have htail := ih (fun n hn => h n (List.mem_cons_of_mem _ hn)) (Nat.lt_of_succ_lt_succ hfuel)
    have hvalue := value_string depth (h name List.mem_cons_self)
      (',' :: '\n' :: (names.flatMap itemChars ++ ']' :: rest))
    have hskip (cs : List Char) :
        skipFiller? false ('\n' :: ' ' :: ' ' :: ' ' :: ' ' :: '"' :: cs) = some ('"' :: cs) := by
      rfl
    have hcomma (cs : List Char) : skipFiller? false (',' :: cs) = some (',' :: cs) := rfl
    rw [List.flatMap_cons, itemChars]
    simp only [List.cons_append, List.append_assoc, List.nil_append]
    unfold arrayTail
    simp [hskip, hvalue, hcomma, htail]

theorem value_array {depth : ℕ} {cs rest : List Char} {items : List Node}
    (h : arrayTail (value depth) (cs.length + 1) cs = some (items, rest)) :
    value (depth + 1) ('[' :: cs) = some (.array items, rest) := by
  rw [value]
  simp [h]

theorem spells_single {name : String} (h : IsPlain name) :
    Spells ('[' :: '"' :: (name.toList ++ ['"', ']'])) (.array [.string name]) := by
  refine ⟨⟨'[', _, rfl, rfl⟩, fun rest => value_array ?_⟩
  have hquote (cs : List Char) : skipFiller? false ('"' :: cs) = some ('"' :: cs) := rfl
  have hbracket (cs : List Char) : skipFiller? false (']' :: cs) = some (']' :: cs) := rfl
  simp [arrayTail, hquote, hbracket, value_string 78 h]

theorem spells_items {names : List String} (h : ∀ name ∈ names, IsPlain name) :
    Spells ('[' :: '\n' :: (names.flatMap itemChars ++ [']'])) (.array (names.map .string)) := by
  refine ⟨⟨'[', _, rfl, rfl⟩, fun rest => ?_⟩
  have hlength := length_le_flatMap (f := itemChars) (by simp [itemChars]) names
  rw [List.cons_append, List.cons_append, List.append_assoc]
  refine value_array (arrayTail_items h ?_ ('\n' :: rest))
  simp only [List.length_cons, List.length_append]
  omega

/-! Lines. -/

/-- A key that needs no quotes. -/
structure IsBareKey (key : String) : Prop where
  ne_nil : key.toList ≠ []
  isBareKeyChar_of_mem : ∀ c ∈ key.toList, isBareKeyChar c = true

theorem simpleKey_append {key : String} (hkey : IsBareKey key) {rest : List Char}
    (hr : ∀ c ∈ rest.head?, isBareKeyChar c = false) :
    simpleKey (key.toList ++ rest) = some (key, rest) := by
  have htake : (key.toList ++ rest).takeWhile isBareKeyChar = key.toList := by
    rw [List.takeWhile_append_of_pos hkey.isBareKeyChar_of_mem]
    cases rest with
    | nil => simp
    | cons c rest => simp [hr c rfl]
  have hdrop : (key.toList ++ rest).dropWhile isBareKeyChar = rest := by
    rw [List.dropWhile_append_of_pos hkey.isBareKeyChar_of_mem]
    cases rest with
    | nil => rfl
    | cons c rest => simp [hr c rfl]
  obtain ⟨c, cs, hcons⟩ := List.exists_cons_of_ne_nil hkey.ne_nil
  have hc : isBareKeyChar c = true := hkey.isBareKeyChar_of_mem c (hcons ▸ List.mem_cons_self)
  unfold simpleKey
  split
  · rename_i heq
    rw [hcons] at heq
    cases heq
    exact absurd hc (by decide)
  · rename_i heq
    rw [hcons] at heq
    cases heq
    exact absurd hc (by decide)
  · rw [htake, hdrop]
    simp [hkey.ne_nil]

/-- A line that gives a key a value. -/
structure Line where
  key : String
  text : List Char
  node : Node
  isBareKey : IsBareKey key
  spells : Spells text node

namespace Line

def chars (l : Line) : List Char := l.key.toList ++ ' ' :: '=' :: ' ' :: (l.text ++ ['\n'])

def entry (l : Line) : String × Node := (l.key, l.node)

theorem chars_append (l : Line) (rest : List Char) :
    l.chars ++ rest = l.key.toList ++ ' ' :: '=' :: ' ' :: (l.text ++ '\n' :: rest) := by
  simp [chars]

theorem exists_chars_append_eq_cons (l : Line) (rest : List Char) :
    ∃ c cs, l.chars ++ rest = c :: cs ∧ isBareKeyChar c = true := by
  obtain ⟨c, cs, hkey⟩ := List.exists_cons_of_ne_nil l.isBareKey.ne_nil
  have hc := l.isBareKey.isBareKeyChar_of_mem c (hkey ▸ List.mem_cons_self)
  rw [chars_append, hkey, List.cons_append]
  exact ⟨c, _, rfl, hc⟩

end Line

theorem skipBlanks_cons {c : Char} (hc : isBlank c = false) (cs : List Char) :
    skipBlanks (c :: cs) = c :: cs := by
  simp [skipBlanks, hc]

theorem ne_of_isBareKeyChar {c d : Char} (hc : isBareKeyChar c = true)
    (hd : isBareKeyChar d = false) : c ≠ d := by
  rintro rfl
  cases hc.symm.trans hd

theorem isBlank_of_isBareKeyChar {c : Char} (h : isBareKeyChar c = true) : isBlank c = false := by
  simp (disch := decide) [isBlank, ne_of_isBareKeyChar h]

theorem keyValue_line (l : Line) (rest : List Char) :
    keyValue (value maxDepth) (l.chars ++ rest) = some (([], l.key, l.node), '\n' :: rest) := by
  have hskip : skipBlanks (l.chars ++ rest) = l.chars ++ rest := by
    obtain ⟨c, cs, hcons, hc⟩ := l.exists_chars_append_eq_cons rest
    rw [hcons, skipBlanks_cons (isBlank_of_isBareKeyChar hc)]
  have hkey : simpleKey (l.chars ++ rest) =
      some (l.key, ' ' :: '=' :: ' ' :: (l.text ++ '\n' :: rest)) := by
    rw [l.chars_append]
    refine simpleKey_append l.isBareKey ?_
    rintro c ⟨rfl⟩
    decide
  have hdotted : dottedKey maxDepth (l.chars ++ rest) =
      some ([l.key], '=' :: ' ' :: (l.text ++ '\n' :: rest)) := by
    unfold maxDepth dottedKey
    rw [hskip, hkey]
    rfl
  have hvalue : skipBlanks (' ' :: (l.text ++ '\n' :: rest)) = l.text ++ '\n' :: rest := by
    obtain ⟨c, cs, htext, hc⟩ := l.spells.starts
    rw [htext]
    exact skipBlanks_cons hc _
  unfold keyValue
  simp [hdotted, splitLast, mark, hvalue, l.spells.reads]

/-- A line adds its entry to the open table. -/
theorem lines_line (l : Line) (fuel : ℕ) (d : Draft) (rest : List Char) :
    lines (fuel + 1) d (l.chars ++ rest) =
      (d.assign [] l.key l.node).bind fun d => lines fuel d rest := by
  have hkeyValue := keyValue_line l rest
  have hend : endLine? ('\n' :: rest) = some rest := rfl
  obtain ⟨c, cs, hcons, hc⟩ := l.exists_chars_append_eq_cons rest
  rw [hcons] at hkeyValue ⊢
  rw [lines, skipBlanks_cons (isBlank_of_isBareKeyChar hc)]
  simp (disch := decide) [ne_of_isBareKeyChar hc, hkeyValue, hend]

theorem assign_of_notMem {t : Entries} {key : String} (h : key ∉ t.map (·.1)) (node : Node) :
    t.assign [] key node = some (t ++ [(key, node)]) := by
  have hfind : t.find? (·.1 = key) = none := by
    rw [List.find?_eq_none]
    intro e he heq
    exact h (List.mem_map.mpr ⟨e, he, of_decide_eq_true heq⟩)
  have hget : t.get? key = none := by
    rw [Entries.get?, hfind]
    rfl
  simp [Entries.assign, hget]

/-- Lines of different keys add their entries in order; the fuel has to exceed their number. -/
theorem lines_flatMap {ls : List Line} {fuel : ℕ} (hfuel : ls.length < fuel) {t : Entries}
    (hkeys : (t.map (·.1) ++ ls.map Line.key).Nodup) :
    lines fuel { current := t } (ls.flatMap Line.chars) = some (t ++ ls.map Line.entry) := by
  induction ls generalizing fuel t with
  | nil =>
    obtain ⟨fuel, rfl⟩ := Nat.exists_eq_add_one_of_ne_zero (Nat.ne_zero_of_lt hfuel)
    simp [lines, skipBlanks, Draft.close]
  | cons l ls ih =>
    obtain ⟨fuel, rfl⟩ := Nat.exists_eq_add_one_of_ne_zero (Nat.ne_zero_of_lt hfuel)
    have hnew : l.key ∉ t.map (·.1) := fun hmem =>
      List.disjoint_of_nodup_append hkeys hmem List.mem_cons_self
    have hassign : Draft.assign { current := t } [] l.key l.node =
        some { current := t ++ [l.entry] } := by
      simp [Draft.assign, assign_of_notMem hnew, Line.entry]
    have hrest : ((t ++ [l.entry]).map (·.1) ++ ls.map Line.key).Nodup := by
      simpa [Line.entry] using hkeys
    rw [List.flatMap_cons, lines_line, hassign, Option.bind_some,
      ih (Nat.lt_of_succ_lt_succ hfuel) hrest]
    simp

/-- A document of such lines is read as their entries. -/
theorem parse?_eq_some {text : String} {ls : List Line}
    (htext : text.toList = ls.flatMap Line.chars) (hkeys : (ls.map Line.key).Nodup) :
    parse? text = some (ls.map Line.entry) := by
  have hfuel : ls.length < text.toList.length + 1 := by
    rw [htext]
    exact Nat.lt_succ_of_le (length_le_flatMap (by simp [Line.chars]) ls)
  have hlines := lines_flatMap hfuel (t := []) hkeys
  unfold parse?
  rw [htext] at hlines ⊢
  cases ls with
  | nil => exact hlines
  | cons l ls =>
    obtain ⟨c, cs, hcons, hc⟩ := l.exists_chars_append_eq_cons (ls.flatMap Line.chars)
    -- A key has no byte order mark in front.
    have hmark : c.toNat ≠ 0xFEFF := by
      intro h
      refine ne_of_isBareKeyChar (d := Char.ofNat 0xFEFF) hc (by decide) ?_
      rw [← h, Char.ofNat_toNat]
    rw [List.flatMap_cons, hcons] at hlines ⊢
    dsimp only
    rw [if_neg hmark]
    exact hlines

end StackMachine.Toml
