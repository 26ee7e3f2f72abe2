import StackMachine.Proofs.ShortestDecimal

/-! The texts of numbers. The digits of the shortest decimal of a float, laid out with or without an
exponent, are read as a numeral that rounds to the float, and the text of a number in a JSON text is
read up to its end. -/
namespace StackMachine
namespace Decimal

section Digits

theorem digitsValue_append (xs ys : List Char) :
    digitsValue (xs ++ ys) = digitsValue xs * 10 ^ ys.length + digitsValue ys := by
  unfold digitsValue
  rw [Nat.ofDigitChars_append, Nat.ofDigitChars_eq_ofDigitChars_zero, Nat.mul_comm]

theorem digitsValue_zeros (k : ℕ) : digitsValue (List.replicate k '0') = 0 := by
  unfold digitsValue
  rw [Nat.ofDigitChars_replicate_zero, Nat.mul_zero]

theorem cast_mul_ten_pow (n k : ℕ) (scale : ℤ) :
    ((n * 10 ^ k : ℕ) : ℚ) * 10 ^ scale = n * 10 ^ (k + scale) := by
  rw [zpow_add₀ (by norm_num), zpow_natCast]
  push_cast
  ring

theorem digitsValue_toDigits (n : ℕ) : digitsValue (Nat.toDigits 10 n) = n :=
  Nat.ofDigitChars_ten_toDigits

theorem isDigits_toDigits (n : ℕ) : isDigits (Nat.toDigits 10 n) = true := by
  have hall : ∀ c ∈ Nat.toDigits 10 n, c.isDigit = true := fun c hc =>
    Nat.isDigit_of_mem_toDigits (by decide) (by decide) hc
  simpa [isDigits] using hall

theorem head?_toDigits {n : ℕ} (hn : n ≠ 0) : (Nat.toDigits 10 n).head? ≠ some '0' := by
  induction n using Nat.strongRecOn with
  | _ n ih =>
    rw [Nat.toDigits_eq_if (by decide)]
    split
    · simpa using hn
    · rename_i hge
      rw [List.head?_append_of_ne_nil _ Nat.toDigits_ne_nil]
      exact ih (n / 10) (by omega) (by omega)

theorem eq_trimZeros_append (digits : List Char) :
    ∃ k, digits = trimZeros digits ++ List.replicate k '0' := by
  have hzeros : digits.reverse.takeWhile (· = '0') =
      List.replicate (digits.reverse.takeWhile (· = '0')).length '0' := by
    refine List.eq_replicate_iff.mpr ⟨rfl, fun c hc => ?_⟩
    have hall := List.all_eq_true.mp (List.all_takeWhile (l := digits.reverse) (p := (· = '0'))) c hc
    exact of_decide_eq_true hall
  refine ⟨(digits.reverse.takeWhile (· = '0')).length, ?_⟩
  unfold trimZeros
  rw [← List.reverse_replicate, ← List.reverse_append, ← hzeros, List.takeWhile_append_dropWhile,
    List.reverse_reverse]

end Digits

/-- The number that a scientific decimal stands for. -/
def Scientific.value (s : Scientific) : ℚ :=
  digitsValue s.digits * 10 ^ (s.exponent + 1 - s.digits.length)

/-- Digits, the first of which is not zero. -/
structure Scientific.IsNormal (s : Scientific) : Prop where
  isDigits_digits : isDigits s.digits = true
  head?_digits : s.digits.head? ≠ some '0'

/-- The shortest decimal of a positive magnitude has a digit in front and rounds to it. -/
theorem Binary.shortest_spec {b : Binary} (hc : b.IsCanonical) (hm : b.mantissa ≠ 0) (tie : Tie) :
    (b.shortest tie).IsNormal ∧ b.Attracts (b.shortest tie).value := by
  have hattracts := Binary.attracts_search hc hm tie (Binary.pow_decimalExponent_le hm)
    (show 1 + (maxDigits - 1) = maxDigits from rfl)
  unfold Binary.shortest
  rw [if_neg hm]
  generalize b.search tie b.decimalExponent 1 (maxDigits - 1) = found at hattracts
  obtain ⟨n, grid⟩ := found
  dsimp only at hattracts ⊢
  have hn : n ≠ 0 := by
    rintro rfl
    have hpos := lt_of_lt_of_le (Binary.low_pos hm) hattracts.low_le
    simp at hpos
  obtain ⟨k, hk⟩ := eq_trimZeros_append (Nat.toDigits 10 n)
  have hdigits := isDigits_toDigits n
  have hhead := head?_toDigits hn
  have hvalue := digitsValue_toDigits n
  have hlength : (Nat.toDigits 10 n).length = (trimZeros (Nat.toDigits 10 n)).length + k := by
    conv_lhs => rw [hk]
    simp
  rw [hk] at hdigits hhead hvalue
  generalize trimZeros (Nat.toDigits 10 n) = trimmed at *
  have hne : trimmed ≠ [] := by
    rintro rfl
    cases k with
    | zero => exact absurd hdigits (by decide)
    | succ k => exact hhead rfl
  refine ⟨⟨?_, ?_⟩, ?_⟩
  · unfold isDigits at hdigits ⊢
    simp only [List.all_append, Bool.and_eq_true] at hdigits ⊢
    exact ⟨by simpa using hne, hdigits.2.1⟩
  · rwa [List.head?_append_of_ne_nil _ hne] at hhead
  · convert hattracts using 1
    rw [digitsValue_append, digitsValue_zeros, Nat.add_zero, List.length_replicate] at hvalue
    unfold Scientific.value
    dsimp only
    rw [hlength, ← hvalue, cast_mul_ten_pow]
    congr 2
    push_cast
    ring

section Layouts
variable {s : Scientific}

/-- The digits before and after the point stand for the decimal. -/
theorem Scientific.magnitude_split (s : Scientific) (negative : Bool) :
    (Numeral.ofParts negative s.split.1 s.split.2 0).magnitude = s.value := by
  unfold Numeral.magnitude Numeral.ofParts Scientific.split Scientific.value
  split
  · rename_i hneg
    have hzero : digitsValue ['0'] = 0 := rfl
    dsimp only
    rw [digitsValue_append, digitsValue_append, digitsValue_zeros, hzero, Nat.zero_mul,
      Nat.zero_mul, Nat.zero_add, Nat.zero_add, List.length_append, List.length_replicate]
    congr 2
    push_cast
    omega
  · rename_i hnonneg
    dsimp only
    rw [List.take_append_drop, digitsValue_append, digitsValue_zeros, Nat.add_zero,
      List.length_replicate, List.length_drop, List.length_append, List.length_replicate,
      cast_mul_ten_pow]
    congr 2
    omega

theorem Scientific.isDigits_split (h : ∀ c ∈ s.digits, c.isDigit = true) :
    isDigits s.split.1 = true ∧ ∀ c ∈ s.split.2, c.isDigit = true := by
  have hzero (k : ℕ) : ∀ c ∈ List.replicate k '0', c.isDigit = true := by
    intro c hc
    rw [List.eq_of_mem_replicate hc]
    rfl
  unfold Scientific.split
  split
  · refine ⟨rfl, fun c hc => ?_⟩
    rcases List.mem_append.mp hc with hc | hc
    · exact hzero _ c hc
    · exact h c hc
  · have hall : ∀ c ∈ s.digits ++ List.replicate (s.exponent.toNat + 1 - s.digits.length) '0',
        c.isDigit = true := by
      intro c hc
      rcases List.mem_append.mp hc with hc | hc
      · exact h c hc
      · exact hzero _ c hc
    refine ⟨?_, fun c hc => hall c (List.mem_of_mem_drop hc)⟩
    have hsome : 0 < ((s.digits ++ List.replicate (s.exponent.toNat + 1 - s.digits.length) '0').take
        (s.exponent.toNat + 1)).length := by
      rw [List.length_take, List.length_append, List.length_replicate]
      omega
    unfold isDigits
    simp only [Bool.and_eq_true, List.all_eq_true]
    refine ⟨?_, fun c hc => hall c (List.mem_of_mem_take hc)⟩
    simpa using List.length_pos_iff.mp hsome

/-- No zero stands in front of other digits before the point. -/
theorem Scientific.whole_split (h : s.digits.head? ≠ some '0')
    (hzero : s.digits = [] → s.exponent = 0) :
    s.split.1 = ['0'] ∨ s.split.1.head? ≠ some '0' := by
  unfold Scientific.split
  split
  · exact .inl rfl
  · cases hd : s.digits with
    | nil =>
      rw [hzero hd]
      exact .inl rfl
    | cons d digits =>
      rw [hd] at h
      exact .inr h

end Layouts

/-- Layouts that keep a fraction on whole values, write zero without an exponent, and mark an
exponent that is not negative with a plus sign. -/
structure Layout.IsExplicit (l : Layout) : Prop where
  fraction : l.fraction = true
  zero : l.isPositional 0 = true
  plus : ∀ e, l.isPositional e = false → l.plus = true

end Decimal

namespace Json
open Decimal

theorem isExplicit_floatLayout : floatLayout.IsExplicit := ⟨rfl, rfl, fun _ _ => rfl⟩

/-- What follows a number in a text and is no part of it. -/
def EndsNumber (rest : List Char) : Prop :=
  ∀ c ∈ rest.head?, c.isDigit = false ∧ c ≠ '.' ∧ c ≠ 'e' ∧ c ≠ 'E'

/-- A number as it stands in a text. -/
structure NumberText where
  negative : Bool
  whole : List Char
  fraction : Option (List Char)
  exponent : Option ℤ
  isDigits_whole : isDigits whole = true
  whole_head : whole = ['0'] ∨ whole.head? ≠ some '0'
  isDigits_fraction : ∀ digits ∈ fraction, isDigits digits = true

namespace NumberText

def fractionChars : Option (List Char) → List Char
  | none => []
  | some digits => '.' :: digits

def exponentChars : Option ℤ → List Char
  | none => []
  | some e => 'e' :: (if 0 ≤ e then ['+'] else []) ++ integerChars e

def chars (t : NumberText) : List Char :=
  (if t.negative then ['-'] else []) ++
    (t.whole ++ (fractionChars t.fraction ++ exponentChars t.exponent))

def numeral (t : NumberText) : Numeral :=
  .ofParts t.negative t.whole (t.fraction.getD []) (t.exponent.getD 0)

def parts (t : NumberText) : NumberParts := ⟨t.negative, t.whole, t.fraction, t.exponent⟩

end NumberText

theorem spanDigits_append {digits rest : List Char} (hd : ∀ c ∈ digits, c.isDigit = true)
    (hr : ∀ c ∈ rest.head?, c.isDigit = false) : spanDigits (digits ++ rest) = (digits, rest) := by
  unfold spanDigits
  rw [List.takeWhile_append_of_pos hd, List.dropWhile_append_of_pos hd]
  cases rest with
  | nil => simp
  | cons c rest =>
    have hc : c.isDigit = false := hr c rfl
    simp [hc]

theorem isDigits_cases {digits : List Char} (h : isDigits digits = true) :
    digits ≠ [] ∧ ∀ c ∈ digits, c.isDigit = true := by
  simpa [isDigits] using h

theorem wholeDigits_append {whole rest : List Char} (hw : isDigits whole = true)
    (hz : whole = ['0'] ∨ whole.head? ≠ some '0') (hr : ∀ c ∈ rest.head?, c.isDigit = false) :
    wholeDigits (whole ++ rest) = .ok (whole, rest) := by
  obtain ⟨hne, hall⟩ := isDigits_cases hw
  unfold wholeDigits
  rw [spanDigits_append hall hr]
  rcases hz with rfl | hz
  · rfl
  · split
    · rename_i heq
      cases heq
      exact absurd rfl hne
    · rename_i heq
      cases heq
      exact absurd rfl hz
    · rename_i heq
      cases heq
      rfl

theorem fractionDigits_append {fraction : Option (List Char)} {rest : List Char}
    (hf : ∀ digits ∈ fraction, isDigits digits = true) (hr : ∀ c ∈ rest.head?, c.isDigit = false)
    (hpoint : ∀ c ∈ rest.head?, c ≠ '.') :
    fractionDigits (NumberText.fractionChars fraction ++ rest) = .ok (fraction, rest) := by
  cases fraction with
  | none =>
    unfold NumberText.fractionChars fractionDigits
    rw [List.nil_append]
    split
    · exact absurd rfl (hpoint '.' rfl)
    · rfl
  | some digits =>
    obtain ⟨hne, hall⟩ := isDigits_cases (hf digits rfl)
    unfold NumberText.fractionChars fractionDigits
    simp only [List.cons_append, spanDigits_append hall hr]

theorem exponentPart_of_sign {negative : Bool} {n : ℕ} {cs rest : List Char}
    (hsign : takeSign cs = (negative, Nat.toDigits 10 n ++ rest)) (hr : EndsNumber rest) :
    exponentPart ('e' :: cs) = .ok (some (if negative then -(n : ℤ) else n), rest) := by
  have hdigits : spanDigits (Nat.toDigits 10 n ++ rest) = (Nat.toDigits 10 n, rest) :=
    spanDigits_append (isDigits_cases (isDigits_toDigits n)).2 fun c hc => (hr c hc).1
  simp only [exponentPart, decide_true, Bool.true_or, if_true, hsign, hdigits]
  split
  · rename_i heq
    exact absurd (congrArg Prod.fst heq) Nat.toDigits_ne_nil
  · rename_i heq
    cases heq
    rw [digitsValue_toDigits]

theorem exponentPart_append (exponent : Option ℤ) {rest : List Char} (hr : EndsNumber rest) :
    exponentPart (NumberText.exponentChars exponent ++ rest) = .ok (exponent, rest) := by
  cases exponent with
  | none =>
    cases rest with
    | nil => rfl
    | cons c rest =>
      obtain ⟨-, -, he, hE⟩ := hr c rfl
      simp [NumberText.exponentChars, exponentPart, he, hE]
  | some e =>
    rw [NumberText.exponentChars]
    cases e with
    | ofNat n =>
      have hn : (0 : ℤ) ≤ Int.ofNat n := Int.natCast_nonneg n
      have hsign : takeSign ('+' :: (Nat.toDigits 10 n ++ rest)) =
          (false, Nat.toDigits 10 n ++ rest) := rfl
      rw [if_pos hn]
      exact exponentPart_of_sign hsign hr
    | negSucc n =>
      have hn : ¬(0 : ℤ) ≤ Int.negSucc n := by omega
      have hsign : takeSign ('-' :: (Nat.toDigits 10 (n + 1) ++ rest)) =
          (true, Nat.toDigits 10 (n + 1) ++ rest) := rfl
      rw [if_neg hn]
      exact exponentPart_of_sign hsign hr

theorem numberParts_of_sign {body : List Char} (negative : Bool) (hb : ∀ cs, body ≠ '-' :: cs) :
    numberParts ((if negative then ['-'] else []) ++ body) = do
      let (whole, cs) ← wholeDigits body
      let (fraction, cs) ← fractionDigits cs
      let (exponent, cs) ← exponentPart cs
      return (⟨negative, whole, fraction, exponent⟩, cs) := by
  cases negative with
  | true => rfl
  | false =>
    change numberParts body = _
    unfold numberParts
    split
    rename_i sign cs hsign
    split at hsign
    · rename_i cs
      exact absurd rfl (hb cs)
    · cases hsign
      rfl

theorem head?_fractionChars_append {fraction : Option (List Char)} {rest : List Char} {c : Char}
    (h : c ∈ (NumberText.fractionChars fraction ++ rest).head?) : c = '.' ∨ c ∈ rest.head? := by
  cases fraction with
  | none => exact .inr h
  | some digits => exact .inl (Option.some.inj h).symm

theorem head?_exponentChars_append {exponent : Option ℤ} {rest : List Char} {c : Char}
    (h : c ∈ (NumberText.exponentChars exponent ++ rest).head?) : c = 'e' ∨ c ∈ rest.head? := by
  cases exponent with
  | none => exact .inr h
  | some e => exact .inl (Option.some.inj h).symm

/-- The text of a number is read as its parts, whatever follows it. -/
theorem numberParts_chars (t : NumberText) {rest : List Char} (hr : EndsNumber rest) :
    numberParts (t.chars ++ rest) = .ok (t.parts, rest) := by
  have hpoint : ∀ c ∈ (NumberText.exponentChars t.exponent ++ rest).head?,
      c.isDigit = false ∧ c ≠ '.' := by
    intro c hc
    rcases head?_exponentChars_append hc with rfl | hc
    · decide
    · exact ⟨(hr c hc).1, (hr c hc).2.1⟩
  have hdigit : ∀ c ∈ (NumberText.fractionChars t.fraction ++
      (NumberText.exponentChars t.exponent ++ rest)).head?, c.isDigit = false := by
    intro c hc
    rcases head?_fractionChars_append hc with rfl | hc
    · decide
    · exact (hpoint c hc).1
  have hwhole := wholeDigits_append t.isDigits_whole t.whole_head hdigit
  have hfraction := fractionDigits_append t.isDigits_fraction (fun c hc => (hpoint c hc).1)
    (fun c hc => (hpoint c hc).2)
  have hexponent := exponentPart_append t.exponent hr
  unfold NumberText.chars
  rw [List.append_assoc, List.append_assoc, List.append_assoc, numberParts_of_sign, hwhole]
  · simp only [bind, Except.bind, hfraction, hexponent]
    rfl
  · intro cs heq
    obtain ⟨hne, hall⟩ := isDigits_cases t.isDigits_whole
    obtain ⟨c, digits, he⟩ := List.exists_cons_of_ne_nil hne
    rw [he] at heq hall
    cases heq
    exact absurd (hall '-' List.mem_cons_self) (by decide)

namespace NumberText

/-- The text of an integer. -/
def ofInt (n : ℤ) : NumberText where
  negative := decide (n < 0)
  whole := Nat.toDigits 10 n.natAbs
  fraction := none
  exponent := none
  isDigits_whole := isDigits_toDigits _
  whole_head := by
    by_cases hn : n.natAbs = 0
    · rw [hn]
      exact .inl rfl
    · exact .inr (head?_toDigits hn)
  isDigits_fraction := by simp

theorem chars_ofInt (n : ℤ) : (ofInt n).chars = integerChars n := by
  unfold chars fractionChars exponentChars
  cases n with
  | ofNat n => simp [ofInt, integerChars]
  | negSucc n => simp [ofInt, integerChars]

theorem found_ofInt {n : ℤ} (hlow : Int64.minValue.toInt ≤ n) (hhigh : n < UInt64.size) :
    (ofInt n).parts.found = .ok (.integer n) := by
  have hdigits : digitsValue (ofInt n).parts.whole = n.natAbs := digitsValue_toDigits n.natAbs
  have hnegative : (ofInt n).parts.negative = decide (n < 0) := rfl
  have hwhole : (ofInt n).parts.isWhole = true := rfl
  unfold NumberParts.found
  simp only [hdigits, hnegative, hwhole]
  by_cases hn : n < 0
  · have hpos : 0 < n.natAbs := by omega
    have habs : -(n.natAbs : ℤ) = n := by omega
    simp only [hn, hlow, hpos, habs, decide_true, Bool.not_true, Bool.and_false, Bool.false_and,
      Bool.and_self, Bool.false_eq_true, if_false, if_true]
  · have hsize : n.natAbs < UInt64.size := by omega
    have habs : (n.natAbs : ℤ) = n := by omega
    simp only [hn, hsize, habs, decide_true, decide_false, Bool.not_false, Bool.and_self, if_true]

theorem magnitude_ofParts_zero (negative : Bool) (whole : List Char) (exponent : ℤ) :
    (Numeral.ofParts negative whole ['0'] exponent).magnitude =
      (Numeral.ofParts negative whole [] exponent).magnitude := by
  have hzero : digitsValue ['0'] = 0 := rfl
  unfold Numeral.magnitude Numeral.ofParts
  dsimp only
  rw [digitsValue_append, hzero, List.append_nil, Nat.add_zero, cast_mul_ten_pow]
  congr 2
  simp

/-- Positional notation is the text of a number with the same value. -/
theorem exists_positional {l : Layout} (hl : l.fraction = true) (negative : Bool) {s : Scientific}
    (hdigits : ∀ c ∈ s.digits, c.isDigit = true) (hhead : s.digits.head? ≠ some '0')
    (hzero : s.digits = [] → s.exponent = 0) :
    ∃ t : NumberText, t.chars = (if negative then ['-'] else []) ++ l.positional s ∧
      t.numeral.magnitude = s.value ∧ t.numeral.negative = negative ∧ t.parts.isWhole = false := by
  obtain ⟨hwhole, hfraction⟩ := Scientific.isDigits_split hdigits
  have hfront := Scientific.whole_split hhead hzero
  have hvalue := s.magnitude_split negative
  unfold Layout.positional
  generalize s.split = split at hwhole hfraction hfront hvalue
  obtain ⟨whole, fraction⟩ := split
  cases fraction with
  | nil =>
    refine ⟨⟨negative, whole, some ['0'], none, hwhole, hfront, ?_⟩, ?_, ?_, rfl, rfl⟩
    · rintro digits ⟨rfl⟩
      rfl
    · simp [chars, fractionChars, exponentChars, hl]
    · exact (magnitude_ofParts_zero negative whole 0).trans hvalue
  | cons d fraction =>
    refine ⟨⟨negative, whole, some (d :: fraction), none, hwhole, hfront, ?_⟩, ?_, hvalue, rfl, rfl⟩
    · rintro digits ⟨rfl⟩
      simpa [isDigits] using hfraction
    · simp [chars, fractionChars, exponentChars]

/-- Exponent notation is the text of a number with the same value. -/
theorem exists_exponential {l : Layout} (hl : l.plus = true) (negative : Bool) {s : Scientific}
    (hs : s.IsNormal) :
    ∃ t : NumberText, t.chars = (if negative then ['-'] else []) ++ l.exponential s ∧
      t.numeral.magnitude = s.value ∧ t.numeral.negative = negative ∧ t.parts.isWhole = false := by
  obtain ⟨digits, exponent⟩ := s
  obtain ⟨hdigits, hhead⟩ := hs
  obtain ⟨hne, hall⟩ := isDigits_cases hdigits
  obtain ⟨d, rest, rfl⟩ := List.exists_cons_of_ne_nil hne
  have hwhole : isDigits [d] = true := by simpa [isDigits] using hall d List.mem_cons_self
  have hvalue : (Numeral.ofParts negative [d] rest exponent).magnitude =
      (⟨d :: rest, exponent⟩ : Scientific).value := by
    unfold Numeral.magnitude Numeral.ofParts Scientific.value
    dsimp only
    rw [List.singleton_append, List.length_cons]
    congr 2
    push_cast
    ring
  cases rest with
  | nil =>
    refine ⟨⟨negative, [d], none, some exponent, hwhole, .inr hhead, ?_⟩, ?_, hvalue, rfl, rfl⟩
    · simp
    · simp [chars, fractionChars, exponentChars, Layout.exponential, hl]
  | cons e rest =>
    refine ⟨⟨negative, [d], some (e :: rest), some exponent, hwhole, .inr hhead, ?_⟩, ?_, hvalue, rfl,
      rfl⟩
    · rintro digits ⟨rfl⟩
      simpa [isDigits] using fun c hc => hall c (List.mem_cons_of_mem _ hc)
    · simp [chars, fractionChars, exponentChars, Layout.exponential, hl]

/-- The text of a magnitude is the text of a number that rounds to the magnitude. -/
theorem exists_magnitude {l : Layout} (hl : l.IsExplicit) {b : Binary} (hc : b.IsCanonical)
    (negative : Bool) :
    ∃ t : NumberText, t.chars = (if negative then ['-'] else []) ++ l.magnitude b ∧
      t.numeral.magnitudeBits = b.toBits ∧ t.numeral.negative = negative ∧
      t.parts.isWhole = false := by
  unfold Layout.magnitude
  by_cases hm : b.mantissa = 0
  · have hshort : b.shortest l.tie = ⟨[], 0⟩ := if_pos hm
    have hbits : b.toBits = 0 := by
      unfold Binary.toBits
      rw [hm]
      rfl
    obtain ⟨t, hchars, hvalue, hnegative, hwhole⟩ := exists_positional hl.fraction negative
      (s := ⟨[], 0⟩) (by simp) (by simp) (fun _ => rfl)
    have hdigits : t.numeral.digits = 0 := by
      have hzero : (t.numeral.digits : ℚ) * 10 ^ t.numeral.scale = 0 := by
        rw [← Numeral.magnitude, hvalue]
        simp [Scientific.value, digitsValue]
      have hscale : (10 : ℚ) ^ t.numeral.scale ≠ 0 := by positivity
      exact_mod_cast (mul_eq_zero.mp hzero).resolve_right hscale
    refine ⟨t, ?_, ?_, hnegative, hwhole⟩
    · rw [hshort, if_pos hl.zero]
      exact hchars
    · rw [hbits, Numeral.magnitudeBits, if_pos hdigits]
  · obtain ⟨hs, hattracts⟩ := Binary.shortest_spec hc hm l.tie
    generalize b.shortest l.tie = s at hs hattracts
    obtain ⟨hne, hall⟩ := isDigits_cases hs.isDigits_digits
    have htext : ∃ t : NumberText, t.chars = (if negative then ['-'] else []) ++
        (if l.isPositional s.exponent then l.positional s else l.exponential s) ∧
        t.numeral.magnitude = s.value ∧ t.numeral.negative = negative ∧
        t.parts.isWhole = false := by
      cases he : l.isPositional s.exponent with
      | true =>
        exact exists_positional hl.fraction negative hall hs.head?_digits fun h => absurd h hne
      | false => exact exists_exponential (hl.plus s.exponent he) negative hs
    obtain ⟨t, hchars, hvalue, hsign⟩ := htext
    rw [← hvalue] at hattracts
    exact ⟨t, hchars, Numeral.magnitudeBits_eq hc hm hattracts, hsign⟩

/-- The text of a finite float is the text of a number that rounds to the float. -/
theorem exists_finite {l : Layout} (hl : l.IsExplicit) {x : Float} (hx : x.isFinite = true) :
    ∃ t : NumberText, t.chars = (l.render x).toList ∧ t.numeral.toFloat = x ∧
      t.parts.isWhole = false := by
  obtain ⟨negative, b, hreading⟩ := isFinite_iff.mp hx
  obtain ⟨hc, hfloat⟩ := Reading.ofFloat_eq_finite hreading
  obtain ⟨t, hchars, hbits, hnegative, hwhole⟩ := exists_magnitude hl hc negative
  have hrender : (l.render x).toList = (if negative then ['-'] else []) ++ l.magnitude b := by
    unfold Layout.render
    rw [hreading]
    cases negative with
    | true => simp
    | false => simp
  refine ⟨t, hchars.trans hrender.symm, ?_, hwhole⟩
  rw [Numeral.toFloat, hbits, hnegative, hfloat]

/-- A number with a fraction or an exponent is found as a float, if it is in range. -/
theorem found_of_not_isWhole {t : NumberText} (h : t.parts.isWhole = false) :
    t.parts.found = t.parts.float?.elim (.error .malformed) fun x => .ok (.float x) := by
  unfold NumberParts.found
  simp only [h, Bool.false_and, Bool.false_eq_true, if_false]

/-- The text of a number starts with a sign or a digit. -/
theorem exists_chars_eq_cons (t : NumberText) :
    ∃ c cs, t.chars = c :: cs ∧ (c = '-' ∨ c.isDigit = true) := by
  unfold chars
  cases t.negative with
  | true => exact ⟨'-', _, rfl, .inl rfl⟩
  | false =>
    obtain ⟨hne, hall⟩ := isDigits_cases t.isDigits_whole
    obtain ⟨c, digits, he⟩ := List.exists_cons_of_ne_nil hne
    rw [he] at hall ⊢
    exact ⟨c, _, rfl, .inr (hall c List.mem_cons_self)⟩

end NumberText

section Starts
variable {c : Char} (hc : c = '-' ∨ c.isDigit = true)
include hc

theorem ne_of_startsNumber {d : Char} (hd : d ≠ '-' ∧ d.isDigit = false) : c ≠ d := by
  rintro rfl
  rcases hc with rfl | hc
  · exact hd.1 rfl
  · rw [hc] at hd
    exact absurd hd.2 (by decide)

theorem isBlank_of_startsNumber : isBlank c = false := by
  simp [isBlank, ne_of_startsNumber hc]

end Starts

/-- A number in a text is found as what its parts stand for. -/
theorem look_number (t : NumberText) {rest : List Char} (hr : EndsNumber rest) :
    look (t.chars ++ rest) = t.parts.found.map (·, rest) := by
  have hparts := numberParts_chars t hr
  obtain ⟨c, cs, hchars, hc⟩ := t.exists_chars_eq_cons
  rw [hchars, List.cons_append] at hparts ⊢
  have hstart : (c = '-' || c.isDigit) = true := by simpa using hc
  have hskip : skipBlanks (c :: (cs ++ rest)) = c :: (cs ++ rest) := by
    simp [skipBlanks, isBlank_of_startsNumber hc]
  unfold look
  rw [hskip]
  dsimp only
  rw [if_neg (ne_of_startsNumber hc (by decide)), if_neg (ne_of_startsNumber hc (by decide)),
    if_neg (ne_of_startsNumber hc (by decide)), if_neg (ne_of_startsNumber hc (by decide)),
    if_neg (ne_of_startsNumber hc (by decide)), if_neg (ne_of_startsNumber hc (by decide)),
    if_pos hstart]
  simp only [hparts, bind, Except.bind]
  cases t.parts.found with
  | ok found => rfl
  | error fault => rfl

/-- The float of a text that is a number and nothing else. -/
def floatOfText? (text : String) : Option Float :=
  match numberParts text.toList with
  | .ok (parts, []) => parts.float?
  | _ => none

theorem NumberText.float?_parts (t : NumberText) {text : String} (h : t.chars = text.toList) :
    t.parts.float? = floatOfText? text := by
  have hparts : numberParts (t.chars ++ []) = .ok (t.parts, []) :=
    numberParts_chars t fun c hc => nomatch hc
  rw [List.append_nil] at hparts
  unfold floatOfText?
  rw [← h, hparts]

end Json
end StackMachine
