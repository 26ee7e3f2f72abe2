import Mathlib.Data.Nat.Digits.Defs
import StackMachine.Proofs.Literals

/-! Integer literals of any length. The vocabulary looks at their shape only; the number that the
digits stand for decides whether there is an element, and which one it is. -/
namespace StackMachine
open Vocabulary

namespace Decimal

/-- The number that digits stand for in positional notation, the last one being the units. -/
def magnitudeOf (digits : List Char) : ℕ :=
  Nat.ofDigits 10 (digits.reverse.map fun c => c.toNat - '0'.toNat)

/-- The number that digits stand for, with or without a minus sign in front. -/
def integerOf : List Char → ℤ
  | '-' :: digits => -magnitudeOf digits
  | digits => magnitudeOf digits

theorem digitsValue_eq_magnitudeOf (digits : List Char) :
    digitsValue digits = magnitudeOf digits := by
  induction digits using List.reverseRecOn with
  | nil => rfl
  | append_singleton digits c ih =>
    have hunits : digitsValue [c] = c.toNat - '0'.toNat := Nat.zero_add _
    rw [digitsValue_append, ih, hunits]
    unfold magnitudeOf
    rw [List.reverse_append, List.reverse_singleton, List.singleton_append, List.map_cons,
      Nat.ofDigits_cons, List.length_singleton]
    ring

theorem signedValue_eq_integerOf {sign digits : List Char} (hs : IsSign sign)
    (hd : IsDigitRun digits) : signedValue sign digits = integerOf (sign ++ digits) := by
  unfold signedValue
  rw [digitsValue_eq_magnitudeOf]
  rcases hs with rfl | rfl
  · have hminus : ∀ rest, digits ≠ '-' :: rest := by
      rintro rest rfl
      exact hd.minus_not_mem List.mem_cons_self
    rw [List.nil_append, if_neg (by decide)]
    unfold integerOf
    split
    · rename_i rest
      exact absurd rfl (hminus rest)
    · rfl
  · rfl

theorem integer?_of_isIntegerShape {token : String} (h : IsIntegerShape token.toList) :
    integer? token = some (integerOf token.toList) := by
  obtain ⟨sign, digits, hs, hd, he⟩ := h
  rw [integer?_of_shape hs hd he, signedValue_eq_integerOf hs hd, he]

/-- A word stands for an integer exactly if the integer is its value. -/
theorem int64?_eq_some_iff {n : ℤ} {w : Int64} : int64? n = some w ↔ w.toInt = n := by
  constructor
  · intro h
    unfold int64? at h
    split at h
    · rename_i hrange
      cases h
      exact Int64.toInt_ofInt_of_le hrange.1 (Int.lt_of_le_of_lt hrange.2 (by decide))
    · cases h
  · rintro rfl
    exact int64?_toInt w

theorem exists_toInt_eq_iff {n : ℤ} :
    (∃ w : Int64, w.toInt = n) ↔ -2 ^ 63 ≤ n ∧ n ≤ 2 ^ 63 - 1 := by
  constructor
  · rintro ⟨w, rfl⟩
    exact ⟨w.le_toInt, Int.le_sub_one_of_lt w.toInt_lt⟩
  · rintro ⟨hlow, hhigh⟩
    exact ⟨Int64.ofInt n, Int64.toInt_ofInt_of_le hlow (Int.lt_of_le_sub_one hhigh)⟩

end Decimal

open Decimal

theorem Kind.parse?_integer_eq_some_iff {token : String} (h : IsIntegerShape token.toList)
    {e : Element} : Kind.integer.parse? token = some e ↔
      ∃ w : Int64, w.toInt = integerOf token.toList ∧ e = .integer w := by
  show ((integer? token).bind int64?).map Element.integer = some e ↔ _
  rw [integer?_of_isIntegerShape h, Option.bind_some, Option.map_eq_some_iff]
  simp only [int64?_eq_some_iff, eq_comm (b := e)]

namespace TypedStack
variable {X : Type}

theorem pushLiteral_of_some {t : TypedStack X} {token : String} {e : Element}
    (h : t.kind.parse? token = some e) : t.pushLiteral token = t.mapContents (·.push e) := by
  unfold pushLiteral
  rw [h]

theorem pushLiteral_of_none {t : TypedStack X} {token : String}
    (h : t.kind.parse? token = none) : t.pushLiteral token = t := by
  unfold pushLiteral
  rw [h]

/-- The step from one stack of integers to another that an integer of any size makes: the integer is
added on top if it has 64 bits, and otherwise nothing changes. -/
structure PushesInteger (n : ℤ) (t t' : TypedStack X) : Prop where
  operations_eq : t'.operations = t.operations
  kind_eq : t'.kind = t.kind
  elements_eq : ∀ w : Int64, w.toInt = n →
    t'.contents.elements = t.contents.elements ++ [.integer w]
  eq_self : ¬(-2 ^ 63 ≤ n ∧ n ≤ 2 ^ 63 - 1) → t' = t

theorem pushesInteger_pushLiteral {token : String} (h : IsIntegerShape token.toList)
    {t : TypedStack X} (ht : t.kind = .integer) :
    PushesInteger (integerOf token.toList) t (t.pushLiteral token) := by
  by_cases hrange : ∃ w : Int64, w.toInt = integerOf token.toList
  · obtain ⟨w, hw⟩ := hrange
    have hparse : t.kind.parse? token = some (.integer w) := by
      rw [ht]
      exact (Kind.parse?_integer_eq_some_iff h).mpr ⟨w, hw, rfl⟩
    have hkind : (Element.integer w).kind = t.contents.kind := ht.symm
    rw [pushLiteral_of_some hparse]
    refine ⟨rfl, Contents.kind_push _ _, fun w' hw' => ?_, fun hout => ?_⟩
    · rw [Int64.toInt_inj.mp (hw'.trans hw.symm)]
      exact Contents.elements_push hkind
    · exact absurd (exists_toInt_eq_iff.mp ⟨w, hw⟩) hout
  · have hparse : t.kind.parse? token = none := by
      rw [ht, Option.eq_none_iff_forall_ne_some]
      intro e he
      obtain ⟨w, hw, -⟩ := (Kind.parse?_integer_eq_some_iff h).mp he
      exact hrange ⟨w, hw⟩
    rw [pushLiteral_of_none hparse]
    exact ⟨rfl, rfl, fun w hw => absurd ⟨w, hw⟩ hrange, fun _ => rfl⟩

end TypedStack

namespace Vocabulary

theorem isIntegerShape_of_instruction? {v : Vocabulary} {token : String} {i : Instruction}
    (h : v.instruction? token = some i) (hi : i.command = .literal .integer) :
    IsIntegerShape token.toList := by
  obtain ⟨c, hc, rfl⟩ := Option.map_eq_some_iff.mp h
  have hdenotes := command?_eq_some_iff.mp hc
  rw [show c = .literal .integer from hi] at hdenotes
  exact hdenotes

/-- A token that is read as an integer literal denotes an element exactly if its number has 64 bits;
the element is that number, and it is what the literal puts on a stack of integers. Every integer is
written as such a token, and the token denotes it. -/
theorem integer_literals_exact (v : Vocabulary) :
    (∀ token i, v.instruction? token = some i → i.command = .literal .integer →
      (∀ e, Kind.integer.parse? token = some e ↔
        ∃ w : Int64, w.toInt = integerOf token.toList ∧ e = .integer w) ∧
      ((Kind.integer.parse? token).isSome = true ↔
        -2 ^ 63 ≤ integerOf token.toList ∧ integerOf token.toList ≤ 2 ^ 63 - 1) ∧
      ∀ {X : Type} (t : TypedStack X), t.kind = .integer →
        t.PushesInteger (integerOf token.toList) (t.pushLiteral token)) ∧
    ∀ w : Int64,
      v.instruction? (Element.text (.integer w)) =
        some ⟨.literal .integer, Element.text (.integer w), 0⟩ ∧
      Kind.integer.parse? (Element.text (.integer w)) = some (.integer w) := by
  refine ⟨fun token i hread hi => ?_, fun w => ?_⟩
  · have hshape := isIntegerShape_of_instruction? hread hi
    refine ⟨fun e => Kind.parse?_integer_eq_some_iff hshape, ?_, fun t ht => ?_⟩
    · rw [← exists_toInt_eq_iff, Option.isSome_iff_exists]
      constructor
      · rintro ⟨e, he⟩
        obtain ⟨w, hw, -⟩ := (Kind.parse?_integer_eq_some_iff hshape).mp he
        exact ⟨w, hw⟩
      · rintro ⟨w, hw⟩
        exact ⟨_, (Kind.parse?_integer_eq_some_iff hshape).mpr ⟨w, hw, rfl⟩⟩
    · exact TypedStack.pushesInteger_pushLiteral hshape ht
  · have hkind : (Element.integer w).kind ≠ .float := by simp [Element.kind]
    exact ⟨instruction?_of_denotes (Element.denotes_text hkind v.known), Element.parse?_text hkind⟩

/-- The least integer with zeros in front, and the integer below it. -/
theorem integer_literals_exact_at_least :
    let v : Vocabulary := {}
    let t : TypedStack Empty := .standard .integer
    (v.instruction? "-0009223372036854775808").isSome = true ∧
    Kind.integer.parse? "-0009223372036854775808" = some (.integer Int64.minValue) ∧
    (t.pushLiteral "-0009223372036854775808").contents.elements = [.integer Int64.minValue] ∧
    t.pushLiteral "-9223372036854775809" = t := by
  intro v t
  let literal (token : String) : Instruction := ⟨.literal .integer, token, 0⟩
  obtain ⟨hparse, -, hpush⟩ := (integer_literals_exact v).1 "-0009223372036854775808"
    (literal "-0009223372036854775808") (by decide +kernel) rfl
  obtain ⟨-, -, hpush'⟩ := (integer_literals_exact v).1 "-9223372036854775809"
    (literal "-9223372036854775809") (by decide +kernel) rfl
  have hvalue : Int64.minValue.toInt = integerOf "-0009223372036854775808".toList := by
    decide +kernel
  refine ⟨by decide +kernel, (hparse _).mpr ⟨_, hvalue, rfl⟩, ?_, ?_⟩
  · exact (hpush t rfl).elements_eq _ hvalue
  · exact (hpush' t rfl).eq_self (by decide +kernel)

end Vocabulary
end StackMachine
