import Mathlib.Data.Int.ModEq
import StackMachine.Proofs.Locality

/-! Arithmetic on integers of 64 bits. Sums, differences and products are exact up to a multiple of
the number of words; quotients and remainders are those of truncated division, with one exception
where the quotient is no word. -/
namespace StackMachine

/-- The word that is congruent to an integer, as the only one. -/
def IsResidue (n : Int) (c : Int64) : Prop :=
  ∀ d : Int64, d.toInt ≡ n [ZMOD 2 ^ 64] ↔ d = c

theorem isResidue_of_toInt_eq {n : Int} {c : Int64} (h : c.toInt = n.bmod (2 ^ 64)) :
    IsResidue n c := by
  have hcast : ((2 ^ 64 : Nat) : Int) = 2 ^ 64 := rfl
  intro d
  rw [← Int64.toInt_inj, h]
  constructor
  · intro hd
    calc d.toInt
      _ = d.toInt.bmod (2 ^ 64) := d.toInt_bmod.symm
      _ = (d.toInt % (2 ^ 64 : Nat)).bmod (2 ^ 64) := (Int.emod_bmod _ _).symm
      _ = (n % (2 ^ 64 : Nat)).bmod (2 ^ 64) := by rw [hcast, hd]
      _ = n.bmod (2 ^ 64) := Int.emod_bmod _ _
  · intro hd
    rw [hd, Int.ModEq, ← hcast, Int.bmod_emod]

/-- The quotient `q` and the remainder `r` of a division of words. The quotient is truncated; only
that of the least word by minus one is too large and wraps around. -/
structure IsDivision (a b q r : Int64) : Prop where
  congruent : q.toInt * b.toInt + r.toInt ≡ a.toInt [ZMOD 2 ^ 64]
  remainder_lt : r.toInt.natAbs < b.toInt.natAbs
  remainder_sign : r = 0 ∨ r.toInt.sign = a.toInt.sign
  quotient_eq : if a = Int64.minValue ∧ b = -1 then q = Int64.minValue ∧ r = 0
    else q.toInt = a.toInt.tdiv b.toInt

theorem toInt_div_eq_tdiv {a b : Int64} (h : ¬(a = Int64.minValue ∧ b = -1)) :
    (a / b).toInt = a.toInt.tdiv b.toInt := by
  by_cases ha : a = Int64.minValue
  · exact Int64.toInt_div_of_ne_right a b fun hb => h ⟨ha, hb⟩
  · exact Int64.toInt_div_of_ne_left a b ha

theorem isDivision_div_mod (a : Int64) {b : Int64} (hb : b ≠ 0) :
    IsDivision a b (a / b) (a % b) := by
  have hb0 : b.toInt ≠ 0 := fun h => hb (Int64.toInt_inj.mp h)
  have hsign : a % b = 0 ∨ (a % b).toInt.sign = a.toInt.sign := by
    rw [← Int64.toInt_inj, Int64.toInt_mod, Int64.toInt_zero, Int.sign_tmod]
    by_cases hdvd : b.toInt ∣ a.toInt
    · exact .inl (Int.tmod_eq_zero_of_dvd hdvd)
    · exact .inr (if_neg hdvd)
  refine ⟨?_, ?_, hsign, ?_⟩
  · by_cases h : a = Int64.minValue ∧ b = -1
    · obtain ⟨rfl, rfl⟩ := h
      decide
    · rw [toInt_div_eq_tdiv h, Int64.toInt_mod, Int.tdiv_mul_add_tmod]
  · rw [Int64.toInt_mod, Int.natAbs_tmod]
    exact Nat.mod_lt _ (Int.natAbs_pos.mpr hb0)
  · split
    · rename_i h
      obtain ⟨rfl, rfl⟩ := h
      decide
    · exact toInt_div_eq_tdiv ‹_›

namespace Memory
variable {X α : Type} [Carrier α]

/-- An operation on a stack with two elements on top. -/
theorem binaryIf_pushAll {m : Memory X} {target : String} {below : Stack α} {a b : α}
    (hs : m.typed? α target = some (below.pushAll [a, b])) (admits : α → Bool) (f : α → α → α) :
    m.binaryIf admits f target = if admits b then m.put target (below.push (f a b)) else m := by
  have hpop : (below.pushAll [a, b]).popPair? = some (a, b, below) := rfl
  unfold binaryIf
  rw [hs, Option.bind_some, hpop]

end Memory

namespace Machine
variable {X σ : Type} [Host X] [RandomSource σ]

/-- The machine with other values on one of its stacks. -/
def withValues {α : Type} [Carrier α] (m : Machine X) (name : String) (s : Stack α) : Machine X :=
  { m with memory := m.memory.put name s }

/-- A call that applies a function to the two integers on top of its stack. -/
theorem call_binaryIf {m : Machine X} {target : String} {op : IntegerOp} {below : Stack Int64}
    {a b : Int64} {admits : Int64 → Bool} {f : Int64 → Int64 → Int64} (source : σ)
    (hs : m.memory.typed? Int64 target = some (below.pushAll [a, b]))
    (hop : m.operation? target op.name = some (.builtin (.integer op)))
    (happly : op.apply target m.memory source = (m.memory.binaryIf admits f target, source)) :
    m.call target op.name source =
      (if admits b then m.withValues target (below.push (f a b)) else m, source) := by
  rw [call_eq_apply hop]
  simp only [Builtin.apply, happly, Memory.binaryIf_pushAll hs]
  split <;> rfl

/-- What arithmetic leaves of the two integers on top of a stack, the second `a` and the top `b`.
Divisions by zero leave everything as it is. -/
theorem integer_arithmetic {m : Machine X} {target : String} {below : Stack Int64} {a b : Int64}
    (source : σ) (hs : m.memory.typed? Int64 target = some (below.pushAll [a, b]))
    (hops : ∀ op : IntegerOp, m.operation? target op.name = some (.builtin (.integer op))) :
    let leaves (c : Int64) : Machine X × σ := (m.withValues target (below.push c), source)
    (∃ c, m.call target "+" source = leaves c ∧ IsResidue (a.toInt + b.toInt) c) ∧
    (∃ c, m.call target "-" source = leaves c ∧ IsResidue (a.toInt - b.toInt) c) ∧
    (∃ c, m.call target "*" source = leaves c ∧ IsResidue (a.toInt * b.toInt) c) ∧
    (b ≠ 0 → ∃ q r, m.call target "/" source = leaves q ∧ m.call target "%" source = leaves r ∧
      IsDivision a b q r) ∧
    (b = 0 → m.call target "/" source = (m, source) ∧ m.call target "%" source = (m, source)) ∧
    ∃ low high, m.call target "min" source = leaves low ∧
      m.call target "max" source = leaves high ∧ low ≤ high ∧
      (low = a ∧ high = b ∨ low = b ∧ high = a) := by
  intro leaves
  have hadd := call_binaryIf source hs (hops .add) rfl
  have hsub := call_binaryIf source hs (hops .sub) rfl
  have hmul := call_binaryIf source hs (hops .mul) rfl
  have hdiv := call_binaryIf source hs (hops .div) rfl
  have hrem := call_binaryIf source hs (hops .rem) rfl
  have hmin := call_binaryIf source hs (hops .min) rfl
  have hmax := call_binaryIf source hs (hops .max) rfl
  refine ⟨⟨_, hadd, ?_⟩, ⟨_, hsub, ?_⟩, ⟨_, hmul, ?_⟩, ?_, ?_, ⟨_, _, hmin, hmax, ?_⟩⟩
  · exact isResidue_of_toInt_eq (a.toInt_add b)
  · exact isResidue_of_toInt_eq (a.toInt_sub b)
  · exact isResidue_of_toInt_eq (a.toInt_mul b)
  · intro hb
    rw [if_pos (decide_eq_true hb)] at hdiv hrem
    exact ⟨_, _, hdiv, hrem, isDivision_div_mod a hb⟩
  · intro hb
    have hzero : ¬decide (b ≠ 0) = true := by simpa using hb
    rw [if_neg hzero] at hdiv hrem
    exact ⟨hdiv, hrem⟩
  · by_cases h : a ≤ b
    · simp [h]
    · have hba : b ≤ a := (a.le_total b).resolve_left h
      simp [h, hba]

/-- The one quotient that is no word. -/
theorem integer_arithmetic_least_by_minus_one :
    let integers : TypedStack Empty :=
      (TypedStack.standard .integer).pushAll [.integer 7, .integer Int64.minValue, .integer (-1)]
    let m : Machine Empty := standard.addStack "integer" integers
    let source : Script := ⟨[], []⟩
    let below : Stack Int64 := .ofBottomUp [7]
    m.memory.typed? Int64 "integer" = some (below.pushAll [Int64.minValue, -1]) ∧
    (∀ op : IntegerOp, m.operation? "integer" op.name = some (.builtin (.integer op))) ∧
    (-1 : Int64) ≠ 0 ∧
    (∃ q r, m.call "integer" "/" source = (m.withValues "integer" (below.push q), source) ∧
      m.call "integer" "%" source = (m.withValues "integer" (below.push r), source) ∧
      IsDivision Int64.minValue (-1) q r) ∧
    (m.call "integer" "/" source).1.elements? "integer" =
      some [.integer 7, .integer Int64.minValue] ∧
    (m.call "integer" "%" source).1.elements? "integer" = some [.integer 7, .integer 0] := by
  intro integers m source below
  have hs : m.memory.typed? Int64 "integer" = some (below.pushAll [Int64.minValue, -1]) := by
    decide
  have hops : ∀ op : IntegerOp,
      m.operation? "integer" op.name = some (.builtin (.integer op)) := by
    intro op
    cases op <;> decide
  obtain ⟨-, -, -, hdivision, -⟩ := integer_arithmetic source hs hops
  have hne : (-1 : Int64) ≠ 0 := by decide
  exact ⟨hs, hops, hne, hdivision hne, by decide, by decide⟩

end Machine
end StackMachine
