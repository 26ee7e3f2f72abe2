import StackMachine.Contents
import StackMachine.Proofs.Positions

/-! Elements addressed by their depth. An index counts from the top, so it names the position that
is the size less one less the index, counted from the bottom. -/
namespace StackMachine

/-- Subtraction of words, without a result where it overflows. -/
def checkedSub (a b : Int64) : Option Int64 :=
  if a.toBitVec.ssubOverflow b.toBitVec then none else some (a - b)

theorem checkedSub_eq_some_iff {a b c : Int64} :
    checkedSub a b = some c ↔ c.toInt = a.toInt - b.toInt := by
  have hlow := c.le_toInt
  have hhigh := c.toInt_lt
  unfold checkedSub
  by_cases h : a.toBitVec.ssubOverflow b.toBitVec = true
  · have hout : ¬c.toInt = a.toInt - b.toInt := by
      simp only [BitVec.ssubOverflow, Int64.toInt_toBitVec, Bool.or_eq_true,
        decide_eq_true_eq] at h
      omega
    rw [if_pos h]
    constructor
    · intro hc
      cases hc
    · intro hc
      exact absurd hc hout
  · have hsub : (a - b).toInt = a.toInt - b.toInt := BitVec.toInt_sub_of_not_ssubOverflow h
    rw [if_neg h, Option.some.injEq, ← Int64.toInt_inj, hsub]
    exact eq_comm

theorem toInt_add_one {index : Int64} (h : index ≠ Int64.maxValue) :
    (index + 1).toInt = index.toInt + 1 := by
  have hlow := index.le_toInt
  have hhigh := index.toInt_lt
  have hne : index.toInt ≠ 2 ^ 63 - 1 := fun h' => h (Int64.toInt_inj.mp h')
  rw [Int64.toInt_add, Int64.toInt_one]
  exact Int.bmod_eq_of_le (by omega) (by omega)

theorem toInt_sub_one {index : Int64} (h : index ≠ Int64.minValue) :
    (index - 1).toInt = index.toInt - 1 := by
  have hlow := index.le_toInt
  have hhigh := index.toInt_lt
  have hne : index.toInt ≠ -2 ^ 63 := fun h' => h (Int64.toInt_inj.mp h')
  rw [Int64.toInt_sub, Int64.toInt_one]
  exact Int.bmod_eq_of_le (by omega) (by omega)

theorem toInt_toInt64 {word : UInt64} (h : word.toNat ≤ Int64.maxValue.toInt) :
    word.toInt64.toInt = word.toNat := by
  have hmax := Int64.toInt_maxValue
  have hhalf : 2 * word.toBitVec.toNat < 2 ^ 64 := by
    rw [UInt64.toNat_toBitVec]
    omega
  exact BitVec.toInt_eq_toNat_of_lt hhalf

/-- The position from the bottom that an index names in a stack of some size, computed in words. It
can lie past the top, and there is none below the bottom. -/
def wordPosition? (size : UInt64) (index : Int64) : Option UInt64 :=
  (checkedSub (size.toInt64 - 1) index).bind fun p => if 0 ≤ p then some p.toUInt64 else none

theorem toInt_last {size : UInt64} (h : size.toNat ≤ Int64.maxValue.toInt) :
    (size.toInt64 - 1).toInt = size.toNat - 1 := by
  have hsize := toInt_toInt64 h
  have hne : size.toInt64 ≠ Int64.minValue := by
    intro h'
    rw [h', Int64.toInt_minValue] at hsize
    omega
  rw [toInt_sub_one hne, hsize]

theorem wordPosition?_eq_some_iff {size p : UInt64} {index : Int64}
    (h : size.toNat ≤ Int64.maxValue.toInt) :
    wordPosition? size index = some p ↔
      p.toNat ≤ Int64.maxValue.toInt ∧ (p.toNat : Int) = size.toNat - 1 - index.toInt := by
  have hmax := Int64.toInt_maxValue
  have hlast := toInt_last h
  unfold wordPosition?
  rw [Option.bind_eq_some_iff]
  constructor
  · rintro ⟨q, hq, hp⟩
    rw [checkedSub_eq_some_iff, hlast] at hq
    split at hp
    · rename_i h0
      cases hp
      have hnat := Int64.toNat_toUInt64_of_le h0
      have hclamp := q.toNat_toInt
      have hhigh := q.toInt_lt
      rw [Int64.le_iff_toInt_le, Int64.toInt_zero] at h0
      omega
    · cases hp
  · rintro ⟨hle, hp⟩
    have hword := toInt_toInt64 hle
    refine ⟨p.toInt64, ?_, ?_⟩
    · rw [checkedSub_eq_some_iff, hlast, hword, hp]
    · have h0 : 0 ≤ p.toInt64 := by
        rw [Int64.le_iff_toInt_le, Int64.toInt_zero, hword]
        omega
      rw [if_pos h0]
      rfl

namespace Stack
variable {α : Type}

/-! The positional operations on the elements from the bottom up, by positions in words. -/

/-- Moves the element at the position of an index to the end, unless it is the last one. -/
def wordYank (elements : List α) (size : UInt64) (index : Int64) : List α :=
  (wordPosition? size index).elim elements fun p =>
    if size < p + 2 then elements
    else elements.eraseIdx p.toNat ++ elements[p.toNat]?.toList

/-- Appends a copy of the element at the position of an index. -/
def wordYankDup (elements : List α) (size : UInt64) (index : Int64) : List α :=
  elements ++ ((wordPosition? size index).bind (elements[·.toNat]?)).toList

/-- Inserts an element at the position of an index. -/
def wordShove (elements : List α) (size : UInt64) (e : α) (index : Int64) : List α :=
  (wordPosition? size index).elim elements fun p =>
    if size ≤ p then elements else elements.insertIdx p.toNat e

def wordCanShove (size : UInt64) (index : Int64) : Bool :=
  (wordPosition? size index).any (· < size)

/-- The elements below the one that an index names, that element, and those above it. -/
structure PartsAt (s : Stack α) (index : Int64) (below : List α) (x : α) (above : List α) : Prop
    where
  bottomUp_eq : s.bottomUp = below ++ x :: above
  length_below : (below.length : Int) = s.size - 1 - index.toInt

theorem PartsAt.eq_pushAll {s : Stack α} {index : Int64} {below above : List α} {x : α}
    (h : s.PartsAt index below x above) :
    s = (ofBottomUp below).pushAll (x :: above) ∧ index.toInt = above.length := by
  have hs : s = (ofBottomUp below).pushAll (x :: above) := by
    rw [← ofBottomUp_bottomUp s, ← ofBottomUp_bottomUp (pushAll _ _), bottomUp_pushAll,
      bottomUp_ofBottomUp, h.bottomUp_eq]
  have hsize : s.size = below.length + (above.length + 1) := by
    rw [hs, size_pushAll, List.length_cons, ofBottomUp, size, List.length_reverse]
    omega
  have hlength := h.length_below
  exact ⟨hs, by omega⟩

theorem exists_partsAt (s : Stack α) {index : Int64} (h0 : 0 ≤ index.toInt)
    (h1 : index.toInt < s.size) : ∃ below x above, s.PartsAt index below x above := by
  have hn : index.toInt.toNat < s.size := by omega
  obtain ⟨x, above, below, hlength, rfl⟩ := exists_pushAll_cons hn
  refine ⟨below.bottomUp, x, above, bottomUp_pushAll below _, ?_⟩
  have hbelow : below.bottomUp.length = below.size := List.length_reverse
  rw [size_pushAll, List.length_cons, hbelow]
  omega

section
variable {s : Stack α} {index : Int64} {below above : List α} {x : α}

theorem PartsAt.bottomUp_yank (h : s.PartsAt index below x above) (h1 : 1 ≤ index.toInt) :
    (s.yank index).bottomUp = below ++ above ++ [x] := by
  obtain ⟨rfl, hlength⟩ := h.eq_pushAll
  rw [yank_pushAll _ hlength (by omega), bottomUp_pushAll, bottomUp_ofBottomUp, List.append_assoc]

theorem PartsAt.bottomUp_yankDup (h : s.PartsAt index below x above) :
    (s.yankDup index).bottomUp = s.bottomUp ++ [x] := by
  obtain ⟨rfl, hlength⟩ := h.eq_pushAll
  rw [yankDup_pushAll _ hlength, bottomUp_pushAll, bottomUp_pushAll, List.append_assoc]
  rfl

theorem PartsAt.bottomUp_shove (h : s.PartsAt index below x above) (e : α) :
    (s.shove e index).bottomUp = below ++ e :: x :: above := by
  obtain ⟨rfl, hlength⟩ := h.eq_pushAll
  rw [shove_pushAll _ e hlength, bottomUp_pushAll, bottomUp_ofBottomUp]

end

theorem canShove_iff {s : Stack α} {index : Int64} :
    s.canShove index = true ↔ 0 ≤ index.toInt ∧ index.toInt < s.size := by
  unfold canShove
  rw [Option.isSome_iff_ne_none, ne_eq, depth?_eq_none_iff, Decidable.not_not]

/-- In words the position of an index is computed without an overflow. The two tests on it let
through the indices that name an element, and those that name one below the top, and it leads to the
depth of the element. So the operations do on the stack what they do by positions in words. -/
structure InWords (s : Stack α) (size : UInt64) (index : Int64) : Prop where
  last_eq : (size.toInt64 - 1).toInt = s.size - 1
  position_eq (p : UInt64) : wordPosition? size index = some p →
    (p.toNat : Int) = s.size - 1 - index.toInt ∧ (p + 2).toNat = p.toNat + 2
  names_iff : (∃ p, wordPosition? size index = some p ∧ p < size) ↔
    0 ≤ index.toInt ∧ index.toInt < s.size
  names_below_iff : (∃ p, wordPosition? size index = some p ∧ p + 2 ≤ size) ↔
    1 ≤ index.toInt ∧ index.toInt < s.size
  depth?_eq : s.depth? index = ((wordPosition? size index).filter (· < size)).map
    fun p => s.size - 1 - p.toNat
  yank_eq : (s.yank index).bottomUp = wordYank s.bottomUp size index
  yankDup_eq : (s.yankDup index).bottomUp = wordYankDup s.bottomUp size index
  shove_eq (e : α) : (s.shove e index).bottomUp = wordShove s.bottomUp size e index
  canShove_eq : s.canShove index = wordCanShove size index

section Words
variable {s : Stack α} {size : UInt64} {index : Int64} (hsize : size.toNat = s.size)
  (h : s.size ≤ Int64.maxValue.toInt)
include hsize h

/-- A position in words is the exact one, and the test for the top does not overflow. -/
theorem toNat_wordPosition {p : UInt64} (hp : wordPosition? size index = some p) :
    (p.toNat : Int) = s.size - 1 - index.toInt ∧ (p + 2).toNat = p.toNat + 2 := by
  have hmax := Int64.toInt_maxValue
  obtain ⟨hfits, heq⟩ := (wordPosition?_eq_some_iff (by omega)).mp hp
  have htwo : (2 : UInt64).toNat = 2 := rfl
  refine ⟨by omega, ?_⟩
  rw [UInt64.toNat_add, htwo, Nat.mod_eq_of_lt (by omega)]

/-- Where an index names an element, a word holds its position. -/
theorem exists_wordPosition (h0 : 0 ≤ index.toInt) (h1 : index.toInt < s.size) :
    ∃ p : UInt64, wordPosition? size index = some p ∧
      (p.toNat : Int) = s.size - 1 - index.toInt := by
  have hmax := Int64.toInt_maxValue
  have hfits : s.size - 1 - index.toInt.toNat < UInt64.size := by
    unfold UInt64.size
    omega
  have hnat := UInt64.toNat_ofNat_of_lt' hfits
  refine ⟨UInt64.ofNat (s.size - 1 - index.toInt.toNat), ?_, by omega⟩
  rw [wordPosition?_eq_some_iff (by omega)]
  omega

theorem names_iff_wordPosition : (∃ p, wordPosition? size index = some p ∧ p < size) ↔
    0 ≤ index.toInt ∧ index.toInt < s.size := by
  constructor
  · intro ⟨p, hp, hps⟩
    have heq := (toNat_wordPosition hsize h hp).1
    rw [UInt64.lt_iff_toNat_lt] at hps
    omega
  · intro ⟨h0, h1⟩
    obtain ⟨p, hp, heq⟩ := exists_wordPosition hsize h h0 h1
    refine ⟨p, hp, ?_⟩
    rw [UInt64.lt_iff_toNat_lt]
    omega

theorem names_below_iff_wordPosition : (∃ p, wordPosition? size index = some p ∧ p + 2 ≤ size) ↔
    1 ≤ index.toInt ∧ index.toInt < s.size := by
  constructor
  · intro ⟨p, hp, hps⟩
    obtain ⟨heq, hsum⟩ := toNat_wordPosition hsize h hp
    rw [UInt64.le_iff_toNat_le, hsum] at hps
    omega
  · intro ⟨h0, h1⟩
    obtain ⟨p, hp, heq⟩ := exists_wordPosition hsize h (by omega) h1
    refine ⟨p, hp, ?_⟩
    rw [UInt64.le_iff_toNat_le, (toNat_wordPosition hsize h hp).2]
    omega

theorem depth?_eq_wordPosition : s.depth? index =
    ((wordPosition? size index).filter (· < size)).map fun p => s.size - 1 - p.toNat := by
  cases hd : s.depth? index with
  | some n =>
    obtain ⟨hn, hlt⟩ := depth?_eq_some_iff.mp hd
    have h0 : 0 ≤ index.toInt := by omega
    obtain ⟨p, hp, heq⟩ := exists_wordPosition hsize h h0 (by omega)
    have hps : p < size := by
      rw [UInt64.lt_iff_toNat_lt]
      omega
    rw [hp, Option.filter_some, if_pos (decide_eq_true hps), Option.map_some]
    congr 1
    omega
  | none =>
    have hout := depth?_eq_none_iff.mp hd
    rw [eq_comm, Option.map_eq_none_iff, Option.filter_eq_none_iff]
    intro p hp hps
    have heq := (toNat_wordPosition hsize h hp).1
    rw [decide_eq_true_eq, UInt64.lt_iff_toNat_lt] at hps
    omega

/-- The elements around the one that an index names, and its position in words. -/
theorem exists_parts_at_word (h0 : 0 ≤ index.toInt) (h1 : index.toInt < s.size) :
    ∃ p below x above, wordPosition? size index = some p ∧ p.toNat = below.length ∧
      s.PartsAt index below x above := by
  obtain ⟨p, hp, heq⟩ := exists_wordPosition hsize h h0 h1
  obtain ⟨below, x, above, hparts⟩ := s.exists_partsAt h0 h1
  have hlength := hparts.length_below
  exact ⟨p, below, x, above, hp, by omega, hparts⟩

theorem bottomUp_yank_eq_wordYank :
    (s.yank index).bottomUp = wordYank s.bottomUp size index := by
  have hnames : (∃ p, wordPosition? size index = some p ∧ p + 2 ≤ size) ↔ _ :=
    names_below_iff_wordPosition hsize h
  unfold wordYank
  by_cases hrange : 1 ≤ index.toInt ∧ index.toInt < s.size
  · obtain ⟨p, below, x, above, hp, hlength, hparts⟩ :=
      exists_parts_at_word hsize h (by omega : 0 ≤ index.toInt) hrange.2
    obtain ⟨q, hq, hqs⟩ := hnames.mpr hrange
    cases hp.symm.trans hq
    rw [hparts.bottomUp_yank hrange.1, hp, Option.elim_some, if_neg (UInt64.not_lt.mpr hqs),
      hparts.bottomUp_eq, hlength, List.eraseIdx_append_of_length_le (Nat.le_refl _)]
    simp
  · rw [yank_eq_self hrange]
    cases hp : wordPosition? size index with
    | none => rfl
    | some p =>
      have hout : size < p + 2 := UInt64.not_le.mp fun hps => hrange (hnames.mp ⟨p, hp, hps⟩)
      rw [Option.elim_some, if_pos hout]

theorem bottomUp_yankDup_eq_wordYankDup :
    (s.yankDup index).bottomUp = wordYankDup s.bottomUp size index := by
  unfold wordYankDup
  by_cases hrange : 0 ≤ index.toInt ∧ index.toInt < s.size
  · obtain ⟨p, below, x, above, hp, hlength, hparts⟩ :=
      exists_parts_at_word hsize h hrange.1 hrange.2
    rw [hparts.bottomUp_yankDup, hp, Option.bind_some, hparts.bottomUp_eq, hlength]
    simp
  · have hnone : (wordPosition? size index).bind (s.bottomUp[·.toNat]?) = none := by
      rw [Option.bind_eq_none_iff]
      intro p hp
      have heq := (toNat_wordPosition hsize h hp).1
      rw [List.getElem?_eq_none_iff, bottomUp, List.length_reverse]
      show s.size ≤ p.toNat
      omega
    rw [yankDup_eq_self hrange, hnone, Option.toList_none, List.append_nil]

theorem bottomUp_shove_eq_wordShove (e : α) :
    (s.shove e index).bottomUp = wordShove s.bottomUp size e index := by
  have hnames : (∃ p, wordPosition? size index = some p ∧ p < size) ↔ _ :=
    names_iff_wordPosition hsize h
  unfold wordShove
  by_cases hrange : 0 ≤ index.toInt ∧ index.toInt < s.size
  · obtain ⟨p, below, x, above, hp, hlength, hparts⟩ :=
      exists_parts_at_word hsize h hrange.1 hrange.2
    obtain ⟨q, hq, hqs⟩ := hnames.mpr hrange
    cases hp.symm.trans hq
    rw [hparts.bottomUp_shove e, hp, Option.elim_some, if_neg (UInt64.not_le.mpr hqs),
      hparts.bottomUp_eq, hlength, insertIdx_length_append]
  · rw [shove_eq_self e hrange]
    cases hp : wordPosition? size index with
    | none => rfl
    | some p =>
      have hout : size ≤ p := UInt64.not_lt.mp fun hps => hrange (hnames.mp ⟨p, hp, hps⟩)
      rw [Option.elim_some, if_pos hout]

theorem canShove_eq_wordCanShove : s.canShove index = wordCanShove size index := by
  rw [Bool.eq_iff_iff, canShove_iff, ← names_iff_wordPosition hsize h, wordCanShove,
    Option.any_eq_true]
  simp only [decide_eq_true_eq]

theorem inWords (index : Int64) : s.InWords size index where
  last_eq := by rw [toInt_last (by omega), hsize]
  position_eq _ hp := toNat_wordPosition hsize h hp
  names_iff := names_iff_wordPosition hsize h
  names_below_iff := names_below_iff_wordPosition hsize h
  depth?_eq := depth?_eq_wordPosition hsize h
  yank_eq := bottomUp_yank_eq_wordYank hsize h
  yankDup_eq := bottomUp_yankDup_eq_wordYankDup hsize h
  shove_eq := bottomUp_shove_eq_wordShove hsize h
  canShove_eq := canShove_eq_wordCanShove hsize h

end Words

/-- What the positional operations do, and for which indices: an element moves to the top, a copy of
it is pushed, or another is inserted right below it; every other index leaves the stack alone. The
positions fit words of 64 bits as long as the size fits a signed one. -/
theorem positional_exact (s : Stack α) (index : Int64) (e : α) :
    (if 1 ≤ index.toInt ∧ index.toInt ≤ s.size - 1 then
      ∃ below x above, s.PartsAt index below x above ∧
        (s.yank index).bottomUp = below ++ above ++ [x]
    else s.yank index = s) ∧
    (if 0 ≤ index.toInt ∧ index.toInt ≤ s.size - 1 then
      ∃ below x above, s.PartsAt index below x above ∧
        (s.yankDup index).bottomUp = s.bottomUp ++ [x]
    else s.yankDup index = s) ∧
    (if 0 ≤ index.toInt ∧ index.toInt ≤ s.size - 1 then
      ∃ below x above, s.PartsAt index below x above ∧
        (s.shove e index).bottomUp = below ++ e :: x :: above
    else s.shove e index = s) ∧
    (s.canShove index = true ↔ 0 ≤ index.toInt ∧ index.toInt ≤ s.size - 1) ∧
    ∀ size : UInt64, size.toNat = s.size → s.size ≤ Int64.maxValue.toInt →
      s.InWords size index := by
  refine ⟨?_, ?_, ?_, ?_, fun size hsize h => inWords hsize h index⟩
  · split
    · rename_i h
      have h0 : 0 ≤ index.toInt := by omega
      obtain ⟨below, x, above, hparts⟩ := s.exists_partsAt h0 (by omega)
      exact ⟨below, x, above, hparts, hparts.bottomUp_yank h.1⟩
    · exact yank_eq_self (by omega)
  · split
    · rename_i h
      obtain ⟨below, x, above, hparts⟩ := s.exists_partsAt h.1 (by omega)
      exact ⟨below, x, above, hparts, hparts.bottomUp_yankDup⟩
    · exact yankDup_eq_self (by omega)
  · split
    · rename_i h
      obtain ⟨below, x, above, hparts⟩ := s.exists_partsAt h.1 (by omega)
      exact ⟨below, x, above, hparts, hparts.bottomUp_shove e⟩
    · exact shove_eq_self e (by omega)
  · rw [canShove_iff]
    omega

/-- The least index, whose position in an empty stack is the largest signed word. -/
theorem positional_exact_least_index :
    let s : Stack Bool := .empty
    UInt64.toNat 0 = s.size ∧ s.size ≤ Int64.maxValue.toInt ∧ s.InWords 0 Int64.minValue ∧
    wordPosition? 0 Int64.minValue = some 0x7FFFFFFFFFFFFFFF ∧
    s.canShove Int64.minValue = false := by
  intro s
  have hwords := (positional_exact s Int64.minValue true).2.2.2.2
  exact ⟨rfl, by decide, hwords 0 rfl (by decide), by decide, by decide⟩

/-! Shoving the top down and yanking it back up. -/

theorem yank_shoveTop (s : Stack α) {index : Int64} (h : index ≠ Int64.maxValue) :
    (s.shoveTop index).yank (index + 1) = s := by
  have hnext := toInt_add_one h
  by_cases hrange : 0 ≤ index.toInt ∧ index.toInt + 1 < s.size
  · have hn : (index.toInt + 1).toNat < s.size := by omega
    obtain ⟨x, above, below, hlength, rfl⟩ := exists_pushAll_concat hn
    rw [shoveTop_pushAll below hrange.1 (by omega), yank_pushAll below (by omega) (by omega)]
  · rw [shoveTop_eq_self hrange, yank_eq_self (by omega)]

theorem shoveTop_yank (s : Stack α) {index : Int64} (h : index ≠ Int64.minValue) :
    (s.yank index).shoveTop (index - 1) = s := by
  have hprevious := toInt_sub_one h
  by_cases hrange : 1 ≤ index.toInt ∧ index.toInt < s.size
  · have hn : index.toInt.toNat < s.size := by omega
    obtain ⟨x, above, below, hlength, rfl⟩ := exists_pushAll_cons hn
    rw [yank_pushAll below (by omega) (by omega), shoveTop_pushAll below (by omega) (by omega)]
  · rw [yank_eq_self hrange, shoveTop_eq_self (by omega)]

theorem perm_pushAll_concat (below : Stack α) (x : α) (above : List α) :
    (below.pushAll (above ++ [x])).bottomUp.Perm (below.pushAll (x :: above)).bottomUp := by
  rw [bottomUp_pushAll, bottomUp_pushAll]
  exact (List.perm_append_singleton x above).append_left below.bottomUp

theorem perm_yank (s : Stack α) (index : Int64) : (s.yank index).bottomUp.Perm s.bottomUp := by
  by_cases hrange : 1 ≤ index.toInt ∧ index.toInt < s.size
  · have hn : index.toInt.toNat < s.size := by omega
    obtain ⟨x, above, below, hlength, rfl⟩ := exists_pushAll_cons hn
    rw [yank_pushAll below (by omega) (by omega)]
    exact perm_pushAll_concat below x above
  · rw [yank_eq_self hrange]

theorem perm_shoveTop (s : Stack α) (index : Int64) :
    (s.shoveTop index).bottomUp.Perm s.bottomUp := by
  by_cases hrange : 0 ≤ index.toInt ∧ index.toInt + 1 < s.size
  · have hn : (index.toInt + 1).toNat < s.size := by omega
    obtain ⟨x, above, below, hlength, rfl⟩ := exists_pushAll_concat hn
    rw [shoveTop_pushAll below hrange.1 (by omega)]
    exact (perm_pushAll_concat below x above).symm
  · rw [shoveTop_eq_self hrange]

end Stack

namespace Contents

/-- Yanking from one depth further than an element was shoved to takes it back, and the other way
round, also where the index is out of range and nothing moves. Neither of them loses or copies an
element. -/
theorem shoveTop_yank_inverse (c : Contents) (index : Int64) :
    (index ≠ Int64.maxValue → (c.shoveTop index).yank (index + 1) = c) ∧
    (index ≠ Int64.minValue → (c.yank index).shoveTop (index - 1) = c) ∧
    (c.shoveTop index).kind = c.kind ∧ (c.shoveTop index).elements.Perm c.elements ∧
    (c.yank index).kind = c.kind ∧ (c.yank index).elements.Perm c.elements := by
  obtain ⟨α, _, _, s, rfl⟩ := c.exists_carrier
  have hshove (s : Stack α) (index : Int64) :
      (Carrier.wrap s : Contents).shoveTop index = Carrier.wrap (s.shoveTop index) :=
    LawfulCarrier.map_wrap _ s
  have hyank (s : Stack α) (index : Int64) :
      (Carrier.wrap s : Contents).yank index = Carrier.wrap (s.yank index) :=
    LawfulCarrier.map_wrap _ s
  simp only [hshove, hyank, LawfulCarrier.kind_wrap, LawfulCarrier.elements_wrap, true_and]
  refine ⟨?_, ?_, (s.perm_shoveTop index).map _, (s.perm_yank index).map _⟩
  · intro h
    rw [s.yank_shoveTop h]
  · intro h
    rw [s.shoveTop_yank h]

/-- An element that goes to the bottom and back, and the last indices out of range. -/
theorem shoveTop_yank_inverse_bottom :
    let c : Contents := .boolean (.ofBottomUp [true, false, false])
    (1 : Int64) ≠ Int64.maxValue ∧ (c.shoveTop 1).elements.head? = some (.boolean false) ∧
    (c.shoveTop 1).yank 2 = c ∧ (2 : Int64) ≠ Int64.minValue ∧ (c.yank 2).shoveTop 1 = c ∧
    (c.shoveTop 2).yank 3 = c ∧ (c.yank 0).shoveTop (-1) = c := by
  intro c
  have h1 : (1 : Int64) ≠ Int64.maxValue := by decide
  have h2 : (2 : Int64) ≠ Int64.minValue := by decide
  exact ⟨h1, by decide, (shoveTop_yank_inverse c 1).1 h1, h2,
    (shoveTop_yank_inverse c 2).2.1 h2, (shoveTop_yank_inverse c 2).1 (by decide),
    (shoveTop_yank_inverse c 0).2.1 (by decide)⟩

end Contents
end StackMachine
