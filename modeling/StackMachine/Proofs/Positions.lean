import StackMachine.Stack

/-! What the positional operations do to the element at a depth and to those above it. -/
namespace StackMachine
namespace Stack
variable {α : Type}

theorem ext_topDown {a b : Stack α} (h : a.topDown = b.topDown) : a = b := by
  cases a
  cases b
  cases h
  rfl

theorem size_pushAll (s : Stack α) (elements : List α) :
    (s.pushAll elements).size = elements.length + s.size := by
  simp [size, topDown_pushAll]

theorem bottomUp_pushAll (s : Stack α) (elements : List α) :
    (s.pushAll elements).bottomUp = s.bottomUp ++ elements := by
  simp [bottomUp, topDown_pushAll]

theorem pushAll_bottomUp (s : Stack α) : empty.pushAll s.bottomUp = s := by
  apply ext_topDown
  simp [topDown_pushAll, bottomUp, empty]

theorem topDown_pushAll_cons (below : Stack α) (x : α) (above : List α) :
    (below.pushAll (x :: above)).topDown = above.reverse ++ x :: below.topDown := by
  rw [topDown_pushAll, List.reverse_cons, List.append_assoc, List.singleton_append]

theorem getElem?_pushAll_cons (below : Stack α) (x : α) (above : List α) :
    (below.pushAll (x :: above)).topDown[above.length]? = some x := by
  rw [topDown_pushAll_cons, List.getElem?_append_right (by simp)]
  simp

theorem pop?_pushAll (below : Stack α) (x : α) (above : List α) :
    (below.pushAll (above ++ [x])).pop? = some (x, below.pushAll above) := by
  unfold pushAll
  rw [List.foldl_append]
  rfl

/-- A stack parts at every depth. -/
theorem exists_pushAll {s : Stack α} {n : Nat} (h : n ≤ s.size) :
    ∃ (elements : List α) (below : Stack α),
      elements.length = n ∧ s = below.pushAll elements := by
  refine ⟨(s.topDown.take n).reverse, ⟨s.topDown.drop n⟩, ?_, ?_⟩
  · rw [List.length_reverse, List.length_take]
    exact Nat.min_eq_left h
  · apply ext_topDown
    rw [topDown_pushAll, List.reverse_reverse, List.take_append_drop]

theorem exists_pushAll_cons {s : Stack α} {n : Nat} (h : n < s.size) :
    ∃ (x : α) (above : List α) (below : Stack α),
      above.length = n ∧ s = below.pushAll (x :: above) := by
  obtain ⟨elements, below, hn, hs⟩ := exists_pushAll (Nat.succ_le_of_lt h)
  cases elements with
  | nil => cases hn
  | cons x above => exact ⟨x, above, below, Nat.succ.inj hn, hs⟩

theorem exists_pushAll_concat {s : Stack α} {n : Nat} (h : n < s.size) :
    ∃ (x : α) (above : List α) (below : Stack α),
      above.length = n ∧ s = below.pushAll (above ++ [x]) := by
  obtain ⟨elements, below, hn, hs⟩ := exists_pushAll (Nat.succ_le_of_lt h)
  rcases List.eq_nil_or_concat elements with rfl | ⟨above, x, rfl⟩
  · cases hn
  · rw [List.concat_eq_append] at hs hn
    rw [List.length_append] at hn
    exact ⟨x, above, below, Nat.succ.inj hn, hs⟩

theorem exists_pushAll_one {s : Stack α} (h : 1 ≤ s.size) :
    ∃ (a : α) (below : Stack α), s = below.pushAll [a] :=
  match s, h with
  | ⟨a :: rest⟩, _ => ⟨a, ⟨rest⟩, rfl⟩

theorem exists_pushAll_two {s : Stack α} (h : 2 ≤ s.size) :
    ∃ (a b : α) (below : Stack α), s = below.pushAll [a, b] :=
  match s, h with
  | ⟨b :: a :: rest⟩, _ => ⟨a, b, ⟨rest⟩, rfl⟩
  | ⟨[_]⟩, h => absurd h (by simp [size])

theorem exists_pushAll_three {s : Stack α} (h : 3 ≤ s.size) :
    ∃ (a b c : α) (below : Stack α), s = below.pushAll [a, b, c] :=
  match s, h with
  | ⟨c :: b :: a :: rest⟩, _ => ⟨a, b, c, ⟨rest⟩, rfl⟩
  | ⟨[_]⟩, h => absurd h (by simp [size])
  | ⟨[_, _]⟩, h => absurd h (by simp [size])

theorem depth?_eq_some_iff {s : Stack α} {index : Int64} {n : Nat} :
    s.depth? index = some n ↔ index.toInt = n ∧ n < s.size := by
  unfold depth?
  simp only [Option.ite_none_right_eq_some, Option.some.injEq]
  constructor
  · rintro ⟨⟨h0, h1⟩, rfl⟩
    omega
  · rintro ⟨h0, h1⟩
    omega

theorem depth?_eq_none_iff {s : Stack α} {index : Int64} :
    s.depth? index = none ↔ ¬(0 ≤ index.toInt ∧ index.toInt < s.size) := by
  unfold depth?
  simp only [ite_eq_right_iff, reduceCtorEq, imp_false]

theorem depth?_pushAll {index : Int64} {x : α} {above : List α} (below : Stack α)
    (h : index.toInt = above.length) :
    (below.pushAll (x :: above)).depth? index = some above.length := by
  refine depth?_eq_some_iff.mpr ⟨h, ?_⟩
  rw [size_pushAll, List.length_cons]
  omega

theorem yank_pushAll {index : Int64} {x : α} {above : List α} (below : Stack α)
    (h : index.toInt = above.length) (ha : 0 < above.length) :
    (below.pushAll (x :: above)).yank index = below.pushAll (above ++ [x]) := by
  have hd := depth?_pushAll (x := x) below h
  have hx := getElem?_pushAll_cons below x above
  obtain ⟨n, hn⟩ : ∃ n, above.length = n + 1 := ⟨above.length - 1, by omega⟩
  rw [hn] at hd hx
  have herase : (below.pushAll (x :: above)).topDown.eraseIdx (n + 1) =
      above.reverse ++ below.topDown := by
    rw [topDown_pushAll_cons, List.eraseIdx_append_of_length_le (by simp; omega)]
    simp [hn]
  apply ext_topDown
  simp only [yank, hd, hx, herase]
  rw [topDown_pushAll, List.reverse_append]
  rfl

theorem yankDup_pushAll {index : Int64} {x : α} {above : List α} (below : Stack α)
    (h : index.toInt = above.length) :
    (below.pushAll (x :: above)).yankDup index = below.pushAll (x :: (above ++ [x])) := by
  have hd := depth?_pushAll (x := x) below h
  have hx := getElem?_pushAll_cons below x above
  apply ext_topDown
  simp only [yankDup, hd, Option.bind_some, hx, push]
  rw [topDown_pushAll, topDown_pushAll]
  simp

theorem insertIdx_length_append (as bs : List α) (x : α) :
    (as ++ bs).insertIdx as.length x = as ++ x :: bs := by
  induction as with
  | nil => rfl
  | cons a as ih => exact congrArg (a :: ·) ih

theorem shove_pushAll {index : Int64} {x : α} {above : List α} (below : Stack α) (a : α)
    (h : index.toInt = above.length) :
    (below.pushAll (x :: above)).shove a index = below.pushAll (a :: x :: above) := by
  have hd := depth?_pushAll (x := x) below h
  have hlength : (above.reverse ++ [x]).length = above.length + 1 := by simp
  apply ext_topDown
  simp only [shove, hd]
  rw [topDown_pushAll, topDown_pushAll_cons, List.reverse_cons, ← hlength,
    insertIdx_length_append]

theorem shoveTop_pushAll {index : Int64} {x : α} {above : List α} (below : Stack α)
    (h0 : 0 ≤ index.toInt) (h : index.toInt + 1 = above.length) :
    (below.pushAll (above ++ [x])).shoveTop index = below.pushAll (x :: above) := by
  cases above with
  | nil =>
    rw [List.length_nil] at h
    omega
  | cons y above =>
    have hy : index.toInt = above.length := by
      rw [List.length_cons] at h
      omega
    have hd := depth?_pushAll (x := y) below hy
    simp only [shoveTop, pop?_pushAll, canShove, hd, Option.isSome_some, if_true]
    exact shove_pushAll below x hy

/-! On stacks that are too short, and outside their range, the operations do nothing. -/

theorem pop?_eq_none_iff {s : Stack α} : s.pop? = none ↔ s.size < 1 :=
  match s with
  | ⟨[]⟩ => by simp [pop?, size]
  | ⟨_ :: _⟩ => by simp [pop?, size]

theorem popPair?_eq_none_iff {s : Stack α} : s.popPair? = none ↔ s.size < 2 :=
  match s with
  | ⟨[]⟩ => by simp [popPair?, size]
  | ⟨[_]⟩ => by simp [popPair?, size]
  | ⟨_ :: _ :: _⟩ => by simp [popPair?, size]

theorem drop_eq_self {s : Stack α} (h : s.size < 1) : s.drop = s :=
  match s, h with
  | ⟨[]⟩, _ => rfl

theorem dup_eq_self {s : Stack α} (h : s.size < 1) : s.dup = s :=
  match s, h with
  | ⟨[]⟩, _ => rfl

theorem swap_eq_self {s : Stack α} (h : s.size < 2) : s.swap = s :=
  match s, h with
  | ⟨[]⟩, _ => rfl
  | ⟨[_]⟩, _ => rfl

theorem rotate_eq_self {s : Stack α} (h : s.size < 3) : s.rotate = s :=
  match s, h with
  | ⟨[]⟩, _ => rfl
  | ⟨[_]⟩, _ => rfl
  | ⟨[_, _]⟩, _ => rfl

theorem yank_eq_self {s : Stack α} {index : Int64}
    (h : ¬(1 ≤ index.toInt ∧ index.toInt < s.size)) : s.yank index = s := by
  unfold yank
  split
  · rename_i n hd
    obtain ⟨hi, hn⟩ := depth?_eq_some_iff.mp hd
    exact absurd ⟨by omega, by omega⟩ h
  · rfl

theorem yankDup_eq_self {s : Stack α} {index : Int64}
    (h : ¬(0 ≤ index.toInt ∧ index.toInt < s.size)) : s.yankDup index = s := by
  unfold yankDup
  rw [depth?_eq_none_iff.mpr h]
  rfl

theorem shove_eq_self {s : Stack α} {index : Int64} (a : α)
    (h : ¬(0 ≤ index.toInt ∧ index.toInt < s.size)) : s.shove a index = s := by
  unfold shove
  rw [depth?_eq_none_iff.mpr h]

theorem shoveTop_eq_self {s : Stack α} {index : Int64}
    (h : ¬(0 ≤ index.toInt ∧ index.toInt + 1 < s.size)) : s.shoveTop index = s := by
  unfold shoveTop
  split
  · rename_i a rest hp
    have hsize : s.size = rest.size + 1 := by
      unfold pop? at hp
      split at hp
      · cases hp
      · rename_i htop
        cases hp
        rw [size, htop]
        rfl
    have hd : rest.depth? index = none := depth?_eq_none_iff.mpr (by omega)
    simp [canShove, hd]
  · rfl

end Stack
end StackMachine
