import StackMachine.Proofs.ExactFloats
import StackMachine.Proofs.Validation

/-! What the draws from a keystream answer. A number below a bound is the pair of the next two words,
read as a fraction of the unit interval and scaled to the bound; the second word is left out where it
cannot change the answer. A float is the upper part of such a pair, without loss. However a seeded
interpreter is used, its source stays on the stream of its seed, so its lists are indexed inside. -/
namespace StackMachine
open Decimal

namespace RandomSource
variable {σ : Type} [RandomSource σ]

/-- Sources that answer below the bound, as do the sources that their draws lead to. -/
structure Closed (P : σ → Prop) : Prop where
  fst_intBelow_lt : ∀ {n s}, 0 < n → P s → (intBelow n s).1 < n
  snd_intBelow : ∀ {n s}, 0 < n → P s → P (intBelow n s).2
  snd_unitFloat : ∀ {s}, P s → P (unitFloat s).2

variable {P : σ → Prop} (h : Closed P)
include h

theorem Closed.alike : Alike fun s t => t = s ∧ P s where
  intBelow := by
    rintro n s t hn ⟨rfl, hs⟩
    exact ⟨_, _, _, rfl, rfl, h.fst_intBelow_lt hn hs, rfl, h.snd_intBelow hn hs⟩
  unitFloat := by
    rintro s t ⟨rfl, hs⟩
    exact ⟨_, _, _, rfl, rfl, rfl, h.snd_unitFloat hs⟩

theorem Closed.serve (d : Draw) {s : σ} (hs : P s) : P (d.serve s).2 := by
  cases d with
  | integer => exact h.snd_intBelow (n := integerRange) (by decide) hs
  | float => exact h.snd_unitFloat hs

theorem Closed.serveAll (draws : List Draw) {s : σ} (hs : P s) : P (Draw.serveAll draws s).2 := by
  induction draws generalizing s with
  | nil => exact hs
  | cons d draws ih => exact ih (h.serve d hs)

end RandomSource

namespace Keystream

/-- The stream `k` words further. -/
def ahead (s : Keystream) (k : ℕ) : Keystream := { s with position := s.position + k }

/-- The word that stands `k` words further. -/
def word (s : Keystream) (k : ℕ) : ℕ := (s.ahead k).next.1.toNat

theorem word_lt (s : Keystream) (k : ℕ) : s.word k < 2 ^ 32 := (s.ahead k).next.1.toNat_lt

theorem ahead_ahead (s : Keystream) (j k : ℕ) : (s.ahead j).ahead k = s.ahead (j + k) := by
  simp only [ahead, Nat.add_assoc]

/-! Numbers below a bound. -/

/-- A draw in halves of products: the high half for the first word, and one more if the low half is
above the complement of the bound and overflows with the high half for the second word. -/
def drawByHalves (s : Keystream) (n : ℕ) : ℕ × Keystream :=
  let high := s.word 0 * n / 2 ^ 32
  let low := s.word 0 * n % 2 ^ 32
  if 2 ^ 32 - n < low then
    (high + if 2 ^ 32 ≤ low + s.word 1 * n / 2 ^ 32 then 1 else 0, s.ahead 2)
  else (high, s.ahead 1)

theorem intBelow_eq (s : Keystream) (n : ℕ) :
    s.intBelow n =
      if 2 ^ 32 < s.word 0 * n % 2 ^ 32 + n then
        (s.word 0 * n / 2 ^ 32 + (s.word 0 * n % 2 ^ 32 + s.word 1 * n / 2 ^ 32) / 2 ^ 32, s.ahead 2)
      else (s.word 0 * n / 2 ^ 32, s.ahead 1) :=
  rfl

theorem word_mul_div_lt (s : Keystream) (k : ℕ) {n : ℕ} (hn : 0 < n) :
    s.word k * n / 2 ^ 32 < n := by
  have hproduct : s.word k * n < 2 ^ 32 * n := Nat.mul_lt_mul_of_pos_right (s.word_lt k) hn
  exact Nat.div_lt_of_lt_mul hproduct

theorem intBelow_eq_drawByHalves (s : Keystream) {n : ℕ} (hn : 0 < n) (hlt : n < 2 ^ 32) :
    s.intBelow n = s.drawByHalves n := by
  have hlow : s.word 0 * n % 2 ^ 32 < 2 ^ 32 := Nat.mod_lt _ (by norm_num)
  have hnext := s.word_mul_div_lt 1 hn
  have hopen : 2 ^ 32 < s.word 0 * n % 2 ^ 32 + n ↔ 2 ^ 32 - n < s.word 0 * n % 2 ^ 32 := by omega
  -- The two halves sum to less than twice the size of a word, so the carry is one or nothing.
  have hcarry : (s.word 0 * n % 2 ^ 32 + s.word 1 * n / 2 ^ 32) / 2 ^ 32 =
      if 2 ^ 32 ≤ s.word 0 * n % 2 ^ 32 + s.word 1 * n / 2 ^ 32 then 1 else 0 := by
    split
    · omega
    · omega
  rw [intBelow_eq, hcarry, drawByHalves]
  simp only [hopen]

/-- The high half for one word and the carry from below are the high half for two words. -/
theorem high_add_carry (first second n : ℕ) :
    first * n / 2 ^ 32 + (first * n % 2 ^ 32 + second * n / 2 ^ 32) / 2 ^ 32 =
      (first * 2 ^ 32 + second) * n / 2 ^ 64 := by
  have hsplit : (first * 2 ^ 32 + second) * n = 2 ^ 32 * (first * n) + second * n := by ring
  have hproduct : 2 ^ 32 * (first * n / 2 ^ 32) + first * n % 2 ^ 32 = first * n :=
    Nat.div_add_mod _ _
  calc first * n / 2 ^ 32 + (first * n % 2 ^ 32 + second * n / 2 ^ 32) / 2 ^ 32
    _ = (first * n + second * n / 2 ^ 32) / 2 ^ 32 := by omega
    _ = (first * 2 ^ 32 + second) * n / 2 ^ 32 / 2 ^ 32 := by
      rw [hsplit, Nat.mul_add_div (by norm_num)]
    _ = (first * 2 ^ 32 + second) * n / 2 ^ 64 := by
      rw [Nat.div_div_eq_div_mul, ← pow_add]

/-- A draw is the pair of the next two words, scaled to the bound. -/
theorem fst_intBelow (s : Keystream) {n : ℕ} (hn : 0 < n) :
    (s.intBelow n).1 = (s.word 0 * 2 ^ 32 + s.word 1) * n / 2 ^ 64 := by
  rw [← high_add_carry, intBelow_eq]
  split
  · rfl
  · rename_i hopen
    -- The low half leaves room for the bound, and the second word adds less than that.
    have hnext := s.word_mul_div_lt 1 hn
    have hcarry : (s.word 0 * n % 2 ^ 32 + s.word 1 * n / 2 ^ 32) / 2 ^ 32 = 0 :=
      Nat.div_eq_of_lt (by omega)
    rw [hcarry]
    rfl

theorem intBelow_lt (s : Keystream) {n : ℕ} (hn : 0 < n) : (s.intBelow n).1 < n := by
  have hfirst := s.word_lt 0
  have hsecond := s.word_lt 1
  have hpair : s.word 0 * 2 ^ 32 + s.word 1 < 2 ^ 64 := by omega
  rw [fst_intBelow s hn]
  exact Nat.div_lt_of_lt_mul (Nat.mul_lt_mul_of_pos_right hpair hn)

theorem toInt_randomInteger (s : Keystream) :
    0 ≤ (RandomSource.randomInteger s).1.toInt ∧ (RandomSource.randomInteger s).1.toInt < 10 := by
  have hlt : (s.intBelow 10).1 < 10 := s.intBelow_lt (by norm_num)
  have hdraw : (RandomSource.randomInteger s).1 = Int64.ofNat (s.intBelow 10).1 := rfl
  rw [hdraw, Int64.toInt_ofNat_of_lt (by omega)]
  omega

/-! Floats of the unit interval. -/

/-- The upper 53 bits of the next two words. -/
def numerator (s : Keystream) : ℕ := (s.word 1 * 2 ^ 32 + s.word 0) / 2 ^ 11

theorem numerator_lt (s : Keystream) : s.numerator < 2 ^ 53 := by
  have hlow := s.word_lt 0
  have hhigh := s.word_lt 1
  unfold numerator
  omega

theorem unitFloat_eq (s : Keystream) :
    s.unitFloat = (Binary.toFloat ⟨s.numerator, -53⟩ false, s.ahead 2) :=
  rfl

/-- A float is drawn without rounding. -/
theorem number?_unitFloat (s : Keystream) :
    (Reading.ofFloat s.unitFloat.1).number? = some ((s.numerator : ℚ) * 2 ^ (-53 : ℤ)) := by
  have hleast : leastExponent ≤ -53 := by decide
  obtain ⟨c, hreading, hvalue⟩ := Binary.exists_ofFloat_toFloat (b := ⟨s.numerator, -53⟩)
    s.numerator_lt hleast (by norm_num) false
  rw [unitFloat_eq, hreading]
  exact congrArg some hvalue

/-! Draws move a stream forward and leave its key alone. -/

/-- A stream that is reached from another one. -/
def IsAhead (start s : Keystream) : Prop := ∃ k, s = start.ahead k

variable {start s : Keystream}

theorem isAhead_refl (s : Keystream) : IsAhead s s := ⟨0, rfl⟩

theorem IsAhead.ahead (h : IsAhead start s) (k : ℕ) : IsAhead start (s.ahead k) := by
  obtain ⟨j, rfl⟩ := h
  exact ⟨j + k, ahead_ahead start j k⟩

theorem IsAhead.intBelow (h : IsAhead start s) (n : ℕ) : IsAhead start (s.intBelow n).2 := by
  rw [intBelow_eq]
  split
  · exact h.ahead 2
  · exact h.ahead 1

theorem closed_isAhead (start : Keystream) : RandomSource.Closed (IsAhead start) where
  fst_intBelow_lt := fun hn _ => intBelow_lt _ hn
  snd_intBelow := fun _ h => h.intBelow _
  snd_unitFloat := fun h => h.ahead 2

end Keystream

/-! The lists of kinds and of words are short. -/

theorem Kind.subset_all (kinds : List Kind) : kinds ⊆ Kind.all := by
  intro k _
  cases k <;> decide

theorem Options.length_kinds_validate_le (o : Options) : o.validate.value.kinds.length ≤ 3 :=
  (o.nodup_kinds_validate.subperm (Kind.subset_all _)).length_le

namespace Vocabulary

theorem answered_ofKinds_subset {kinds kinds' : List Kind} (h : kinds ⊆ kinds') :
    answered (.ofKinds kinds : Machine Empty) ⊆ answered (.ofKinds kinds' : Machine Empty) := by
  rintro ⟨stack, function⟩ hc
  rw [mem_answered, answers_ofKinds] at hc ⊢
  obtain ⟨k, hk, hcall⟩ := hc
  exact ⟨k, h hk, hcall⟩

theorem length_symbols_le (kinds : List Kind) :
    (ofMachine (.ofKinds kinds : Machine Empty)).symbols.length ≤ 68 := by
  have hlists := lists_ofKinds kinds
  have hall : (answered (.ofKinds Kind.all : Machine Empty) ++ verbCalls).length = 68 := by
    decide +kernel
  have hsubset : answered (.ofKinds kinds : Machine Empty) ++ verbCalls ⊆
      answered (.ofKinds Kind.all : Machine Empty) ++ verbCalls := by
    have hanswered := answered_ofKinds_subset (Kind.subset_all kinds)
    exact List.append_subset.mpr
      ⟨List.subset_append_of_subset_left _ hanswered, List.subset_append_right _ _⟩
  rw [hlists.symbols_eq, List.length_map, ← hall]
  exact (hlists.nodup_calls.subperm hsubset).length_le

theorem symbols_ne_nil (kinds : List Kind) :
    (ofMachine (.ofKinds kinds : Machine Empty)).symbols ≠ [] := by
  rw [(lists_ofKinds kinds).symbols_eq]
  simp [verbCalls, Verb.all]

end Vocabulary

/-- A result that is made of the element of a list at a drawn index. The length of the list is the
bound of the draw. -/
structure RandomSource.Picks {σ α β : Type} [RandomSource σ] (elements : List α) (source : σ)
    (next : α → σ → β) (result : β) : Prop where
  length_pos : 0 < elements.length
  length_lt : elements.length < 2 ^ 32
  index_lt : (intBelow elements.length source).1 < elements.length
  result_eq : result = next elements[(intBelow elements.length source).1]
    (intBelow elements.length source).2

namespace Interpreter
open RandomSource

section
variable {σ : Type} [RandomSource σ] {i : Interpreter σ}

theorem picks_randomAnyLiteral (hpos : 0 < i.options.kinds.length)
    (hlt : i.options.kinds.length < 2 ^ 32)
    (hindex : (intBelow i.options.kinds.length i.source).1 < i.options.kinds.length) :
    Picks i.options.kinds i.source (fun k source => randomLiteral k { i with source })
      (randomAnyLiteral i) := by
  refine ⟨hpos, hlt, hindex, ?_⟩
  have hempty : ¬i.options.kinds.isEmpty = true := by simpa using List.length_pos_iff.mp hpos
  rw [← List.getD_eq_getElem _ .integer hindex]
  show (if i.options.kinds.isEmpty = true then randomLiteral .integer else _) i = _
  rw [if_neg hempty]
  rfl

theorem picks_randomSymbol (hpos : 0 < i.vocabulary.symbols.length)
    (hlt : i.vocabulary.symbols.length < 2 ^ 32)
    (hindex : (intBelow i.vocabulary.symbols.length i.source).1 < i.vocabulary.symbols.length) :
    Picks i.vocabulary.symbols i.source (fun symbol source => (some symbol, { i with source }))
      (randomSymbol i) := by
  refine ⟨hpos, hlt, hindex, ?_⟩
  have hempty : ¬i.vocabulary.symbols.isEmpty = true := by simpa using List.length_pos_iff.mp hpos
  rw [← List.getElem?_eq_getElem hindex]
  show (if i.vocabulary.symbols.isEmpty = true then _ else _ : StateM _ _) i = _
  rw [if_neg hempty]
  rfl

omit [RandomSource σ] in
theorem length_kinds_ofSource (options : Options) (source : σ) :
    0 < (ofSource options source).value.options.kinds.length ∧
      (ofSource options source).value.options.kinds.length ≤ 3 := by
  rw [value_ofSource]
  exact ⟨List.length_pos_iff.mpr options.kinds_validate_ne_nil, options.length_kinds_validate_le⟩

omit [RandomSource σ] in
theorem length_symbols_ofSource (options : Options) (source : σ) :
    0 < (ofSource options source).value.vocabulary.symbols.length ∧
      (ofSource options source).value.vocabulary.symbols.length ≤ 68 := by
  rw [value_ofSource]
  dsimp only
  exact ⟨List.length_pos_iff.mpr (Vocabulary.symbols_ne_nil _), Vocabulary.length_symbols_le _⟩

/-- An interpreter indexes its kinds and its words inside, from any source that answers below the
bound. -/
theorem picks_ofSource (options : Options) (made : σ) {source : σ}
    (hbelow : ∀ n, 0 < n → (intBelow n source).1 < n) :
    let i := { (ofSource options made).value with source }
    Picks i.options.kinds source (fun k source => randomLiteral k { i with source })
      (randomAnyLiteral i) ∧
    Picks i.vocabulary.symbols source (fun symbol source => (some symbol, { i with source }))
      (randomSymbol i) := by
  obtain ⟨hkind, hkinds⟩ := length_kinds_ofSource options made
  obtain ⟨hsymbol, hsymbols⟩ := length_symbols_ofSource options made
  generalize (ofSource options made).value = i at *
  have hlt : i.options.kinds.length < 2 ^ 32 ∧ i.vocabulary.symbols.length < 2 ^ 32 := by omega
  constructor
  · exact picks_randomAnyLiteral (i := { i with source }) hkind hlt.1 (hbelow _ hkind)
  · exact picks_randomSymbol (i := { i with source }) hsymbol hlt.2 (hbelow _ hsymbol)

end

/-! What the uses of an interpreter do to its source. -/
section
variable {σ : Type} {P : σ → Prop} {i : Interpreter σ} (hi : P i.source)
include hi

theorem Agree.exists_source {α : Type} {Q : α → Prop} {x : StateM (Interpreter σ) α}
    (h : Agree (fun s t => t = s ∧ P s) i.options i.vocabulary Q x x) :
    ∃ source, P source ∧ (x i).2 = { i with source } := by
  obtain ⟨a, s, t, hx, -, -, -, hs⟩ := h i.source i.source ⟨rfl, hi⟩
  exact ⟨s, hs, congrArg Prod.snd hx⟩

variable [RandomSource σ] (hP : Closed P)
include hP

/-- An execution makes the draws of its history. -/
theorem exists_source_execute (program : Program) (state : Option Snapshot) :
    ∃ source, P source ∧ (i.execute program state).value.2 = { i with source } := by
  obtain ⟨history, hh⟩ := i.exists_performs program state
  have hsource := (Machine.Performs.replay hh (i.layout_start program state) rfl).1
  have hexecute : (i.execute program state).value.2 =
      { i with source := (i.result program state).2 } := by
    cases state <;> rfl
  rw [hexecute, hsource]
  exact ⟨_, hP.serveAll _ hi, rfl⟩

/-- A use replaces the source of an interpreter and nothing else. -/
theorem exists_source_after (h : i.options.kinds ≠ []) (use : Use) :
    ∃ source, P source ∧ i.after use = { i with source } := by
  cases use with
  | execute program state => exact exists_source_execute hi hP program state
  | run text => exact exists_source_execute hi hP (i.vocabulary.read text).value none
  | runCode code =>
    exact exists_source_execute hi hP (i.vocabulary.readTokens code.tokens).value none
  | runWithState text state =>
    exact exists_source_execute hi hP (i.vocabulary.read text).value (some state)
  | drawInteger => exact Agree.exists_source hi (agree_drawInteger hP.alike)
  | drawFloat => exact Agree.exists_source hi (agree_drawFloat hP.alike)
  | randomLiteral kind => exact Agree.exists_source hi (agree_randomLiteral hP.alike kind)
  | randomSymbol => exact Agree.exists_source hi (agree_randomSymbol hP.alike)
  | randomToken => exact Agree.exists_source hi (agree_randomToken hP.alike h)
  | randomCode length => exact Agree.exists_source hi (agree_randomCode hP.alike h length)

theorem exists_source_foldl_after (h : i.options.kinds ≠ []) (uses : List Use) :
    ∃ source, P source ∧ uses.foldl after i = { i with source } := by
  induction uses generalizing i with
  | nil => exact ⟨i.source, hi, rfl⟩
  | cons use uses ih =>
    obtain ⟨source, hsource, hafter⟩ := exists_source_after hi hP h use
    rw [List.foldl_cons, hafter]
    exact ih (i := { i with source }) hsource h

end

/-- Everywhere in the stream of a seed, a number that is drawn below a bound of one word follows the
rule of the halves, is the next two words scaled to the bound, and is below the bound. A random
integer is below ten, and a float is a multiple of `2 ^ -53` below one, made of the upper bits of two
words. The lists of kinds and of words are indexed inside. However an interpreter is used, it stays
the same but for its source, which is somewhere in the stream of its seed. -/
theorem seeded_draws_in_range (seed : UInt64) :
    (∀ position,
      let s := (Keystream.ofSeed seed).ahead position
      (∀ n, 1 ≤ n → n < 2 ^ 32 →
        intBelow n s = s.drawByHalves n ∧
        (intBelow n s).1 = (s.word 0 * 2 ^ 32 + s.word 1) * n / 2 ^ 64 ∧
        (intBelow n s).1 < n) ∧
      (0 ≤ (randomInteger s).1.toInt ∧ (randomInteger s).1.toInt < 10) ∧
      (∃ k < 2 ^ 53, k = (s.word 1 * 2 ^ 32 + s.word 0) / 2 ^ 11 ∧
        (Reading.ofFloat (unitFloat s).1).number? = some ((k : ℚ) * 2 ^ (-53 : ℤ))) ∧
      ∀ options,
        let i := { (ofSeed options seed).value with source := s }
        Picks i.options.kinds s (fun k source => randomLiteral k { i with source })
          (randomAnyLiteral i) ∧
        Picks i.vocabulary.symbols s (fun symbol source => (some symbol, { i with source }))
          (randomSymbol i)) ∧
    ∀ (options : Options) (uses : List Use), ∃ position,
      uses.foldl after (ofSeed options seed).value =
        { (ofSeed options seed).value with source := (Keystream.ofSeed seed).ahead position } := by
  constructor
  · intro position s
    refine ⟨fun n hn hlt => ⟨?_, s.fst_intBelow hn, s.intBelow_lt hn⟩, s.toInt_randomInteger,
      ⟨s.numerator, s.numerator_lt, rfl, s.number?_unitFloat⟩, fun options => ?_⟩
    · exact s.intBelow_eq_drawByHalves hn hlt
    · exact picks_ofSource options (.ofSeed seed) fun n hn => s.intBelow_lt hn
  · intro options uses
    have hstart := Keystream.isAhead_refl (.ofSeed seed)
    obtain ⟨source, ⟨position, rfl⟩, hsource⟩ := exists_source_foldl_after
      (i := (ofSeed options seed).value) hstart (Keystream.closed_isAhead (.ofSeed seed))
      options.kinds_validate_ne_nil uses
    exact ⟨position, hsource⟩

/-- The last word of a block and the first one of the next block, with the largest bound: the carry
is added. -/
theorem seeded_draws_in_range_of_carry :
    let s := (Keystream.ofSeed 42).ahead 15
    let n := 2 ^ 32 - 1
    1 ≤ n ∧ n < 2 ^ 32 ∧ s.word 0 = 1922056461 ∧ s.word 1 = 2043096226 ∧
    s.word 0 * n / 2 ^ 32 = 1922056460 ∧ (intBelow n s).1 = 1922056461 := by
  intro s n
  have hpos : 1 ≤ n := by norm_num [n]
  have hlt : n < 2 ^ 32 := by norm_num [n]
  have hwords : s.word 0 = 1922056461 ∧ s.word 1 = 2043096226 := by decide +kernel
  obtain ⟨hfirst, hsecond⟩ := hwords
  have hdraw : (intBelow n s).1 = (s.word 0 * 2 ^ 32 + s.word 1) * n / 2 ^ 64 :=
    (((seeded_draws_in_range 42).1 15).1 n hpos hlt).2.1
  rw [hfirst, hsecond] at hdraw
  refine ⟨hpos, hlt, hfirst, hsecond, ?_, ?_⟩
  · rw [hfirst]
    norm_num [n]
  · rw [hdraw]
    norm_num [n]

end Interpreter
end StackMachine
