import StackMachine.Interpreter.Synthesis
import StackMachine.Random.Script
import StackMachine.Proofs.Randomness
import StackMachine.Proofs.Registration
import StackMachine.Proofs.Words

/-! Random programs are programs. Whatever the source answers, a random token is a registered word or
a short literal, and both are read as instructions. Sources that answer alike write the same
programs; this includes a source that keeps a list of the bounds it is given, which shows that none
of them is zero. -/
namespace StackMachine
namespace Vocabulary
open Text

theorem IsNameRun.not_blank {cs : List Char} (h : IsNameRun cs) :
    ∀ c ∈ cs, isBlank c = false := by
  intro c hc
  have hrange {low high : Char} (hc : low ≤ c ∧ c ≤ high) (hlow : '!' ≤ low) (hhigh : high ≤ '~') :
      isBlank c = false :=
    isBlank_of_graphic (Char.le_trans hlow hc.1) (Char.le_trans hc.2 hhigh)
  rcases h.2 c hc with hupper | hlower | hdigit | rfl
  · exact hrange hupper (by decide) (by decide)
  · exact hrange hlower (by decide) (by decide)
  · exact hrange hdigit (by decide) (by decide)
  · decide

theorem IsDigitRun.not_blank {cs : List Char} (h : IsDigitRun cs) :
    ∀ c ∈ cs, isBlank c = false := by
  have hname : IsNameRun cs := ⟨h.1, fun c hc => .inr (.inr (.inl (h.2 c hc)))⟩
  exact hname.not_blank

theorem IsSign.not_blank {cs : List Char} (h : IsSign cs) : ∀ c ∈ cs, isBlank c = false := by
  rcases h with rfl | rfl
  · exact fun _ hc => nomatch hc
  · rw [List.forall_mem_singleton]
    decide

/-- A token of the shape of a literal is a word. -/
theorem isWord_of_denotes_literal {calls : List (String × String)} {token : String} {k : Kind}
    (h : Denotes calls token (.literal k)) : IsWord token := by
  have hword (hne : token.toList ≠ []) (hall : ∀ c ∈ token.toList, isBlank c = false) :
      IsWord token := by
    refine ⟨?_, hall⟩
    rintro rfl
    exact hne rfl
  cases k with
  | integer =>
    obtain ⟨sign, digits, hs, hd, he⟩ := h
    apply hword
    · simp [he, hd.1]
    · rw [he, List.forall_mem_append]
      exact ⟨hs.not_blank, hd.not_blank⟩
  | float =>
    obtain ⟨sign, whole, fraction, hs, hw, hf, he⟩ := h
    apply hword
    · simp [he]
    · rw [he, List.forall_mem_append, List.forall_mem_append, List.forall_mem_cons]
      exact ⟨⟨hs.not_blank, hw.not_blank⟩, by decide, hf.not_blank⟩
  | boolean =>
    rcases h with rfl | rfl
    · decide
    · decide

theorem instruction?_of_denotes {v : Vocabulary} {token : String} {c : Command}
    (h : Denotes v.known token c) : v.instruction? token = some ⟨c, token, 0⟩ := by
  unfold instruction?
  rw [command?_eq_some_iff.mpr h]
  rfl

theorem size_readTokens {v : Vocabulary} {tokens : List String}
    (h : ∀ token ∈ tokens, (v.instruction? token).isSome = true) :
    (v.readTokens tokens).value.size = tokens.length := by
  show (v.instructions tokens).toArray.size = tokens.length
  rw [List.size_toArray, instructions, List.filterMap_length_eq_length.mpr h]

/-- The literals that random programs use: `-?[0-9]`, `-?0\.[0-9]` with six decimals, `true` and
`false`. -/
def IsShortLiteral : Kind → String → Prop
  | .integer, token => ∃ sign digit, IsSign sign ∧ IsDigitRun [digit] ∧
      token.toList = sign ++ [digit]
  | .float, token => ∃ sign decimals, IsSign sign ∧ IsDigitRun decimals ∧ decimals.length = 6 ∧
      token.toList = sign ++ ['0', '.'] ++ decimals
  | .boolean, token => token = "true" ∨ token = "false"

theorem IsShortLiteral.denotes {k : Kind} {token : String} (h : IsShortLiteral k token)
    (calls : List (String × String)) : Denotes calls token (.literal k) := by
  cases k with
  | integer =>
    obtain ⟨sign, digit, hs, hd, he⟩ := h
    exact ⟨sign, [digit], hs, hd, he⟩
  | float =>
    obtain ⟨sign, decimals, hs, hd, -, he⟩ := h
    have hzero : IsDigitRun ['0'] := isDigits_iff.mp rfl
    refine ⟨sign, ['0'], decimals, hs, hzero, hd, ?_⟩
    rw [he, List.append_assoc, List.append_assoc]
    rfl
  | boolean => exact h

/-- A pair of names whose word is read as a call. -/
structure IsSpeakable (stack function : String) : Prop where
  isNameRun_stack : IsNameRun stack.toList
  not_isDigitRun_stack : ¬IsDigitRun stack.toList
  isWord_function : IsWord function
  point_not_mem_function : '.' ∉ function.toList

namespace IsSpeakable
variable {stack function : String} (h : IsSpeakable stack function)
include h

theorem exists_denotes {calls : List (String × String)} (hmem : (stack, function) ∈ calls) :
    ∃ c, Denotes calls (symbol stack function) c := by
  by_cases hs : stack = cursorName
  · subst hs
    exact ⟨.cursor function, rfl, h.isWord_function.1, h.point_not_mem_function⟩
  · refine ⟨.call stack function, rfl, h.isNameRun_stack, hs, h.isWord_function.1,
      h.point_not_mem_function, ?_, hmem⟩
    rintro ⟨hdigits, -⟩
    exact h.not_isDigitRun_stack hdigits

theorem isWord_symbol : IsWord (symbol stack function) := by
  have htoken : (symbol stack function).toList = stack.toList ++ '.' :: function.toList := by
    simp [symbol]
  constructor
  · rw [ne_eq, ← String.toList_inj, htoken]
    simp
  · rw [htoken, List.forall_mem_append, List.forall_mem_cons]
    exact ⟨h.isNameRun_stack.not_blank, by decide, h.isWord_function.2⟩

end IsSpeakable

/-- The names of the stacks and operations of a machine and of the verbs make words. -/
theorem isSpeakable_of_isRegistered {kinds : List Kind} {stack function : String}
    (h : (ofMachine (.ofKinds kinds : Machine Empty)).isRegistered stack function = true) :
    IsSpeakable stack function := by
  have hkind (k : Kind) : IsNameRun k.name.toList ∧ ¬IsDigitRun k.name.toList := by
    rw [← isName_iff, ← isDigits_iff]
    cases k <;> decide
  have hop (op : Builtin) : IsWord op.name ∧ '.' ∉ op.name.toList := by
    cases op with
    | common op => cases op <;> decide
    | integer op => cases op <;> decide
    | float op => cases op <;> decide
    | boolean op => cases op <;> decide
  have hverb (verb : Verb) : IsWord verb.name ∧ '.' ∉ verb.name.toList := by
    cases verb <;> decide
  unfold ofMachine at h
  rw [isRegistered_of_history, List.mem_append, List.mem_flatMap, List.mem_map] at h
  rcases h with ⟨⟨name, t⟩, ht, hf⟩ | ⟨verb, -, he⟩
  · obtain ⟨f, hf, he⟩ := List.mem_map.mp hf
    cases he
    rw [← NameMap.get?_eq_some_iff, Machine.get?_ofKinds_eq, Option.map_eq_some_iff] at ht
    obtain ⟨k, hk, rfl⟩ := ht
    have hname : k.name = stack := by simpa using List.find?_some hk
    obtain ⟨op, hget⟩ := NameMap.mem_names_iff.mp hf
    cases op with
    | builtin op =>
      have hfunction : op.name = function := OperationTable.name_of_get?_standard hget
      rw [← hname, ← hfunction]
      exact ⟨(hkind k).1, (hkind k).2, (hop op).1, (hop op).2⟩
    | host op => exact nomatch op
  · cases he
    exact ⟨isName_iff.mp (by decide), fun hd => absurd (isDigits_iff.mpr hd) (by decide),
      (hverb verb).1, (hverb verb).2⟩

theorem exists_of_mem_symbols_ofMachine {X : Type} {m : Machine X} {token : String}
    (h : token ∈ (ofMachine m).symbols) :
    ∃ stack function, (ofMachine m).isRegistered stack function = true ∧
      token = symbol stack function := by
  obtain ⟨calls, -, hlists⟩ := exists_lists_foldl_register
    (m.memory.entries.flatMap (fun entry => entry.2.operations.names.map (entry.1, ·)) ++
      Verb.all.map fun verb => (cursorName, verb.name))
  exact hlists.exists_of_mem_symbols h

/-- A registered word of an interpreter, or a short literal of one of its kinds. -/
def IsRandomToken (options : Options) (v : Vocabulary) (token : String) : Prop :=
  token ∈ v.symbols ∨ ∃ k ∈ options.kinds, IsShortLiteral k token

namespace IsRandomToken
variable {options : Options} {kinds : List Kind} {token : String}
  (h : IsRandomToken options (ofMachine (.ofKinds kinds : Machine Empty)) token)
include h

theorem exists_denotes :
    ∃ c, Denotes (ofMachine (.ofKinds kinds : Machine Empty)).known token c := by
  rcases h with h | ⟨k, -, h⟩
  · obtain ⟨stack, function, hregistered, rfl⟩ := exists_of_mem_symbols_ofMachine h
    exact (isSpeakable_of_isRegistered hregistered).exists_denotes (mem_known.mpr hregistered)
  · exact ⟨.literal k, h.denotes _⟩

theorem isWord : IsWord token := by
  rcases h with h | ⟨k, -, h⟩
  · obtain ⟨stack, function, hregistered, rfl⟩ := exists_of_mem_symbols_ofMachine h
    exact (isSpeakable_of_isRegistered hregistered).isWord_symbol
  · exact isWord_of_denotes_literal (h.denotes [])

end IsRandomToken
end Vocabulary

theorem Options.kinds_validate_ne_nil (o : Options) : o.validate.value.kinds ≠ [] := by
  rw [kinds_validate]
  cases h : o.kinds with
  | nil => decide
  | cons k kinds => exact List.cons_ne_nil _ _

namespace RandomSource
variable {σ τ : Type} [RandomSource σ] [RandomSource τ]

/-- Sources in related states answer alike and stay related, and what they answer is below the bound
that was given. A bound of zero is left out. -/
structure Alike (R : σ → τ → Prop) : Prop where
  intBelow : ∀ {n s t}, 0 < n → R s t → ∃ k s' t', RandomSource.intBelow n s = (k, s') ∧
    RandomSource.intBelow n t = (k, t') ∧ k < n ∧ R s' t'
  unitFloat : ∀ {s t}, R s t → ∃ x s' t', RandomSource.unitFloat s = (x, s') ∧
    RandomSource.unitFloat t = (x, t') ∧ R s' t'

end RandomSource

/-- A source and the bounds that it was given so far, the last one first. -/
structure Recorded (σ : Type) where
  source : σ
  bounds : List Nat

instance {σ : Type} [RandomSource σ] : RandomSource (Recorded σ) where
  intBelow n r :=
    let (k, source) := RandomSource.intBelow n r.source
    (k, ⟨source, n :: r.bounds⟩)
  unitFloat r :=
    let (x, source) := RandomSource.unitFloat r.source
    (x, ⟨source, r.bounds⟩)

namespace Interpreter
open Vocabulary
variable {σ τ α β : Type}

/-- From sources in related states two computations give the same value, which has a property, and
leave everything but the sources alone and the sources in related states. -/
def Agree (R : σ → τ → Prop) (options : Options) (v : Vocabulary) (P : α → Prop)
    (x : StateM (Interpreter σ) α) (y : StateM (Interpreter τ) α) : Prop :=
  ∀ s t, R s t → ∃ a s' t', x ⟨options, v, s⟩ = (a, ⟨options, v, s'⟩) ∧
    y ⟨options, v, t⟩ = (a, ⟨options, v, t'⟩) ∧ P a ∧ R s' t'

section Agree
variable {R : σ → τ → Prop} {options : Options} {v : Vocabulary} {P : α → Prop} {Q : β → Prop}

theorem Agree.pure {a : α} (h : P a) :
    Agree R options v P (pure a : StateM (Interpreter σ) α) (pure a : StateM (Interpreter τ) α) :=
  fun s t hst => ⟨a, s, t, rfl, rfl, h, hst⟩

theorem Agree.mono {P' : α → Prop} {x : StateM (Interpreter σ) α} {y : StateM (Interpreter τ) α}
    (h : Agree R options v P x y) (hP : ∀ a, P a → P' a) : Agree R options v P' x y := by
  intro s t hst
  obtain ⟨a, s', t', hx, hy, ha, hst'⟩ := h s t hst
  exact ⟨a, s', t', hx, hy, hP a ha, hst'⟩

theorem Agree.bind {x : StateM (Interpreter σ) α} {y : StateM (Interpreter τ) α}
    {f : α → StateM (Interpreter σ) β} {g : α → StateM (Interpreter τ) β}
    (hxy : Agree R options v P x y) (hfg : ∀ a, P a → Agree R options v Q (f a) (g a)) :
    Agree R options v Q (x >>= f) (y >>= g) := by
  intro s t hst
  obtain ⟨a, s', t', hx, hy, ha, hst'⟩ := hxy s t hst
  obtain ⟨b, s'', t'', hf, hg, hb, hst''⟩ := hfg a ha s' t' hst'
  refine ⟨b, s'', t'', ?_, ?_, hb, hst''⟩
  · show f (x ⟨options, v, s⟩).1 (x ⟨options, v, s⟩).2 = _
    rw [hx, hf]
  · show g (y ⟨options, v, t⟩).1 (y ⟨options, v, t⟩).2 = _
    rw [hy, hg]

theorem Agree.get {f : Interpreter σ → StateM (Interpreter σ) α}
    {g : Interpreter τ → StateM (Interpreter τ) α}
    (h : ∀ s t, Agree R options v P (f ⟨options, v, s⟩) (g ⟨options, v, t⟩)) :
    Agree R options v P (get >>= f) (get >>= g) :=
  fun s t hst => h s t s t hst

end Agree

/-- Zeros in front fill a number up to the width. -/
theorem padded_spec {width n : Nat} (hn : (Nat.toDigits 10 n).length ≤ width) :
    IsDigitRun (padded width n).toList ∧ (padded width n).toList.length = width := by
  have hpadded : (padded width n).toList =
      List.replicate (width - (Nat.toDigits 10 n).length) '0' ++ Nat.toDigits 10 n := by
    simp [padded]
  rw [hpadded]
  constructor
  · rw [← isDigits_iff]
    have hdigits : ∀ c ∈ Nat.toDigits 10 n, c.isDigit = true := fun c hc =>
      Nat.isDigit_of_mem_toDigits (by decide) (by decide) hc
    simpa [Decimal.isDigits, Nat.toDigits_ne_nil] using hdigits
  · rw [List.length_append, List.length_replicate]
    omega

section Draws
variable [RandomSource σ] [RandomSource τ] {R : σ → τ → Prop} (hR : RandomSource.Alike R)
  {options : Options} {v : Vocabulary}
include hR

theorem agree_drawBelow {bound : Nat} (h : 0 < bound) :
    Agree R options v (· < bound) (drawBelow bound) (drawBelow bound) := by
  intro s t hst
  obtain ⟨k, s', t', hs, ht, hk, hst'⟩ := hR.intBelow h hst
  refine ⟨k, s', t', ?_, ?_, hk, hst'⟩
  · simp only [drawBelow, hs]
  · simp only [drawBelow, ht]

theorem agree_drawFloat : Agree R options v (fun _ => True) drawFloat drawFloat := by
  intro s t hst
  obtain ⟨x, s', t', hs, ht, hst'⟩ := hR.unitFloat hst
  refine ⟨x, s', t', ?_, ?_, trivial, hst'⟩
  · simp only [drawFloat, RandomSource.randomFloat, hs]
  · simp only [drawFloat, RandomSource.randomFloat, ht]

theorem agree_drawInteger :
    Agree R options v (fun n => ∃ k < 10, n = Int64.ofNat k) drawInteger drawInteger := by
  intro s t hst
  obtain ⟨k, s', t', hs, ht, hk, hst'⟩ := hR.intBelow (n := RandomSource.integerRange) (by decide) hst
  refine ⟨Int64.ofNat k, s', t', ?_, ?_, ⟨k, hk, rfl⟩, hst'⟩
  · simp only [drawInteger, RandomSource.randomInteger, hs]
  · simp only [drawInteger, RandomSource.randomInteger, ht]

theorem agree_drawSign : Agree R options v (fun sign => IsSign sign.toList) drawSign drawSign := by
  refine (agree_drawFloat hR).bind fun x _ => .pure ?_
  split
  · exact .inr rfl
  · exact .inl rfl

theorem agree_randomLiteral (k : Kind) :
    Agree R options v (IsShortLiteral k) (randomLiteral k) (randomLiteral k) := by
  cases k with
  | integer =>
    refine (agree_drawSign hR).bind fun sign hs => (agree_drawInteger hR).bind ?_
    rintro n ⟨k, hk, rfl⟩
    have hdigit : ∀ k < 10, (Element.integerText (Int64.ofNat k)).toList = [k.digitChar] := by
      decide
    apply Agree.pure
    refine ⟨sign.toList, k.digitChar, hs, ?_, ?_⟩
    · have hdigits : ∀ k < 10, Decimal.isDigits [k.digitChar] = true := by decide
      exact isDigits_iff.mp (hdigits k hk)
    · rw [String.toList_append, hdigit k hk]
  | float =>
    refine (agree_drawSign hR).bind fun sign hs => (agree_drawFloat hR).bind fun x _ => .pure ?_
    have hmicros : (Nat.toDigits 10 (min (x * 1e6).toUInt32.toNat 999999)).length ≤ 6 := by
      rw [Nat.length_toDigits_le_iff (by decide) (by decide)]
      omega
    obtain ⟨hdigits, hlength⟩ := padded_spec hmicros
    refine ⟨sign.toList, _, hs, hdigits, hlength, ?_⟩
    rw [String.toList_append, String.toList_append]
    rfl
  | boolean =>
    refine (agree_drawFloat hR).bind fun x _ => .pure ?_
    unfold Element.booleanText
    split
    · exact .inl rfl
    · exact .inr rfl

theorem agree_randomAnyLiteral (h : options.kinds ≠ []) :
    Agree R options v (fun token => ∃ k ∈ options.kinds, IsShortLiteral k token)
      randomAnyLiteral randomAnyLiteral := by
  refine .get fun s t => ?_
  dsimp only
  rw [if_neg (by simpa using h), if_neg (by simpa using h)]
  -- The index is in range, so the kind that stands in for a missing one is never used.
  refine (agree_drawBelow hR (List.length_pos_iff.mpr h)).bind fun n hn => ?_
  have hkind : options.kinds.getD n .integer = options.kinds[n] := by
    rw [List.getD_eq_getElem?_getD, List.getElem?_eq_getElem hn, Option.getD_some]
  rw [hkind]
  exact (agree_randomLiteral hR _).mono fun token htoken => ⟨_, List.getElem_mem hn, htoken⟩

theorem agree_randomSymbol :
    Agree R options v (fun symbol => ∀ token ∈ symbol, token ∈ v.symbols)
      randomSymbol randomSymbol := by
  refine .get fun s t => ?_
  dsimp only
  by_cases h : v.symbols = []
  · rw [if_pos (by simpa using h), if_pos (by simpa using h)]
    exact .pure fun _ hnone => nomatch hnone
  · rw [if_neg (by simpa using h), if_neg (by simpa using h)]
    refine (agree_drawBelow hR (List.length_pos_iff.mpr h)).bind fun n _ => .pure ?_
    exact fun token htoken => List.mem_of_getElem? htoken

theorem agree_randomToken (h : options.kinds ≠ []) :
    Agree R options v (IsRandomToken options v) randomToken randomToken := by
  refine (agree_drawFloat hR).bind fun x _ => .get fun s t => ?_
  dsimp only
  have hliteral := (agree_randomAnyLiteral hR (v := v) h).mono fun token htoken =>
    (Or.inr htoken : IsRandomToken options v token)
  by_cases hx : x < options.literalProbability
  · rw [if_pos hx, if_pos hx]
    exact hliteral
  · rw [if_neg hx, if_neg hx]
    refine (agree_randomSymbol hR).bind fun symbol hsymbol => ?_
    cases symbol with
    | some token => exact .pure (.inl (hsymbol token rfl))
    | none => exact hliteral -- A vocabulary without words leaves only literals.

theorem agree_randomTokens (h : options.kinds ≠ []) (n : Nat) :
    Agree R options v
      (fun tokens => tokens.length = n ∧ ∀ token ∈ tokens, IsRandomToken options v token)
      (randomTokens n) (randomTokens n) := by
  induction n with
  | zero => exact .pure ⟨rfl, fun _ hmem => nomatch hmem⟩
  | succ n ih =>
    refine (agree_randomToken hR h).bind fun token htoken => ih.bind fun tokens htokens => .pure ?_
    refine ⟨congrArg (· + 1) htokens.1, ?_⟩
    rw [List.forall_mem_cons]
    exact ⟨htoken, htokens.2⟩

theorem agree_randomCode (h : options.kinds ≠ []) (length : Nat) :
    Agree R options v
      (fun code => code.tokens.length = length ∧
        ∀ token ∈ code.tokens, IsRandomToken options v token)
      (randomCode length) (randomCode length) :=
  (agree_randomTokens hR h length).bind fun _ htokens => .pure htokens

end Draws

theorem alike_recorded [RandomSource σ]
    (hbelow : ∀ n (s : σ), 0 < n → (RandomSource.intBelow n s).1 < n) :
    RandomSource.Alike fun (s : σ) (r : Recorded σ) => r.source = s ∧ 0 ∉ r.bounds where
  intBelow := by
    rintro n s r hn ⟨rfl, hr⟩
    refine ⟨_, _, _, rfl, rfl, hbelow n r.source hn, rfl, ?_⟩
    have hzero : 0 ≠ n := by omega
    simp [hzero, hr]
  unitFloat := by
    rintro s r ⟨rfl, hr⟩
    exact ⟨_, _, _, rfl, rfl, rfl, hr⟩

/-- Whatever options an interpreter is given and whatever its source answers, a random program has
the length that was asked for. All its tokens are read as instructions: they are registered words and
short literals of the kinds of the interpreter. The text of the program is read as the program, and
no number is ever drawn with a bound of zero. -/
theorem randomCode_closed [RandomSource σ] (options : Options) (source : σ)
    (hbelow : ∀ n (s : σ), 0 < n → (RandomSource.intBelow n s).1 < n) (length : Nat) :
    let i := (ofSource options source).value
    let result := randomCode length i
    let code := result.1
    let recorded := randomCode length (ofSource options (Recorded.mk source [])).value
    code.tokens.length = length ∧
    (∀ token ∈ code.tokens, ∃ c, i.vocabulary.instruction? token = some c ∧ c.token = token) ∧
    (i.vocabulary.readTokens code.tokens).value.size = length ∧
    (∀ token ∈ code.tokens,
      token ∈ i.vocabulary.symbols ∨ ∃ k ∈ i.options.kinds, IsShortLiteral k token) ∧
    Code.ofText code.text = code ∧
    recorded.1 = code ∧ recorded.2.source.source = result.2.source ∧
      0 ∉ recorded.2.source.bounds := by
  intro i result code recorded
  have hkinds : i.options.kinds ≠ [] := options.kinds_validate_ne_nil
  obtain ⟨written, s, r, hs, hr, ⟨hlength, htokens⟩, hsource, hbounds⟩ :=
    agree_randomCode (alike_recorded hbelow) hkinds (v := i.vocabulary) length source
      ⟨source, []⟩ ⟨rfl, List.not_mem_nil⟩
  have hresult : result = (written, ⟨i.options, i.vocabulary, s⟩) := hs
  have hrecorded : recorded = (written, ⟨i.options, i.vocabulary, r⟩) := hr
  have hcode : code = written := congrArg Prod.fst hresult
  have hread : ∀ token ∈ written.tokens,
      ∃ c, i.vocabulary.instruction? token = some c ∧ c.token = token := by
    intro token htoken
    obtain ⟨c, hc⟩ := (htokens token htoken).exists_denotes
    exact ⟨_, instruction?_of_denotes hc, rfl⟩
  rw [hcode, hrecorded, hresult]
  refine ⟨hlength, hread, ?_, htokens, ?_, rfl, hsource, hbounds⟩
  · rw [size_readTokens, hlength]
    intro token htoken
    obtain ⟨c, hc, -⟩ := hread token htoken
    rw [hc]
    rfl
  · exact Code.ofText_text_of_isWord fun token htoken => (htokens token htoken).isWord

/-- A program from options that repeat a kind and give no number as a probability, and from draws
that are no numbers, infinite or too large. -/
theorem randomCode_closed_of_wild_draws :
    let options : Options := { kinds := [.float, .float], literalProbability := 0.0 / 0.0 }
    let source : Script := ⟨[67, 5], [0.0 / 0.0, -1.0 / 0.0, 1e300, 1.0 / 0.0]⟩
    let i := (ofSource options source).value
    let code := (randomCode 2 i).1
    (∀ n (s : Script), 0 < n → (RandomSource.intBelow n s).1 < n) ∧
    code.tokens = ["float.>", "-0.999999"] ∧
    (i.vocabulary.readTokens code.tokens).value.size = 2 ∧
    Code.ofText code.text = code ∧
    0 ∉ (randomCode 2 (ofSource options (Recorded.mk source [])).value).2.source.bounds := by
  intro options source i code
  have htokens : code.tokens = ["float.>", "-0.999999"] := by decide +kernel
  have hbelow : ∀ n (s : Script), 0 < n → (RandomSource.intBelow n s).1 < n := by
    intro n s hn
    show (s.intBelow n).1 < n
    unfold Script.intBelow
    split
    · exact hn
    · exact Nat.mod_lt _ hn
  -- The numbers below would otherwise be computed again to compare them.
  clear_value options source
  obtain ⟨-, -, hsize, -, htext, -, -, hbounds⟩ := randomCode_closed options source hbelow 2
  exact ⟨hbelow, htokens, hsize, htext, hbounds⟩

end Interpreter
end StackMachine
