import StackMachine.Interpreter.Synthesis
import StackMachine.Proofs.Configuration
import StackMachine.Proofs.Delivery
import StackMachine.Proofs.NearestFloat
import StackMachine.Proofs.Observation

/-! Valid options. Validation keeps what is valid, replaces the rest and says so; options that were
read, loaded or given to an interpreter have been through it. -/
namespace StackMachine
open Decimal

section Numbers
open Float.Model

/-- The number that a finite float stands for. -/
def Decimal.Reading.number? : Reading → Option ℚ
  | .finite negative b => some (if negative then -b.value else b.value)
  | .infinite _ => none
  | .nan => none

theorem Decimal.le_iff_unpack {x y : Float} :
    x ≤ y ↔ x.toModel.unpack.le y.toModel.unpack = true := by
  show Float.le x y = true ↔ _
  unfold Float.le
  rw [decide_eq_true_iff]
  rfl

theorem Decimal.isLE_compare_then_iff {e e' : ℤ} {m m' : ℕ} :
    ((compare e e').then (compare m m')).isLE = true ↔ e < e' ∨ e = e' ∧ m ≤ m' := by
  rcases lt_trichotomy e e' with h | rfl | h
  · simp [compare_lt_iff_lt.mpr h, h]
  · simp [Nat.isLE_compare]
  · simp [compare_gt_iff_gt.mpr h, h.le, h.ne']

/-- A magnitude is at most one if its exponent is below that of one, or the mantissa decides. -/
theorem Decimal.Binary.IsCanonical.value_le_one_iff {b : Binary} (hc : b.IsCanonical) :
    b.value ≤ 1 ↔ b.exponent < -52 ∨ b.exponent = -52 ∧ b.mantissa ≤ 2 ^ 52 := by
  obtain ⟨hlt, -, -, hleast⟩ := hc
  unfold leastExponent at hleast
  rw [leadingBit_eq] at hlt hleast
  unfold Binary.value
  rcases lt_trichotomy b.exponent (-52) with he | he | he
  · have hmantissa : (b.mantissa : ℚ) ≤ 2 ^ 53 := by
      exact_mod_cast (show b.mantissa ≤ 2 ^ 53 by omega)
    have hpow : (2 : ℚ) ^ b.exponent ≤ 2 ^ (-53 : ℤ) :=
      zpow_le_zpow_right₀ (by norm_num) (by omega)
    refine iff_of_true ?_ (.inl he)
    calc (b.mantissa : ℚ) * 2 ^ b.exponent
      _ ≤ 2 ^ 53 * 2 ^ (-53 : ℤ) := mul_le_mul hmantissa hpow (by positivity) (by positivity)
      _ = 1 := by norm_num
  · have hvalue : (b.mantissa : ℚ) * 2 ^ b.exponent = b.mantissa / 2 ^ 52 := by
      rw [he, zpow_neg, div_eq_mul_inv]
      rfl
    rw [hvalue, div_le_one (by positivity)]
    constructor
    · intro h
      exact .inr ⟨he, by exact_mod_cast h⟩
    · rintro (h | ⟨-, h⟩)
      · omega
      · exact_mod_cast h
  · have hmantissa : (2 : ℚ) ^ 52 ≤ b.mantissa := by
      exact_mod_cast (show 2 ^ 52 ≤ b.mantissa by omega)
    have hpow : (2 : ℚ) ^ (-51 : ℤ) ≤ 2 ^ b.exponent :=
      zpow_le_zpow_right₀ (by norm_num) (by omega)
    have htwo : (2 : ℚ) ≤ b.mantissa * 2 ^ b.exponent := by
      calc (2 : ℚ)
        _ = 2 ^ 52 * 2 ^ (-51 : ℤ) := by norm_num
        _ ≤ b.mantissa * 2 ^ b.exponent := mul_le_mul hmantissa hpow (by positivity) (by positivity)
    refine iff_of_false (by linarith) ?_
    rintro (h | ⟨h, -⟩)
    · omega
    · omega

end Numbers

namespace Options
open Float.Model

/-- A float of the unit interval; no NaN and no infinity is one. -/
def InUnitInterval (x : Float) : Prop :=
  ∃ q ∈ (Reading.ofFloat x).number?, 0 ≤ q ∧ q ≤ 1

theorem isProbability_iff {x : Float} : isProbability x = true ↔ InUnitInterval x := by
  have hzero : (0.0 : Float).toModel.unpack = .zero .positive := rfl
  have hone : (1.0 : Float).toModel.unpack = .finite .positive (2 ^ 52) (-52) (by decide) := rfl
  have hreading := Reading.ofFloat_eq x
  unfold isProbability InUnitInterval
  rw [Bool.and_eq_true_iff, decide_eq_true_iff, decide_eq_true_iff, le_iff_unpack, le_iff_unpack,
    hzero, hone]
  cases hu : x.toModel.unpack with
  | notANumber =>
    rw [hreading, hu]
    simp [UnpackedFloat.le, UnpackedFloat.compare, Reading.ofUnpacked, Reading.number?]
  | infinity s =>
    rw [hreading, hu]
    cases s <;> simp [UnpackedFloat.le, UnpackedFloat.compare, Reading.ofUnpacked, Reading.number?]
  | zero s =>
    rw [hreading, hu]
    cases s <;> simp [UnpackedFloat.le, UnpackedFloat.compare, Reading.ofUnpacked, Reading.number?,
      Binary.value]
  | finite s m e hm =>
    rw [hu] at hreading
    have hc : Binary.IsCanonical ⟨m, e⟩ := (Reading.ofFloat_eq_finite hreading).1
    have hpos : 0 < (⟨m, e⟩ : Binary).value := by
      unfold Binary.value
      positivity
    rw [hreading]
    cases s with
    | negative =>
      have hbelow : ¬0 ≤ -(⟨m, e⟩ : Binary).value := by linarith
      simp [UnpackedFloat.le, UnpackedFloat.compare, Reading.ofUnpacked, Reading.number?,
        -Left.nonneg_neg_iff, hbelow]
    | positive =>
      simp [UnpackedFloat.le, UnpackedFloat.compare, Reading.ofUnpacked, Reading.number?, hpos.le,
        hc.value_le_one_iff, isLE_compare_then_iff]

/-! The kinds without repetitions. -/

/-- The elements of a list, each of them once, in the order in which they occur first. -/
structure FirstOccurrences (kinds firsts : List Kind) : Prop where
  mem_iff : ∀ k, k ∈ firsts ↔ k ∈ kinds
  ordered : firsts.Pairwise fun j k => kinds.idxOf j < kinds.idxOf k

theorem firstOccurrences_distinct (kinds : List Kind) :
    FirstOccurrences kinds (distinct kinds) := by
  refine ⟨fun k => mem_distinct, ?_⟩
  induction kinds with
  | nil => exact .nil
  | cons j kinds ih =>
    have hindex {k : Kind} (hk : k ∈ (distinct kinds).filter (· ≠ j)) :
        (j :: kinds).idxOf k = kinds.idxOf k + 1 := by
      have hne : k ≠ j := by simpa using (List.mem_filter.mp hk).2
      exact List.idxOf_cons_ne kinds hne.symm
    rw [distinct_cons]
    refine List.pairwise_cons.mpr ⟨fun k hk => ?_, ?_⟩
    · rw [List.idxOf_cons_self, hindex hk]
      exact Nat.succ_pos _
    · refine (ih.filter _).imp_of_mem fun {a b} ha hb hlt => ?_
      rw [hindex ha, hindex hb]
      exact Nat.succ_lt_succ hlt

theorem distinct_eq_self {kinds : List Kind} (h : kinds.Nodup) : distinct kinds = kinds := by
  induction kinds with
  | nil => rfl
  | cons j kinds ih =>
    obtain ⟨hj, hkinds⟩ := List.nodup_cons.mp h
    have hkeep : kinds.filter (· ≠ j) = kinds := by
      rw [List.filter_eq_self]
      intro k hk
      exact decide_eq_true fun he => hj (he ▸ hk)
    rw [distinct_cons, ih hkinds, hkeep]

theorem distinct_sublist (kinds : List Kind) : (distinct kinds).Sublist kinds := by
  induction kinds with
  | nil => exact .slnil
  | cons j kinds ih =>
    rw [distinct_cons]
    exact .cons_cons j (List.filter_sublist.trans ih)

theorem length_distinct_eq_iff {kinds : List Kind} :
    (distinct kinds).length = kinds.length ↔ kinds.Nodup := by
  constructor
  · intro h
    rw [← (distinct_sublist kinds).eq_of_length h]
    exact nodup_distinct kinds
  · intro h
    rw [distinct_eq_self h]

/-! What validation does. -/

/-- Options that validation has nothing to say about. -/
structure Valid (o : Options) : Prop where
  inUnitInterval : InUnitInterval o.literalProbability
  kinds_ne_nil : o.kinds ≠ []
  nodup_kinds : o.kinds.Nodup

theorem isValid_iff {o : Options} : o.isValid = true ↔ o.Valid := by
  unfold isValid
  simp only [Bool.and_eq_true_iff, isProbability_iff, decide_eq_true_iff, Bool.not_eq_true',
    List.isEmpty_eq_false_iff]
  exact ⟨fun ⟨⟨hunit, hne⟩, hnodup⟩ => ⟨hunit, hne, hnodup⟩,
    fun ⟨hunit, hne, hnodup⟩ => ⟨⟨hunit, hne⟩, hnodup⟩⟩

/-- Options that validation made of others. -/
structure Repairs (v o : Options) : Prop where
  maxInstructions : v.maxInstructions = o.maxInstructions
  seed : v.seed = o.seed
  probability : InUnitInterval o.literalProbability → v.literalProbability = o.literalProbability
  noProbability : ¬InUnitInterval o.literalProbability →
    v.literalProbability = ({} : Options).literalProbability
  noKinds : o.kinds = [] → v.kinds = ({} : Options).kinds
  kinds : o.kinds ≠ [] → FirstOccurrences o.kinds v.kinds

theorem value_validateProbability (o : Options) :
    o.validateProbability.value = { o with
      literalProbability := if isProbability o.literalProbability then o.literalProbability
        else ({} : Options).literalProbability } := by
  unfold validateProbability
  split <;> rfl

theorem value_validateStacks (o : Options) :
    o.validateStacks.value = { o with
      kinds := if o.kinds.isEmpty then ({} : Options).kinds else o.kinds } := by
  unfold validateStacks
  split <;> rfl

theorem value_validate (o : Options) :
    o.validate.value =
      { o with
        kinds := distinct (if o.kinds.isEmpty then ({} : Options).kinds else o.kinds)
        literalProbability := if isProbability o.literalProbability then o.literalProbability
          else ({} : Options).literalProbability } := by
  have hsteps : o.validate.value =
      { o.validateProbability.value.validateStacks.value with
        kinds := distinct o.validateProbability.value.validateStacks.value.kinds } := rfl
  rw [hsteps, value_validateStacks, value_validateProbability]

theorem repairs_validate (o : Options) : o.validate.value.Repairs o := by
  rw [value_validate]
  refine ⟨rfl, rfl, fun h => if_pos (isProbability_iff.mpr h),
    fun h => if_neg fun hp => h (isProbability_iff.mp hp), fun h => ?_, fun h => ?_⟩
  · simp only [h, List.isEmpty_nil, if_true]
    rfl
  · have hempty : o.kinds.isEmpty = false := List.isEmpty_eq_false_iff.mpr h
    simp only [hempty, Bool.false_eq_true, if_false]
    exact firstOccurrences_distinct o.kinds

theorem valid_validate (o : Options) : o.validate.value.Valid := by
  refine ⟨?_, o.kinds_validate_ne_nil, o.nodup_kinds_validate⟩
  rw [value_validate, ← isProbability_iff]
  dsimp only
  split
  · assumption
  · decide

/-- Options that are valid stay as they are. -/
theorem Valid.value_validate {o : Options} (h : o.Valid) : o.validate.value = o := by
  rw [Options.value_validate, if_pos (isProbability_iff.mpr h.inUnitInterval),
    List.isEmpty_eq_false_iff.mpr h.kinds_ne_nil]
  simp only [Bool.false_eq_true, if_false, distinct_eq_self h.nodup_kinds]

/-! The warnings of validation. -/

/-- All messages of a result are warnings, and there are none exactly if all is fine. -/
structure WarnsUnless {α : Type} (fine : Prop) (x : Logged α) : Prop where
  messages_eq_nil_iff : x.messages = [] ↔ fine
  severity_eq : ∀ m ∈ x.messages, m.severity = .warn

theorem WarnsUnless.bind {α β : Type} {p q : Prop} {x : Logged α} {f : α → Logged β}
    (hx : WarnsUnless p x) (hf : WarnsUnless q (f x.value)) : WarnsUnless (p ∧ q) (x >>= f) := by
  have hmessages : (x >>= f).messages = x.messages ++ (f x.value).messages := rfl
  constructor
  · rw [hmessages, List.append_eq_nil_iff, hx.messages_eq_nil_iff, hf.messages_eq_nil_iff]
  · rw [hmessages, List.forall_mem_append]
    exact ⟨hx.severity_eq, hf.severity_eq⟩

theorem WarnsUnless.fine {α : Type} {p : Prop} (h : p) (a : α) :
    WarnsUnless p (pure a : Logged α) :=
  ⟨iff_of_true rfl h, fun _ hm => nomatch hm⟩

theorem WarnsUnless.tell {α : Type} {p : Prop} (h : ¬p) (content : String) (a : α) :
    WarnsUnless p (do Logged.tell .warn content; return a) :=
  ⟨iff_of_false (List.cons_ne_nil _ _) h, List.forall_mem_singleton.mpr rfl⟩

theorem warnsUnless_validateProbability (o : Options) :
    WarnsUnless (InUnitInterval o.literalProbability) o.validateProbability := by
  unfold validateProbability
  by_cases hp : isProbability o.literalProbability = true
  · rw [if_pos hp]
    exact .fine (isProbability_iff.mp hp) o
  · rw [if_neg hp]
    exact .tell (fun h => hp (isProbability_iff.mpr h)) _ _

theorem warnsUnless_validateStacks (o : Options) :
    WarnsUnless (o.kinds ≠ []) o.validateStacks := by
  unfold validateStacks
  by_cases hempty : o.kinds = []
  · rw [if_pos (List.isEmpty_iff.mpr hempty)]
    exact .tell (not_not.mpr hempty) _ _
  · rw [if_neg (by simpa using hempty)]
    exact .fine hempty o

theorem warnsUnless_removeDuplicates (o : Options) :
    WarnsUnless o.kinds.Nodup o.removeDuplicates := by
  have hle := (distinct_sublist o.kinds).length_le
  unfold removeDuplicates Logged.tellIf
  dsimp only
  by_cases hnodup : o.kinds.Nodup
  · have hnone : ¬0 < o.kinds.length - (distinct o.kinds).length := by
      rw [length_distinct_eq_iff.mpr hnodup]
      omega
    rw [if_neg (by simpa using hnone)]
    exact .fine hnodup _
  · have hsome : 0 < o.kinds.length - (distinct o.kinds).length := by
      have hne := mt length_distinct_eq_iff.mp hnodup
      omega
    rw [if_pos (by simpa using hsome)]
    exact .tell hnodup _ _

theorem warnsUnless_validate (o : Options) : WarnsUnless o.Valid o.validate := by
  have hsteps : o.validate =
      o.validateProbability >>= fun o => o.validateStacks >>= removeDuplicates := rfl
  have hkinds : o.validateProbability.value.kinds = o.kinds := by rw [value_validateProbability]
  have h := WarnsUnless.bind (f := fun o => o.validateStacks >>= removeDuplicates)
    o.warnsUnless_validateProbability
    ((warnsUnless_validateStacks _).bind (warnsUnless_removeDuplicates _))
  rw [← hsteps, value_validateStacks, hkinds] at h
  refine ⟨h.messages_eq_nil_iff.trans ⟨?_, ?_⟩, h.severity_eq⟩
  · rintro ⟨hunit, hne, hnodup⟩
    exact ⟨hunit, hne, by simpa [hne] using hnodup⟩
  · rintro ⟨hunit, hne, hnodup⟩
    exact ⟨hunit, hne, by simpa [hne] using hnodup⟩

theorem Valid.validate_eq_pure {o : Options} (h : o.Valid) : o.validate = pure o := by
  have hmessages := o.warnsUnless_validate.messages_eq_nil_iff.mpr h
  have hvalue := h.value_validate
  generalize o.validate = x at hmessages hvalue
  cases x
  cases hvalue
  cases hmessages
  rfl

end Options

theorem Outlet.emissions_eq_nil_iff {o : Outlet} {m : Message} :
    o.emissions m = [] ↔ o.logger.enabled m.severity = false := by
  have hsome := o.logger.isSome_emit? o.isOpen m.severity m.content
  unfold emissions
  cases henabled : o.logger.enabled m.severity with
  | false => simp
  | true =>
    rw [henabled, Option.isSome_iff_exists] at hsome
    obtain ⟨e, he⟩ := hsome
    simp [he]

/-- Where warnings are let through, validation is silent exactly on valid options. -/
theorem Live.validate_silent_iff {outlet : Outlet} (h : outlet.logger.enabled .warn = true)
    (o : Options) (e : List Emission) : (validate o outlet e).2 = e ↔ o.Valid := by
  have hwarns := o.warnsUnless_validate
  rw [validate_eq, run_ofLogged]
  show e ++ o.validate.messages.flatMap outlet.emissions = e ↔ _
  rw [List.append_right_eq_self, List.flatMap_eq_nil_iff, ← hwarns.messages_eq_nil_iff,
    List.eq_nil_iff_forall_not_mem]
  refine forall_congr' fun m => forall_congr' fun hm => ?_
  rw [Outlet.emissions_eq_nil_iff, hwarns.severity_eq m hm, h]
  simp

/-! Interpreters. -/
namespace Interpreter

variable {σ α β : Type}

/-- A computation leaves the options of an interpreter alone. -/
def KeepsOptions (x : StateM (Interpreter σ) α) : Prop := ∀ i, (x i).2.options = i.options

theorem KeepsOptions.pure (a : α) : KeepsOptions (pure a : StateM (Interpreter σ) α) :=
  fun _ => rfl

theorem KeepsOptions.bind {x : StateM (Interpreter σ) α} {f : α → StateM (Interpreter σ) β}
    (hx : KeepsOptions x) (hf : ∀ a, KeepsOptions (f a)) : KeepsOptions (x >>= f) :=
  fun i => (hf (x i).1 (x i).2).trans (hx i)

theorem KeepsOptions.get {f : Interpreter σ → StateM (Interpreter σ) α}
    (hf : ∀ i, KeepsOptions (f i)) : KeepsOptions (get >>= f) :=
  fun i => hf i i

variable [RandomSource σ]

theorem keepsOptions_drawBelow (bound : Nat) :
    KeepsOptions (drawBelow bound : StateM (Interpreter σ) Nat) :=
  fun _ => rfl

theorem keepsOptions_drawInteger : KeepsOptions (drawInteger : StateM (Interpreter σ) Int64) :=
  fun _ => rfl

theorem keepsOptions_drawFloat : KeepsOptions (drawFloat : StateM (Interpreter σ) Float) :=
  fun _ => rfl

theorem keepsOptions_drawSign : KeepsOptions (drawSign : StateM (Interpreter σ) String) :=
  keepsOptions_drawFloat.bind fun _ => .pure _

theorem keepsOptions_randomLiteral (kind : Kind) :
    KeepsOptions (randomLiteral kind : StateM (Interpreter σ) String) := by
  cases kind with
  | integer =>
    exact keepsOptions_drawSign.bind fun _ => keepsOptions_drawInteger.bind fun _ => .pure _
  | float => exact keepsOptions_drawSign.bind fun _ => keepsOptions_drawFloat.bind fun _ => .pure _
  | boolean => exact keepsOptions_drawFloat.bind fun _ => .pure _

theorem keepsOptions_randomAnyLiteral :
    KeepsOptions (randomAnyLiteral : StateM (Interpreter σ) String) := by
  refine .get fun i => ?_
  dsimp only
  split
  · exact keepsOptions_randomLiteral _
  · exact (keepsOptions_drawBelow _).bind fun _ => keepsOptions_randomLiteral _

theorem keepsOptions_randomSymbol :
    KeepsOptions (randomSymbol : StateM (Interpreter σ) (Option String)) := by
  refine .get fun i => ?_
  dsimp only
  split
  · exact .pure _
  · exact (keepsOptions_drawBelow _).bind fun _ => .pure _

theorem keepsOptions_randomToken :
    KeepsOptions (randomToken : StateM (Interpreter σ) String) := by
  refine keepsOptions_drawFloat.bind fun x => .get fun i => ?_
  split
  · exact keepsOptions_randomAnyLiteral
  · refine keepsOptions_randomSymbol.bind fun symbol => ?_
    cases symbol with
    | some symbol => exact .pure symbol
    | none => exact keepsOptions_randomAnyLiteral

theorem keepsOptions_randomCode (length : Nat) :
    KeepsOptions (randomCode length : StateM (Interpreter σ) Code) := by
  have htokens : KeepsOptions (randomTokens length : StateM (Interpreter σ) (List String)) := by
    induction length with
    | zero => exact .pure []
    | succ n ih => exact keepsOptions_randomToken.bind fun _ => ih.bind fun _ => .pure _
  exact htokens.bind fun _ => .pure _

/-- The uses of an interpreter. -/
inductive Use where
  | execute (program : Program) (state : Option Snapshot)
  | run (text : String)
  | runCode (code : Code)
  | runWithState (text : String) (state : Snapshot)
  | drawInteger
  | drawFloat
  | randomLiteral (kind : Kind)
  | randomSymbol
  | randomToken
  | randomCode (length : Nat)

/-- The interpreter that a use leaves behind. -/
def after (i : Interpreter σ) : Use → Interpreter σ
  | .execute program state => (i.execute program state).value.2
  | .run text => (i.run text).value.2
  | .runCode code => (i.runCode code).value.2
  | .runWithState text state => (i.runWithState text state).value.2
  | .drawInteger => (drawInteger.run i).2
  | .drawFloat => (drawFloat.run i).2
  | .randomLiteral kind => ((randomLiteral kind).run i).2
  | .randomSymbol => (randomSymbol.run i).2
  | .randomToken => (randomToken.run i).2
  | .randomCode length => ((randomCode length).run i).2

theorem options_after (i : Interpreter σ) (use : Use) : (i.after use).options = i.options := by
  cases use with
  | execute program state => cases state <;> rfl
  | run text => rfl
  | runCode code => rfl
  | runWithState text state => rfl
  | drawInteger => exact keepsOptions_drawInteger i
  | drawFloat => exact keepsOptions_drawFloat i
  | randomLiteral kind => exact keepsOptions_randomLiteral kind i
  | randomSymbol => exact keepsOptions_randomSymbol i
  | randomToken => exact keepsOptions_randomToken i
  | randomCode length => exact keepsOptions_randomCode length i

/-- However an interpreter was used, it holds the options that it was made with, validated. -/
theorem options_foldl_after (o : Options) (source : σ) (uses : List Use) :
    (uses.foldl after (ofSource o source).value).options = o.validate.value := by
  have hkeep (i : Interpreter σ) : (uses.foldl after i).options = i.options := by
    induction uses generalizing i with
    | nil => rfl
    | cons use uses ih => exact (ih _).trans (i.options_after use)
  exact hkeep _

end Interpreter

namespace Options

theorem ofToml_eq_ok {text : String} {x : Logged Options} (h : ofToml text = .ok x) :
    ∃ o, parse? text = some o ∧ x = o.validate := by
  unfold ofToml at h
  split at h
  · rename_i o hparse
    exact ⟨o, hparse, (Except.ok.inj h).symm⟩
  · cases h

theorem valid_default : Valid {} := isValid_iff.mp (by decide)

/-- A file that can be read gives the options of its text, or the defaults if its text gives
none. -/
theorem load_of_fromUTF8? (describe : String → String) (path : String) {bytes : ByteArray}
    {text : String} (h : String.fromUTF8? bytes = some text) :
    ∃ y, load describe path (some bytes) = .ok y ∧ y.value.Valid ∧
      (∀ x, ofToml text = .ok x → y = x) ∧
      ∀ fault, ofToml text = .error fault → y.value = {} := by
  unfold load ofToml
  rw [Option.bind_some, h]
  cases hparse : parse? text with
  | some o =>
    refine ⟨o.validate, ?_, o.valid_validate, fun x hx => Except.ok.inj hx, nofun⟩
    simp [hparse]
  | none =>
    let y : Logged Options := do
      Logged.tell .error (Fault.unparsable.message ++ ": " ++ describe text ++ ". Using defaults.")
      validate {}
    have hvalue : y.value = {} := valid_default.value_validate
    refine ⟨y, ?_, hvalue ▸ valid_default, nofun, fun _ _ => hvalue⟩
    simp [hparse, y]

theorem valid_load {describe : String → String} {path : String} {content : Option ByteArray}
    {x : Logged Options} (h : load describe path content = .ok x) : x.value.Valid := by
  cases htext : content.bind String.fromUTF8? with
  | none =>
    unfold load at h
    rw [htext] at h
    cases h
  | some text =>
    obtain ⟨bytes, rfl, hbytes⟩ := Option.bind_eq_some_iff.mp htext
    obtain ⟨y, hy, hvalid, -⟩ := load_of_fromUTF8? describe path hbytes
    cases hy.symm.trans h
    exact hvalid

/-- Validation repairs options to valid ones, and where warnings are let through it says something
exactly if there was something to repair; what it made, it leaves alone without a word. Options that
were read, loaded or given to an interpreter are valid, however the interpreter is used. A file that
can be read gives what its text gives, or else the defaults. -/
theorem validate_normalizes :
    (∀ o : Options,
      let v := o.validate.value
      v.Repairs o ∧ v.Valid ∧ v.validate = pure v ∧
      ∀ (outlet : Outlet) (e : List Emission),
        Live.validate v outlet e = (v, e) ∧
        (outlet.logger.destination ≠ .nowhere → Severity.warn.passes outlet.logger.level = true →
          ((Live.validate o outlet e).2 = e ↔ o.Valid))) ∧
    (∀ text x, ofToml text = .ok x → x.value.Valid) ∧
    (∀ describe path content x, load describe path content = .ok x → x.value.Valid) ∧
    (∀ {σ : Type} [RandomSource σ] (o : Options) (source : σ) (uses : List Interpreter.Use),
      (uses.foldl Interpreter.after (Interpreter.ofSource o source).value).options.Valid) ∧
    ∀ describe path bytes text, String.fromUTF8? bytes = some text →
      ∃ y, load describe path (some bytes) = .ok y ∧ (∀ x, ofToml text = .ok x → y = x) ∧
        ∀ fault, ofToml text = .error fault → y.value = {} := by
  refine ⟨fun o => ?_, fun text x h => ?_, fun describe path content x h => valid_load h,
    fun o source uses => ?_, fun describe path bytes text h => ?_⟩
  · have hvalid := o.valid_validate
    refine ⟨o.repairs_validate, hvalid, hvalid.validate_eq_pure, fun outlet e => ⟨?_, ?_⟩⟩
    · rw [Live.validate_eq, hvalid.validate_eq_pure, Live.ofLogged_pure]
      rfl
    · intro hdestination hpasses
      have henabled : outlet.logger.enabled .warn = true := by
        simp [Logger.enabled, hdestination, hpasses]
      exact Live.validate_silent_iff henabled o e
  · obtain ⟨o, -, rfl⟩ := ofToml_eq_ok h
    exact o.valid_validate
  · rw [Interpreter.options_foldl_after]
    exact o.valid_validate
  · obtain ⟨y, hy, -, hrest⟩ := load_of_fromUTF8? describe path h
    exact ⟨y, hy, hrest⟩

/-- Options with everything to repair, under a logger that shows warnings. -/
theorem validate_normalizes_of_infinite :
    let o : Options :=
      { kinds := [.float, .integer, .float], seed := some 1, literalProbability := 1.0 / 0.0 }
    let outlet : Outlet := ⟨{ destination := .channel 0, level := .warn }, fun _ => true⟩
    ¬InUnitInterval o.literalProbability ∧ o.validate.value.literalProbability = 0.3 ∧
    FirstOccurrences [.float, .integer, .float] o.validate.value.kinds ∧
    (Live.validate o outlet []).2 ≠ [] ∧
    Live.validate o.validate.value outlet [] = (o.validate.value, []) := by
  intro o outlet
  have hunit : ¬InUnitInterval o.literalProbability := by
    rw [← isProbability_iff]
    decide
  obtain ⟨hrepairs, -, -, hlogs⟩ := validate_normalizes.1 o
  obtain ⟨hsilent, hiff⟩ := hlogs outlet []
  refine ⟨hunit, hrepairs.noProbability hunit, hrepairs.kinds (by decide), ?_, hsilent⟩
  intro hnil
  exact hunit ((hiff (by decide) (by decide)).mp hnil).inUnitInterval

end Options
end StackMachine
