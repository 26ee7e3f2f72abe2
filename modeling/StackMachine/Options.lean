import StackMachine.Element
import StackMachine.Log

/-! Settings of an interpreter. -/
namespace StackMachine

/-- What an interpreter can be told. -/
structure Options where
  /-- A run stops once it has executed more instructions than this. -/
  maxInstructions : UInt64 := 100
  /-- The kinds of the stacks of every run. -/
  kinds : List Kind := Kind.all
  /-- The seed of the random source. -/
  seed : Option UInt64 := none
  /-- How likely a random token is a literal. -/
  literalProbability : Float := 0.3
deriving DecidableEq, Repr

namespace Options

/-- A probability lies in the unit interval. -/
def isProbability (x : Float) : Bool := 0.0 ≤ x && x ≤ 1.0

/-- Goes through a list with the kinds seen so far, and retains those that are not among them. -/
def retainUnseen (seen : List Kind) : List Kind → List Kind
  | [] => []
  | k :: ks => if k ∈ seen then retainUnseen seen ks else k :: retainUnseen (seen ++ [k]) ks

/-- A list without the elements that occur before. -/
def distinct (kinds : List Kind) : List Kind := retainUnseen [] kinds

/-- What was seen before takes its kinds out of what is retained, and does nothing else. -/
theorem retainUnseen_eq_filter (seen kinds : List Kind) :
    retainUnseen seen kinds = (distinct kinds).filter (· ∉ seen) := by
  unfold distinct
  induction kinds generalizing seen with
  | nil => rfl
  | cons k kinds ih =>
    have hfirst : retainUnseen [] (k :: kinds) = k :: retainUnseen [k] kinds := rfl
    rw [hfirst, ih [k]]
    by_cases hk : k ∈ seen
    · have hsub : ∀ j ∈ retainUnseen [] kinds, decide (j ∉ seen) =
          (decide (j ∉ seen) && decide (j ∉ [k])) := by
        intro j _
        by_cases hj : j = k
        · simp [hj, hk]
        · simp [hj]
      rw [retainUnseen, if_pos hk, ih seen, List.filter_cons_of_neg (by simpa using hk),
        List.filter_filter, List.filter_congr hsub]
    · rw [retainUnseen, if_neg hk, ih (seen ++ [k]), List.filter_cons_of_pos (by simpa using hk),
        List.filter_filter]
      congr 1
      refine List.filter_congr fun j _ => ?_
      simp

theorem distinct_cons (k : Kind) (kinds : List Kind) :
    distinct (k :: kinds) = k :: (distinct kinds).filter (· ≠ k) := by
  have hfirst : distinct (k :: kinds) = k :: retainUnseen [k] kinds := rfl
  simp [hfirst, retainUnseen_eq_filter]

theorem nodup_distinct (kinds : List Kind) : (distinct kinds).Nodup := by
  induction kinds with
  | nil => exact .nil
  | cons j kinds ih =>
    rw [distinct_cons]
    exact List.nodup_cons.mpr ⟨by simp, ih.filter _⟩

/-- Options that validation leaves alone. -/
def isValid (o : Options) : Bool :=
  isProbability o.literalProbability && !o.kinds.isEmpty && decide o.kinds.Nodup

/-- Replaces a probability that is none by the default. -/
def validateProbability (o : Options) : Logged Options :=
  if isProbability o.literalProbability then return o
  else do
    let default : Options := {}
    Logged.tell .warn ("Invalid literal_probability: "
      ++ Decimal.Layout.plain.render o.literalProbability ++ ". Using default: "
      ++ Decimal.Layout.plain.render default.literalProbability)
    return { o with literalProbability := default.literalProbability }

/-- Replaces an empty list of stacks by the default. -/
def validateStacks (o : Options) : Logged Options :=
  if o.kinds.isEmpty then do
    let default : Options := {}
    Logged.tell .warn ("Invalid stacks: empty list. Using default: "
      ++ String.intercalate ", " (default.kinds.map Kind.name))
    return { o with kinds := default.kinds }
  else return o

/-- Removes repetitions from the list of stacks. -/
def removeDuplicates (o : Options) : Logged Options := do
  let kinds := distinct o.kinds
  let removed := o.kinds.length - kinds.length
  Logged.tellIf (0 < removed) .warn ("Removed " ++ toString removed
    ++ " duplicate stack kind(s). Using: ["
    ++ String.intercalate ", " (kinds.map Kind.title) ++ "]")
  return { o with kinds }

/-- Repairs every setting that is out of range, with a warning for each. -/
def validate (o : Options) : Logged Options := do
  let o ← o.validateProbability
  let o ← o.validateStacks
  o.removeDuplicates

/-- The kinds that are left: those of the list, or all if it is empty, each of them once. -/
theorem kinds_validate (o : Options) :
    o.validate.value.kinds = distinct (if o.kinds.isEmpty then Kind.all else o.kinds) := by
  have hkinds : o.validateProbability.value.kinds = o.kinds := by
    unfold validateProbability
    split <;> rfl
  have hstacks (o : Options) :
      o.validateStacks.value.kinds = if o.kinds.isEmpty then Kind.all else o.kinds := by
    unfold validateStacks
    split <;> rfl
  calc o.validate.value.kinds
    _ = distinct o.validateProbability.value.validateStacks.value.kinds := rfl
    _ = _ := by rw [hstacks, hkinds]

theorem nodup_kinds_validate (o : Options) : o.validate.value.kinds.Nodup := by
  rw [kinds_validate]
  exact nodup_distinct _

end Options
end StackMachine
