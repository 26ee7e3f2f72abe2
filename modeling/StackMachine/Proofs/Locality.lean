import StackMachine.Proofs.Randomness

/-! Which stacks an operation looks at and changes. What happens outside its footprint makes no
difference to an operation, so calls with disjoint footprints can change places. -/
namespace StackMachine

/-- The kind of the standard stack that an operation uses beside its target. -/
def Builtin.partner? : Builtin → Option Kind
  | .common .shove | .common .yank | .common .yankDup | .common .stackDepth => some .integer
  | .float .fromInteger | .boolean .fromInteger => some .integer
  | .integer .fromFloat | .boolean .fromFloat => some .float
  | .integer .fromBoolean | .float .fromBoolean => some .boolean
  | .integer .lt | .integer .gt | .integer .eq => some .boolean
  | .float .lt | .float .gt | .float .eq => some .boolean
  | _ => none

/-- The stacks that an operation on a target has to do with. -/
def Builtin.footprint (op : Builtin) (target : String) : List String :=
  target :: (op.partner?.map Kind.name).toList

namespace Memory
variable {X : Type}

/-- The contents of a stack, without its operations. -/
def contents? (m : Memory X) (name : String) : Option Contents :=
  (m.get? name).map (·.contents)

def operations? (m : Memory X) (name : String) : Option (OperationTable X) :=
  (m.get? name).map (·.operations)

/-- Two memories have the same contents on some stacks. -/
def AgreeOn (names : List String) (m m' : Memory X) : Prop :=
  ∀ name ∈ names, m.contents? name = m'.contents? name

/-- What is read depends on the contents of some stacks only. -/
def Observes {ρ : Type} (names : List String) (read : Memory X → ρ) : Prop :=
  ∀ m m', AgreeOn names m m' → read m = read m'

/-- A change of the contents of some stacks that depends on these contents only. -/
structure Local (names : List String) (f : Memory X → Memory X) : Prop where
  operations_eq : ∀ m name, (f m).operations? name = m.operations? name
  contents_eq : ∀ m, ∀ name ∉ names, (f m).contents? name = m.contents? name
  agree : ∀ m m', AgreeOn names m m' → AgreeOn names (f m) (f m')

theorem get?_eq_of_parts {m m' : Memory X} {name : String}
    (hc : m.contents? name = m'.contents? name) (ho : m.operations? name = m'.operations? name) :
    m.get? name = m'.get? name := by
  unfold contents? at hc
  unfold operations? at ho
  cases ht : m.get? name with
  | none =>
    rw [ht, Option.map_none, eq_comm, Option.map_eq_none_iff] at hc
    exact hc.symm
  | some t =>
    rw [ht, Option.map_some, eq_comm, Option.map_eq_some_iff] at hc
    obtain ⟨u, hu, hcontents⟩ := hc
    rw [ht, hu, Option.map_some, Option.map_some] at ho
    have hoperations : t.operations = u.operations := Option.some.inj ho
    have htu : t = u := by
      cases t
      cases u
      cases hcontents
      cases hoperations
      rfl
    rw [hu, htu]

theorem Local.get?_eq {names : List String} {f : Memory X → Memory X} (h : Local names f)
    (m : Memory X) {name : String} (hn : name ∉ names) : (f m).get? name = m.get? name :=
  get?_eq_of_parts (h.contents_eq m name hn) (h.operations_eq m name)

/-- Changes of different stacks can change places: each of them finds its own stacks as they were,
and leaves the stacks of the other one as they are. -/
theorem Local.comm {A B : List String} {f g : Memory X → Memory X} (hf : Local A f)
    (hg : Local B g) (hdisjoint : ∀ name ∈ A, name ∉ B) (m : Memory X) : f (g m) = g (f m) := by
  have hA : AgreeOn A (g m) m := by
    intro name hn
    exact hg.contents_eq m name (hdisjoint name hn)
  have hB : AgreeOn B (f m) m := by
    intro name hn
    exact hf.contents_eq m name fun ha => hdisjoint name ha hn
  refine NameMap.ext_get? fun name => get?_eq_of_parts ?_ ?_
  · by_cases ha : name ∈ A
    · have hb : name ∉ B := hdisjoint name ha
      calc (f (g m)).contents? name
        _ = (f m).contents? name := hf.agree _ _ hA name ha
        _ = (g (f m)).contents? name := (hg.contents_eq (f m) name hb).symm
    · by_cases hb : name ∈ B
      · calc (f (g m)).contents? name
          _ = (g m).contents? name := hf.contents_eq (g m) name ha
          _ = (g (f m)).contents? name := (hg.agree _ _ hB name hb).symm
      · rw [hf.contents_eq _ name ha, hg.contents_eq _ name hb, hg.contents_eq _ name hb,
          hf.contents_eq _ name ha]
  · rw [hf.operations_eq, hg.operations_eq, hg.operations_eq, hf.operations_eq]

/-! The ways in which local changes are put together. -/
section
variable {names : List String} {target : String}

theorem Local.none : Local names fun m : Memory X => m :=
  ⟨fun _ _ => rfl, fun _ _ _ => rfl, fun _ _ h => h⟩

theorem Local.comp {f g : Memory X → Memory X} (hf : Local names f) (hg : Local names g) :
    Local names fun m => g (f m) where
  operations_eq m name := by rw [hg.operations_eq, hf.operations_eq]
  contents_eq m name hn := by rw [hg.contents_eq _ name hn, hf.contents_eq _ name hn]
  agree m m' h := hg.agree _ _ (hf.agree m m' h)

/-- A change that is chosen by what is read. -/
theorem Local.read {ρ : Type} {read : Memory X → ρ} {f : ρ → Memory X → Memory X}
    (hread : Observes names read) (hf : ∀ r, Local names (f r)) :
    Local names fun m => f (read m) m where
  operations_eq m name := (hf _).operations_eq m name
  contents_eq m name hn := (hf _).contents_eq m name hn
  agree m m' h := by
    rw [hread m m' h]
    exact (hf _).agree m m' h

/-- A change that is made if there is something to read. -/
theorem Local.elim {ρ : Type} {read : Memory X → Option ρ} {f : ρ → Memory X → Memory X}
    (hread : Observes names read) (hf : ∀ r, Local names (f r)) :
    Local names fun m => (read m).elim m (f · m) := by
  have hall (r : Option ρ) : Local names fun m => r.elim m (f · m) := by
    cases r with
    | none => exact .none
    | some r => exact hf r
  exact .read hread hall

theorem contents?_rearrange (f : Contents → Contents) (target name : String) (m : Memory X) :
    (m.rearrange f target).contents? name =
      if name = target then (m.contents? name).map f else m.contents? name := by
  unfold contents? rearrange
  rw [NameMap.get?_modify]
  split
  · rw [Option.map_map, Option.map_map]
    rfl
  · rfl

theorem local_rearrange (h : target ∈ names) (f : Contents → Contents) :
    Local names (rearrange (X := X) f target) where
  operations_eq m name := by
    unfold operations? rearrange
    rw [NameMap.get?_modify]
    split
    · rw [Option.map_map]
      rfl
    · rfl
  contents_eq m name hn := by
    have hne : name ≠ target := fun he => hn (he ▸ h)
    rw [contents?_rearrange, if_neg hne]
  agree m m' hm name hn := by
    rw [contents?_rearrange, contents?_rearrange, hm name hn]

theorem local_put {α : Type} [Carrier α] (h : target ∈ names) (s : Stack α) :
    Local names fun m : Memory X => m.put target s :=
  local_rearrange h fun _ => Carrier.wrap s

theorem observes_contents? (h : target ∈ names) :
    Observes names fun m : Memory X => m.contents? target :=
  fun _ _ hm => hm target h

theorem observes_contains (h : target ∈ names) :
    Observes names fun m : Memory X => m.contains target := by
  intro m m' hm
  have hsome := congrArg Option.isSome (hm target h)
  unfold contents? at hsome
  rw [Option.isSome_map, Option.isSome_map] at hsome
  exact hsome

theorem observes_typed? (α : Type) [Carrier α] (h : target ∈ names) :
    Observes names fun m : Memory X => m.typed? α target := by
  have htyped (m : Memory X) : m.typed? α target = (m.contents? target).bind Carrier.unwrap? := by
    unfold typed? contents?
    rw [Option.bind_map]
    rfl
  intro m m' hm
  simp only [htyped, hm target h]

theorem Observes.map {ρ ρ' : Type} {read : Memory X → ρ} (h : Observes names read)
    (g : ρ → ρ') : Observes names fun m => g (read m) :=
  fun m m' hm => congrArg g (h m m' hm)

/-! The elementary operations. -/

theorem local_rearrangeAt (h : target ∈ names) (hi : home Int64 ∈ names)
    (f : Contents → Int64 → Contents) : Local names (rearrangeAt (X := X) f target) := by
  have hindex : Local names fun m : Memory X =>
      ((m.typed? Int64 (home Int64)).bind Stack.pop?).elim m fun p =>
        (m.put (home Int64) p.2).rearrange (f · p.1) target :=
    .elim ((observes_typed? Int64 hi).map (·.bind Stack.pop?)) fun p =>
      (local_put hi p.2).comp (local_rearrange h (f · p.1))
  have hall (b : Bool) : Local names fun m : Memory X => if b then
      ((m.typed? Int64 (home Int64)).bind Stack.pop?).elim m fun p =>
        (m.put (home Int64) p.2).rearrange (f · p.1) target
      else m := by
    cases b with
    | false => exact .none
    | true => exact hindex
  have heq : rearrangeAt (X := X) f target = fun m => if m.contains target then
      ((m.typed? Int64 (home Int64)).bind Stack.pop?).elim m fun p =>
        (m.put (home Int64) p.2).rearrange (f · p.1) target
      else m := by
    funext m
    unfold rearrangeAt
    cases (m.typed? Int64 (home Int64)).bind Stack.pop? <;> rfl
  rw [heq]
  exact .read (observes_contains h) hall

section
variable {α β : Type} [Carrier α] [Carrier β]

theorem local_unary (h : target ∈ names) (f : α → α) :
    Local names (unary (X := X) f target) := by
  have heq : unary (X := X) f target = fun m =>
      ((m.typed? α target).bind Stack.pop?).elim m fun p => m.put target (p.2.push (f p.1)) := by
    funext m
    unfold unary
    cases (m.typed? α target).bind Stack.pop? <;> rfl
  rw [heq]
  exact .elim ((observes_typed? α h).map (·.bind Stack.pop?)) fun p => local_put h _

theorem local_binaryIf (h : target ∈ names) (admits : α → Bool) (f : α → α → α) :
    Local names (binaryIf (X := X) admits f target) := by
  have heq : binaryIf (X := X) admits f target = fun m =>
      ((m.typed? α target).bind Stack.popPair?).elim m fun p =>
        if admits p.2.1 then m.put target (p.2.2.push (f p.1 p.2.1)) else m := by
    funext m
    unfold binaryIf
    cases (m.typed? α target).bind Stack.popPair? <;> rfl
  rw [heq]
  refine .elim ((observes_typed? α h).map (·.bind Stack.popPair?)) fun p => ?_
  cases admits p.2.1 with
  | false => exact .none
  | true => exact local_put h _

theorem local_compare (h : target ∈ names) (hb : home Bool ∈ names) (f : α → α → Bool) :
    Local names (compare (X := X) f target) := by
  have heq : compare (X := X) f target = fun m =>
      (m.typed? Bool (home Bool)).elim m fun results =>
        ((m.typed? α target).bind Stack.popPair?).elim m fun p =>
          (m.put target p.2.2).put (home Bool) (results.push (f p.1 p.2.1)) := by
    funext m
    unfold compare
    cases m.typed? Bool (home Bool) with
    | none => rfl
    | some results => cases (m.typed? α target).bind Stack.popPair? <;> rfl
  rw [heq]
  exact .elim (observes_typed? Bool hb) fun results =>
    .elim ((observes_typed? α h).map (·.bind Stack.popPair?)) fun p =>
      (local_put h p.2.2).comp (local_put hb _)

theorem local_convert (h : target ∈ names) (hb : home β ∈ names) (f : β → α) :
    Local names (convert (X := X) f target) := by
  have heq : convert (X := X) f target = fun m =>
      (m.typed? α target).elim m fun s =>
        ((m.typed? β (home β)).bind Stack.pop?).elim m fun p =>
          (m.put (home β) p.2).put target (s.push (f p.1)) := by
    funext m
    unfold convert
    cases m.typed? α target with
    | none => rfl
    | some s => cases (m.typed? β (home β)).bind Stack.pop? <;> rfl
  rw [heq]
  exact .elim (observes_typed? α h) fun s =>
    .elim ((observes_typed? β hb).map (·.bind Stack.pop?)) fun p =>
      (local_put hb p.2).comp (local_put h _)

theorem local_deliver (h : target ∈ names) (a : α) :
    Local names (deliver (X := X) a target) := by
  have heq : deliver (X := X) a target = fun m =>
      (m.typed? α target).elim m fun s => m.put target (s.push a) := by
    funext m
    unfold deliver
    cases m.typed? α target <;> rfl
  rw [heq]
  exact .elim (observes_typed? α h) fun s => local_put h _

end

theorem local_measure (h : target ∈ names) (hi : home Int64 ∈ names) :
    Local names (measure (X := X) target) := by
  have hmeasure : measure (X := X) target = fun m => (m.contents? target).elim m fun c =>
      m.deliver (Int64.ofNat c.size) (home Int64) := by
    funext m
    unfold measure contents? deliver
    cases m.get? target with
    | none => rfl
    | some t => cases m.typed? Int64 (home Int64) <;> rfl
  rw [hmeasure]
  exact .elim (observes_contents? h) fun c => local_deliver hi (Int64.ofNat c.size)

end
end Memory

open Memory

namespace Builtin
variable {X σ : Type} [RandomSource σ]

theorem target_mem_footprint (op : Builtin) (target : String) : target ∈ op.footprint target :=
  List.mem_cons_self

theorem partner_mem_footprint {op : Builtin} {k : Kind} (h : op.partner? = some k)
    (target : String) : k.name ∈ op.footprint target := by
  unfold footprint
  rw [h]
  exact List.mem_cons_of_mem target List.mem_cons_self

/-- An operation stays inside its footprint. -/
theorem local_apply (op : Builtin) (target : String) (source : σ) :
    Local (op.footprint target) fun m : Memory X => (op.apply target m source).1 := by
  have ht := op.target_mem_footprint target
  have hp {k : Kind} (h : op.partner? = some k) := partner_mem_footprint h target
  cases op with
  | common op =>
    cases op with
    | pop | swap | rotate | dup | flush => exact local_rearrange ht _
    | shove | yank | yankDup => exact local_rearrangeAt ht (hp rfl) _
    | stackDepth => exact local_measure ht (hp rfl)
  | integer op =>
    cases op with
    | add | sub | mul | div | rem | min | max => exact local_binaryIf (α := Int64) ht _ _
    | lt | gt | eq => exact local_compare (α := Int64) ht (hp rfl) _
    | fromBoolean => exact local_convert (α := Int64) (β := Bool) ht (hp rfl) _
    | fromFloat => exact local_convert (α := Int64) (β := Float) ht (hp rfl) _
    | rand => exact local_deliver (α := Int64) ht _
  | float op =>
    cases op with
    | add | sub | mul | div | rem | min | max => exact local_binaryIf (α := Float) ht _ _
    | lt | gt | eq => exact local_compare (α := Float) ht (hp rfl) _
    | sin | cos | tan => exact local_unary (α := Float) ht _
    | fromBoolean => exact local_convert (α := Float) (β := Bool) ht (hp rfl) _
    | fromInteger => exact local_convert (α := Float) (β := Int64) ht (hp rfl) _
    | rand => exact local_deliver (α := Float) ht _
  | boolean op =>
    cases op with
    | eq | and | or | xor => exact local_binaryIf (α := Bool) ht _ _
    | not => exact local_unary (α := Bool) ht _
    | fromInteger => exact local_convert (α := Bool) (β := Int64) ht (hp rfl) _
    | fromFloat => exact local_convert (α := Bool) (β := Float) ht (hp rfl) _

/-- What a source becomes does not depend on the stacks. -/
theorem source_apply (op : Builtin) (target : String) (m m' : Memory X) (source : σ) :
    (op.apply target m source).2 = (op.apply target m' source).2 := by
  obtain ⟨next, hnext⟩ := op.exists_apply_eq target m
  obtain ⟨next', hnext'⟩ := op.exists_apply_eq target m'
  rw [hnext, hnext']

/-- All operations but `rand` leave every source alone and do the same whatever it is. -/
theorem apply_of_name_ne_rand {op : Builtin} (h : op.name ≠ "rand") (target : String)
    (m : Memory X) (source source' : σ) :
    op.apply target m source = ((op.apply target m source').1, source) := by
  obtain ⟨next, hnext⟩ := op.exists_apply_eq target m
  rw [hnext, hnext, draws_eq_nil h]
  rfl

/-- Operations with disjoint footprints can change places if one of them does not draw. -/
theorem apply_comm {op₁ op₂ : Builtin} {target₁ target₂ : String}
    (hdisjoint : ∀ name ∈ op₁.footprint target₁, name ∉ op₂.footprint target₂)
    (hrand : op₁.name ≠ "rand") (m : Memory X) (source : σ) :
    op₂.apply target₂ (op₁.apply target₁ m source).1 (op₁.apply target₁ m source).2 =
      op₁.apply target₁ (op₂.apply target₂ m source).1 (op₂.apply target₂ m source).2 := by
  have hsource : (op₁.apply target₁ m source).2 = source := by
    rw [apply_of_name_ne_rand hrand target₁ m source source]
  have hcomm := (op₁.local_apply target₁ source).comm (op₂.local_apply target₂ source) hdisjoint m
  calc op₂.apply target₂ (op₁.apply target₁ m source).1 (op₁.apply target₁ m source).2
    _ = op₂.apply target₂ (op₁.apply target₁ m source).1 source := by rw [hsource]
    _ = ((op₁.apply target₁ (op₂.apply target₂ m source).1 source).1,
          (op₂.apply target₂ m source).2) :=
      Prod.ext hcomm.symm (op₂.source_apply target₂ _ m source)
    _ = op₁.apply target₁ (op₂.apply target₂ m source).1 (op₂.apply target₂ m source).2 :=
      (apply_of_name_ne_rand hrand target₁ _ _ source).symm

end Builtin

namespace Machine
variable {X σ : Type} [RandomSource σ]

/-- A call finds the same operation after any local change. -/
theorem operation?_of_local {names : List String} {f : Memory X → Memory X} (hf : Local names f)
    (m : Machine X) (stack function : String) :
    ({ m with memory := f m.memory } : Machine X).operation? stack function =
      m.operation? stack function := by
  have hoperations := congrArg (·.bind (·.get? function)) (hf.operations_eq m.memory stack)
  unfold operations? at hoperations
  simp only [Option.bind_map] at hoperations
  exact hoperations

variable [Host X]

theorem call_eq_apply {m : Machine X} {stack function : String} {op : Builtin}
    (h : m.operation? stack function = some (.builtin op)) (source : σ) :
    m.call stack function source =
      ({ m with memory := (op.apply stack m.memory source).1 },
        (op.apply stack m.memory source).2) := by
  unfold operation? at h
  unfold call
  rw [h]

/-- Two calls apply the operations that they find at first. -/
theorem call_call_eq_apply {m : Machine X} {stack₁ function₁ stack₂ function₂ : String}
    {op₁ op₂ : Builtin} (h₁ : m.operation? stack₁ function₁ = some (.builtin op₁))
    (h₂ : m.operation? stack₂ function₂ = some (.builtin op₂)) (source : σ) :
    (m.call stack₁ function₁ source).1.call stack₂ function₂ (m.call stack₁ function₁ source).2 =
      (op₂.apply stack₂ (op₁.apply stack₁ m.memory source).1
        (op₁.apply stack₁ m.memory source).2).map (fun memory => { m with memory }) id := by
  have hlocal := op₁.local_apply (X := X) stack₁ source
  have hsecond := (operation?_of_local hlocal m stack₂ function₂).trans h₂
  rw [call_eq_apply h₁, call_eq_apply hsecond]
  rfl

/-- A call of a built-in operation changes nothing outside the footprint of the operation, and what
it does inside depends on the contents of the stacks of the footprint and on the source only. Two
calls with disjoint footprints can change places, unless both draw. -/
theorem calls_independent {m : Machine X} {stack function : String} {op : Builtin}
    (hop : m.operation? stack function = some (.builtin op)) (source : σ) :
    let next := m.call stack function source
    (next.1.cursor = m.cursor ∧ next.1.executed = m.executed ∧
      ∀ name ∉ op.footprint stack, next.1.memory.get? name = m.memory.get? name) ∧
    (∀ (m' : Machine X) (function' : String),
      m'.operation? stack function' = some (.builtin op) →
      AgreeOn (op.footprint stack) m.memory m'.memory →
      let next' := m'.call stack function' source
      AgreeOn (op.footprint stack) next.1.memory next'.1.memory ∧ next.2 = next'.2) ∧
    ∀ (stack' function' : String) (op' : Builtin),
      m.operation? stack' function' = some (.builtin op') →
      (∀ name ∈ op.footprint stack, name ∉ op'.footprint stack') →
      (op.name ≠ "rand" ∨ op'.name ≠ "rand") →
      let other := m.call stack' function' source
      next.1.call stack' function' next.2 = other.1.call stack function other.2 := by
  intro next
  have hnext : next = ({ m with memory := (op.apply stack m.memory source).1 },
      (op.apply stack m.memory source).2) := call_eq_apply hop source
  have hlocal := op.local_apply (X := X) stack source
  refine ⟨?_, ?_, ?_⟩
  · rw [hnext]
    exact ⟨rfl, rfl, fun name hn => hlocal.get?_eq m.memory hn⟩
  · intro m' function' hop' hagree
    rw [call_eq_apply hop', hnext]
    exact ⟨hlocal.agree _ _ hagree, op.source_apply stack _ _ source⟩
  · intro stack' function' op' hop' hdisjoint hrand other
    have hswap : ∀ name ∈ op'.footprint stack', name ∉ op.footprint stack :=
      fun name hn' hn => hdisjoint name hn hn'
    have hcomm : op'.apply stack' (op.apply stack m.memory source).1
          (op.apply stack m.memory source).2 =
        op.apply stack (op'.apply stack' m.memory source).1
          (op'.apply stack' m.memory source).2 := by
      rcases hrand with hrand | hrand
      · exact Builtin.apply_comm hdisjoint hrand m.memory source
      · exact (Builtin.apply_comm hswap hrand m.memory source).symm
    have hfirst := call_call_eq_apply hop hop' source
    have hsecond := call_call_eq_apply hop' hop source
    rw [hcomm] at hfirst
    exact hfirst.trans hsecond.symm

/-- A comparison on one side of a draw and on the other. -/
theorem calls_independent_compare_draw :
    let pair : TypedStack Empty := (TypedStack.standard .integer).pushAll [.integer 3, .integer 5]
    let m : Machine Empty := standard.addStack "integer" pair
    let source : Script := ⟨[], [0.5]⟩
    let next := m.call "integer" "<" source
    let other := m.call "float" "rand" source
    m.operation? "integer" "<" = some (.builtin (.integer .lt)) ∧
    m.operation? "float" "rand" = some (.builtin (.float .rand)) ∧
    (∀ name ∈ Builtin.footprint (.integer .lt) "integer",
      name ∉ Builtin.footprint (.float .rand) "float") ∧
    next.1.call "float" "rand" next.2 = other.1.call "integer" "<" other.2 ∧
    (next.1.call "float" "rand" next.2).1.snapshot.entries =
      [("boolean", [.boolean true]), ("float", [.float 0.5]), ("integer", [])] := by
  intro pair m source next other
  have hless : m.operation? "integer" "<" = some (.builtin (.integer .lt)) := by decide
  have hdraw : m.operation? "float" "rand" = some (.builtin (.float .rand)) := by decide
  have hdisjoint : ∀ name ∈ Builtin.footprint (.integer .lt) "integer",
      name ∉ Builtin.footprint (.float .rand) "float" := by decide
  obtain ⟨-, -, hcomm⟩ := calls_independent hless source
  exact ⟨hless, hdraw, hdisjoint, hcomm _ _ _ hdraw hdisjoint (.inl (by decide)), by decide⟩

end Machine
end StackMachine
