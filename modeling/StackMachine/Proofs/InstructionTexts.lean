import Mathlib.Data.List.Perm.Basic
import StackMachine.Proofs.SkippedTexts

/-! The texts of instructions and of code are read as what they were written from. The fields of an
instruction may stand in any order, with other members beside them. -/
namespace StackMachine
namespace Json

section Records
variable {τ : Type} {member : String → τ → Except Fault (Reader τ)}
variable {fields members : List (String × Json)}

/-- The given fields in any order, and beside them members whose names are not those of fields. -/
def Extends (fields members : List (String × Json)) : Prop :=
  ∃ others, members.Perm (fields ++ others) ∧
    ∀ m ∈ others, m.1 ∉ fields.map Prod.fst ∧ m.2.IsWritable

theorem extends_refl (fields : List (String × Json)) : Extends fields fields :=
  ⟨[], by rw [List.append_nil], fun m hm => nomatch hm⟩

/-- Every member is a field that does not come again, or one that is ignored. This is what a reader
of members relies on, and it stays true of the members that are left. -/
structure Continues (fields members : List (String × Json)) : Prop where
  known_or_writable : ∀ m ∈ members, m ∈ fields ∨ m.1 ∉ fields.map Prod.fst ∧ m.2.IsWritable
  nodup_known : ((members.map Prod.fst).filter (· ∈ fields.map Prod.fst)).Nodup

theorem Extends.continues (h : Extends fields members) (hfields : (fields.map Prod.fst).Nodup) :
    Continues fields members := by
  obtain ⟨others, hperm, hothers⟩ := h
  refine ⟨fun m hm => ?_, ?_⟩
  · rcases List.mem_append.mp (hperm.mem_iff.mp hm) with hm | hm
    · exact .inl hm
    · exact .inr (hothers m hm)
  · have hknown := (hperm.map Prod.fst).filter (· ∈ fields.map Prod.fst)
    have hnone : (others.map Prod.fst).filter (· ∈ fields.map Prod.fst) = [] := by
      rw [List.filter_eq_nil_iff]
      intro name hname
      obtain ⟨m, hm, rfl⟩ := List.mem_map.mp hname
      simpa using (hothers m hm).1
    have hall : (fields.map Prod.fst).filter (· ∈ fields.map Prod.fst) = fields.map Prod.fst := by
      rw [List.filter_eq_self]
      intro name hname
      exact decide_eq_true hname
    rw [List.map_append, List.filter_append, hnone, hall, List.append_nil] at hknown
    exact hknown.nodup_iff.mpr hfields

theorem Extends.mem_names (h : Extends fields members) {name : String}
    (hname : name ∈ fields.map Prod.fst) : name ∈ members.map Prod.fst := by
  obtain ⟨others, hperm, -⟩ := h
  rw [(hperm.map Prod.fst).mem_iff, List.map_append]
  exact List.mem_append_left _ hname

theorem Continues.of_cons {m : String × Json} (h : Continues fields (m :: members)) :
    Continues fields members := by
  refine ⟨fun n hn => h.known_or_writable n (List.mem_cons_of_mem _ hn), ?_⟩
  exact h.nodup_known.sublist ((List.sublist_cons_self _ _).filter _)

theorem Continues.notMem_names {m : String × Json} (h : Continues fields (m :: members))
    (hm : m.1 ∈ fields.map Prod.fst) : m.1 ∉ members.map Prod.fst := by
  have hnodup := h.nodup_known
  rw [List.map_cons, List.filter_cons_of_pos (by simpa using hm), List.nodup_cons] at hnodup
  intro hmem
  exact hnodup.1 (List.mem_filter.mpr ⟨hmem, decide_eq_true hm⟩)

/-- A record is filled from its fields in any order. Its state is a function of the names that are
still to come: each field takes its own name off them, and other members change nothing. -/
theorem fills_of_continues {pending : List String → τ}
    (hfield : ∀ f ∈ fields, ∀ names, f.1 ∉ names → ∃ value,
      member f.1 (pending (f.1 :: names)) = .ok value ∧ Reads value f.2.render (pending names))
    (hother : ∀ name, name ∉ fields.map Prod.fst → ∀ names,
      member name (pending (name :: names)) = .ok (ignore (pending names)))
    (h : Continues fields members) :
    Fills member (pending (members.map Prod.fst)) members (pending []) := by
  induction members with
  | nil => exact .nil _
  | cons m members ih =>
    rcases h.known_or_writable m List.mem_cons_self with hm | ⟨hname, hwritable⟩
    · obtain ⟨value, hvalue, hread⟩ := hfield m hm (members.map Prod.fst)
        (h.notMem_names (List.mem_map_of_mem hm))
      exact .cons hvalue hread (ih h.of_cons)
    · exact .cons (hother m.1 hname _) (reads_ignore hwritable _) (ih h.of_cons)

/-- A field that was missing so far is read into the record. -/
theorem Reads.field {α : Type} {value : Reader α} {text : List Char} {a : α}
    (h : Reads value text a) (name : String) (set : α → τ) {entry : Except Fault (Reader τ)}
    {next : τ} (hentry : entry = Json.field name none value set) (hnext : set a = next) :
    ∃ reader, entry = .ok reader ∧ Reads reader text next := by
  refine ⟨_, hentry, h.then fun cs rest hcs => ?_⟩
  rw [hcs, ← hnext]
  rfl

end Records

section Scalars

theorem reads_string (s : String) : Reads readString (Json.string s).render s := by
  rw [render]
  refine ⟨⟨_, _, rfl, rfl, by decide⟩, fun rest _ => ?_⟩
  unfold readString
  rw [look_string]
  rfl

theorem reads_unsigned (n : UInt64) : Reads readUnsigned (Json.integer n.toNat).render n := by
  have hpos : (0 : ℤ) ≤ n.toNat := Int.natCast_nonneg _
  have hlow : Int64.minValue.toInt ≤ (n.toNat : ℤ) := Int.le_trans (by decide) hpos
  have hhigh : (n.toNat : ℤ) < UInt64.size := Int.ofNat_lt.mpr n.toNat_lt
  rw [render, ← NumberText.chars_ofInt]
  refine ⟨NumberText.starts _, fun rest hr => ?_⟩
  unfold readUnsigned
  rw [look_number _ hr, NumberText.found_ofInt hlow hhigh]
  simp only [Except.map, bind, Except.bind, hpos, if_true, Int.toNat_natCast, UInt64.ofNat_toNat]
  rfl

end Scalars

section Variants
variable {α : Type} {variant? : String → Option (Payload α)} {name : String}

/-- A variant without content is written as its name. -/
theorem reads_name {a : α} (h : variant? name = some (.nothing a)) :
    Reads (tagged variant?) (Json.string name).render a := by
  rw [render]
  refine ⟨⟨_, _, rfl, rfl, by decide⟩, fun rest _ => ?_⟩
  have htail := stringTail_flatMap name.toList rest
  rw [renderString, List.append_assoc, List.cons_append]
  show (stringTail (name.toList.flatMap escape ++ '"' :: rest) >>= _) = _
  rw [htail]
  simp only [bind, Except.bind, String.ofList_toList, h]
  rfl

/-- A variant with content is written as an object of one member. -/
theorem reads_variant {value : Reader α} {j : Json} {a : α}
    (h : variant? name = some (.content value)) (hread : Reads value j.render a) :
    Reads (tagged variant?) (Json.object [(name, j)]).render a := by
  rw [render, renderMembers]
  refine ⟨⟨_, _, rfl, rfl, by decide⟩, fun rest _ => ?_⟩
  have hend : EndsNumber ('\x7d' :: rest) := by
    intro c hc
    cases hc
    decide
  have hname := memberName_renderString name (':' :: (j.render ++ '\x7d' :: rest))
  have hcolon (cs : List Char) : colon (':' :: cs) = .ok cs := rfl
  have hvalue := hread.reads ('\x7d' :: rest) hend
  rw [List.append_assoc, List.append_assoc, List.cons_append, List.cons_append]
  show (memberName (renderString name ++ ':' :: (j.render ++ '\x7d' :: rest)) >>= _) = _
  rw [hname]
  simp only [bind, Except.bind, h, hcolon, hvalue]
  rfl

end Variants

/-- An object is read as a record if its members fill the record and the record is complete. -/
theorem reads_record {α τ : Type} {member : String → τ → Except Fault (Reader τ)} {start last : τ}
    {value : Reader α} {a : α} {ms : List (String × Json)} (hfills : Fills member start ms last)
    (hvalue : ∀ cs rest, members member start cs = .ok (last, rest) →
      value ('\x7b' :: cs) = .ok (a, rest)) :
    Reads value (Json.object ms).render a := by
  obtain ⟨text, hrender, hread⟩ := members_render hfills
  rw [hrender]
  exact ⟨⟨_, _, rfl, rfl, by decide⟩, fun rest _ => hvalue _ rest (hread rest)⟩

end Json

open Json

theorem Kind.reads_toJson (k : Kind) : Reads ofJson k.toJson.render k := by
  refine reads_name ?_
  cases k <;> rfl

namespace Command

/-- The JSON values that stand for a command: its own, and for a call also those that have its parts
in another order, or other members beside them. -/
inductive IsForm : Command → Json → Prop
  | own (c : Command) : IsForm c c.toJson
  | call {stack function : String} {members : List (String × Json)}
      (h : Extends [("stack", .string stack), ("function", .string function)] members) :
    IsForm (.call stack function) (.object [("Call", .object members)])

/-- The parts of a call that were read when some names are still to come. -/
def pendingCall (stack function : String) (names : List String) : CallFields where
  stack := if "stack" ∈ names then none else some stack
  function := if "function" ∈ names then none else some function

theorem fills_call {stack function : String} {members : List (String × Json)}
    (h : Extends [("stack", .string stack), ("function", .string function)] members) :
    Fills callMember {} members (pendingCall stack function []) := by
  have hstart : pendingCall stack function (members.map Prod.fst) = {} := by
    have hs : "stack" ∈ members.map Prod.fst := h.mem_names (by simp)
    have hf : "function" ∈ members.map Prod.fst := h.mem_names (by simp)
    unfold pendingCall
    rw [if_pos hs, if_pos hf]
  rw [← hstart]
  refine fills_of_continues ?_ ?_ (h.continues (by simp))
  · intro f hf names hnames
    simp only [List.mem_cons, List.not_mem_nil, or_false] at hf
    rcases hf with rfl | rfl
    · refine (reads_string stack).field "stack"
        (fun s => { pendingCall stack function names with stack := some s }) ?_ ?_
      · simp [callMember, pendingCall]
      · simp [pendingCall, hnames]
    · refine (reads_string function).field "function"
        (fun s => { pendingCall stack function names with function := some s }) ?_ ?_
      · simp [callMember, pendingCall]
      · simp [pendingCall, hnames]
  · intro name hname names
    obtain ⟨hs, hf⟩ : name ≠ "stack" ∧ name ≠ "function" := by simpa using hname
    simp [callMember, pendingCall, hs, hf, hs.symm, hf.symm]

theorem reads_call {stack function : String} {members : List (String × Json)}
    (h : Extends [("stack", .string stack), ("function", .string function)] members) :
    Reads callOfJson (Json.object members).render (.call stack function) := by
  refine reads_record (fills_call h) fun cs rest hmembers => ?_
  show (Json.members callMember {} cs >>= _) = _
  rw [hmembers]
  rfl

theorem reads_form {c : Command} {j : Json} (h : c.IsForm j) : Reads ofJson j.render c := by
  cases h with
  | own =>
    cases c with
    | literal kind =>
      refine reads_variant rfl (kind.reads_toJson.then fun cs rest hcs => ?_)
      rw [hcs]
      rfl
    | call stack function => exact reads_variant rfl (reads_call (extends_refl _))
    | cursor verb =>
      refine reads_variant rfl ((reads_string verb).then fun cs rest hcs => ?_)
      rw [hcs]
      rfl
    | noop => exact reads_name rfl
  | call h => exact reads_variant rfl (reads_call h)

end Command

namespace Instruction

/-- The JSON values that stand for an instruction: objects with its fields in any order, and with
other members beside them. -/
inductive IsForm (i : Instruction) : Json → Prop
  | object {kind : Json} {members : List (String × Json)} (hkind : i.command.IsForm kind)
      (hmembers : Extends
        [("kind", kind), ("token", .string i.token), ("runs", .integer i.runs.toNat)] members) :
    IsForm i (.object members)

theorem isForm_toJson (i : Instruction) : i.IsForm i.toJson := .object (.own _) (extends_refl _)

/-- The fields of an instruction that were read when some names are still to come. -/
def pending (i : Instruction) (names : List String) : Fields where
  command := if "kind" ∈ names then none else some i.command
  token := if "token" ∈ names then none else some i.token
  runs := if "runs" ∈ names then none else some i.runs

theorem fills_fields {i : Instruction} {kind : Json} {members : List (String × Json)}
    (hkind : i.command.IsForm kind) (h : Extends
      [("kind", kind), ("token", .string i.token), ("runs", .integer i.runs.toNat)] members) :
    Fills member {} members (i.pending []) := by
  have hstart : i.pending (members.map Prod.fst) = {} := by
    have hk : "kind" ∈ members.map Prod.fst := h.mem_names (by simp)
    have ht : "token" ∈ members.map Prod.fst := h.mem_names (by simp)
    have hr : "runs" ∈ members.map Prod.fst := h.mem_names (by simp)
    unfold pending
    rw [if_pos hk, if_pos ht, if_pos hr]
  rw [← hstart]
  refine fills_of_continues ?_ ?_ (h.continues (by simp))
  · intro f hf names hnames
    simp only [List.mem_cons, List.not_mem_nil, or_false] at hf
    rcases hf with rfl | rfl | rfl
    · refine (Command.reads_form hkind).field "kind"
        (fun c => { i.pending names with command := some c }) ?_ ?_
      · simp [member, pending]
      · simp [pending, hnames]
    · refine (reads_string i.token).field "token"
        (fun s => { i.pending names with token := some s }) ?_ ?_
      · simp [member, pending]
      · simp [pending, hnames]
    · refine (reads_unsigned i.runs).field "runs"
        (fun n => { i.pending names with runs := some n }) ?_ ?_
      · simp [member, pending]
      · simp [pending, hnames]
  · intro name hname names
    obtain ⟨hk, ht, hr⟩ : name ≠ "kind" ∧ name ≠ "token" ∧ name ≠ "runs" := by simpa using hname
    simp [member, pending, hk, ht, hr, hk.symm, ht.symm, hr.symm]

theorem reads_form {i : Instruction} {j : Json} (h : i.IsForm j) : Reads ofJson j.render i := by
  cases h with
  | object hkind hmembers =>
    refine reads_record (fills_fields hkind hmembers) fun cs rest hread => ?_
    show (Json.members member {} cs >>= _) = _
    rw [hread]
    rfl

end Instruction

theorem Code.reads_toJson (c : Code) : Reads ofJson c.toJson.render c := by
  have hitems : Reads (sequence readString) c.toJson.render c.tokens := by
    refine reads_array (List.forall₂_map_left_iff.mpr ?_)
    exact List.forall₂_same.mpr fun token _ => reads_string token
  refine hitems.then fun cs rest hcs => ?_
  unfold ofJson
  rw [hcs]
  rfl

/-- The texts of instructions and of code are read as what they were written from. An instruction is
also read from a text that has its fields in another order, or other members beside them. -/
theorem Instruction.ofText_forms :
    (∀ i : Instruction, Instruction.ofText i.text = .ok i ∧
      ∀ j : Json, i.IsForm j → Instruction.ofText j.text = .ok i) ∧
    ∀ c : Code, Json.read Code.ofJson c.toJson.text = .ok c :=
  ⟨fun i => ⟨read_of_reads (reads_form i.isForm_toJson), fun _ hj => read_of_reads (reads_form hj)⟩,
    fun c => read_of_reads c.reads_toJson⟩

/-- A call with all its fields in reverse, a member that comes twice, and one beside the parts of
the call. -/
theorem Instruction.ofText_forms_reversed :
    let i : Instruction := ⟨.call "a\"b" "é\n", "\\", 18446744073709551615⟩
    let call : Json := .object
      [("", .null), ("function", .string "é\n"), ("stack", .string "a\"b")]
    let j : Json := .object
      [("note", .array [.null, .object [("runs", .integer (-1))]]), ("note", .boolean true),
        ("runs", .integer 18446744073709551615), ("token", .string "\\"),
        ("kind", .object [("Call", call)])]
    i.IsForm j ∧ Instruction.ofText j.text = .ok i := by
  intro i call j
  have hnested : IsWritable (.object [("runs", .integer (-1))]) := by
    refine .object fun m hm => ?_
    rw [List.mem_singleton.mp hm]
    exact .integer _
  have hcall : i.command.IsForm (.object [("Call", call)]) := by
    refine .call ⟨[("", .null)], (List.reverse_perm _).symm, fun m hm => ?_⟩
    rw [List.mem_singleton.mp hm]
    exact ⟨by simp, .null⟩
  have hform : i.IsForm j := by
    refine .object hcall ⟨[("note", .boolean true),
      ("note", .array [.null, .object [("runs", .integer (-1))]])], (List.reverse_perm _).symm, ?_⟩
    intro m hm
    simp only [List.mem_cons, List.not_mem_nil, or_false] at hm
    rcases hm with rfl | rfl
    · exact ⟨by simp, .boolean true⟩
    · refine ⟨by simp, .array fun k hk => ?_⟩
      simp only [List.mem_cons, List.not_mem_nil, or_false] at hk
      rcases hk with rfl | rfl
      · exact .null
      · exact hnested
  exact ⟨hform, (Instruction.ofText_forms.1 i).2 j hform⟩

end StackMachine
