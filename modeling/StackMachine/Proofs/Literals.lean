import StackMachine.Proofs.Resumption
import StackMachine.Proofs.SnapshotTexts
import StackMachine.Proofs.Synthesis

/-! Literals of integers and truth values. The text of an element is a word, it is read as a literal
of the kind of the element, and that literal puts the element on its stack; so a program of such
texts builds the stacks that it spells out. -/
namespace StackMachine
open Vocabulary

namespace Decimal

/-- The value of digits behind a sign. -/
def signedValue (sign digits : List Char) : Int :=
  if sign = ['-'] then -digitsValue digits else digitsValue digits

theorem takeSign_append {sign digits : List Char} (hs : IsSign sign) (hd : IsDigitRun digits) :
    takeSign (sign ++ digits) = (decide (sign = ['-']), digits) := by
  obtain ⟨c, cs, rfl⟩ := List.exists_cons_of_ne_nil hd.1
  have hdigit : c.isDigit = true := isDigit_iff.mpr (hd.2 c List.mem_cons_self)
  have hminus : c ≠ '-' := by
    rintro rfl
    cases hdigit
  have hplus : c ≠ '+' := by
    rintro rfl
    cases hdigit
  rcases hs with rfl | rfl
  · simp [takeSign, hminus, hplus]
  · rfl

theorem integer?_of_shape {token : String} {sign digits : List Char} (hs : IsSign sign)
    (hd : IsDigitRun digits) (he : token.toList = sign ++ digits) :
    integer? token = some (signedValue sign digits) := by
  unfold integer? signedValue
  rw [he, takeSign_append hs hd]
  simp [isDigits_iff.mpr hd]

/-- The text of an integer is a sign and digits, and their value is the integer. -/
theorem exists_integerChars (n : Int) :
    ∃ sign digits, IsSign sign ∧ IsDigitRun digits ∧ integerChars n = sign ++ digits ∧
      signedValue sign digits = n := by
  cases n with
  | ofNat n =>
    have hd : IsDigitRun (Nat.toDigits 10 n) := isDigits_iff.mp (isDigits_toDigits n)
    refine ⟨[], _, .inl rfl, hd, rfl, ?_⟩
    simp [signedValue, digitsValue_toDigits]
  | negSucc n =>
    have hd : IsDigitRun (Nat.toDigits 10 (n + 1)) := isDigits_iff.mp (isDigits_toDigits (n + 1))
    refine ⟨['-'], _, .inr rfl, hd, rfl, ?_⟩
    simp [signedValue, digitsValue_toDigits, Int.negSucc_eq]

end Decimal

namespace Element
open Decimal

theorem denotes_text {e : Element} (h : e.kind ≠ .float) (calls : List (String × String)) :
    Denotes calls e.text (.literal e.kind) := by
  cases e with
  | integer n =>
    obtain ⟨sign, digits, hs, hd, he, -⟩ := exists_integerChars n.toInt
    refine ⟨sign, digits, hs, hd, ?_⟩
    rw [← he]
    exact String.toList_ofList
  | float x => exact absurd rfl h
  | boolean b => cases b <;> simp [Denotes, text, booleanText, kind]

theorem parse?_text {e : Element} (h : e.kind ≠ .float) : e.kind.parse? e.text = some e := by
  cases e with
  | integer n =>
    obtain ⟨sign, digits, hs, hd, he, hvalue⟩ := exists_integerChars n.toInt
    have htoken : (text (.integer n)).toList = sign ++ digits := by
      rw [← he]
      exact String.toList_ofList
    have hread : integer? (text (.integer n)) = some n.toInt := by
      rw [integer?_of_shape hs hd htoken, hvalue]
    show ((integer? (text (.integer n))).bind int64?).map Element.integer = some (.integer n)
    rw [hread, Option.bind_some, int64?_toInt, Option.map_some]
  | float x => exact absurd rfl h
  | boolean b => cases b <;> rfl

/-- The instruction that puts an element on the stack of its kind. -/
def literal (e : Element) : Instruction := ⟨.literal e.kind, e.text, 0⟩

end Element

/-- The texts of elements, with blanks between them, are read as their literals. -/
theorem Vocabulary.value_read_literals (v : Vocabulary) {es : List Element}
    (h : ∀ e ∈ es, e.kind ≠ .float) :
    (v.read (String.intercalate " " (es.map Element.text))).value =
      (es.map Element.literal).toArray := by
  have hwords : Text.words (String.intercalate " " (es.map Element.text)) = es.map Element.text := by
    apply Text.words_intercalate
    intro w hw
    obtain ⟨e, he, rfl⟩ := List.mem_map.mp hw
    exact isWord_of_denotes_literal (e.denotes_text (h e he) v.known)
  have hinstructions : v.instructions (es.map Element.text) = es.map Element.literal := by
    have hread : ∀ e ∈ es, v.instruction? e.text = some e.literal := by
      intro e he
      exact instruction?_of_denotes (e.denotes_text (h e he) v.known)
    unfold instructions
    rw [List.filterMap_map]
    calc es.filterMap (v.instruction? ∘ Element.text)
      _ = es.filterMap (some ∘ Element.literal) := List.filterMap_congr hread
      _ = es.map Element.literal := congrFun List.filterMap_eq_map es
  show (v.instructions (Text.words _)).toArray = _
  rw [hwords, hinstructions]

namespace Machine
variable {σ : Type} [RandomSource σ]

/-- Literals pile up on the stack of their kind, in their order, and leave the other stacks alone. -/
theorem foldl_effect_literals {es : List Element} (hes : ∀ e ∈ es, e.kind ≠ .float) {k : Kind}
    {memory : Memory Empty} {t : TypedStack Empty} (ht : memory.get? k.name = some t)
    (hk : t.kind = k) (source : σ) :
    ∃ t', ((es.map Element.literal).foldl effect (memory, source)).1.get? k.name = some t' ∧
      t'.contents.elements = t.contents.elements ++ es.filter (·.kind = k) := by
  induction es generalizing memory t with
  | nil => exact ⟨t, ht, (List.append_nil _).symm⟩
  | cons e es ih =>
    have hstep : effect (memory, source) e.literal =
        (memory.modify e.kind.name (·.pushLiteral e.text), source) := rfl
    have hes' : ∀ e ∈ es, e.kind ≠ .float := fun e he => hes e (List.mem_cons_of_mem _ he)
    rw [List.map_cons, List.foldl_cons, hstep]
    by_cases hkind : e.kind = k
    · have hpush : t.pushLiteral e.text = t.mapContents (·.push e) := by
        have hparse : t.kind.parse? e.text = some e := by
          rw [hk, ← hkind]
          exact e.parse?_text (hes e List.mem_cons_self)
        unfold TypedStack.pushLiteral
        rw [hparse]
      have hnext : (memory.modify e.kind.name (·.pushLiteral e.text)).get? k.name =
          some (t.mapContents (·.push e)) := by
        rw [NameMap.get?_modify, hkind, if_pos rfl, ht, Option.map_some, hpush]
      obtain ⟨t', ht', helements⟩ := ih hes' hnext ((Contents.kind_push _ _).trans hk)
      refine ⟨t', ht', ?_⟩
      have hpushed : (t.contents.push e).elements = t.contents.elements ++ [e] :=
        Contents.elements_push (hkind.trans hk.symm)
      rw [helements, List.filter_cons_of_pos (by simpa using hkind)]
      show (t.contents.push e).elements ++ _ = _
      rw [hpushed, List.append_assoc]
      rfl
    · have hname : k.name ≠ e.kind.name := fun hname => hkind (Kind.name_injective hname).symm
      have hnext : (memory.modify e.kind.name (·.pushLiteral e.text)).get? k.name = some t := by
        rw [NameMap.get?_modify, if_neg hname, ht]
      obtain ⟨t', ht', helements⟩ := ih hes' hnext hk
      refine ⟨t', ht', ?_⟩
      rw [helements, List.filter_cons_of_neg (by simpa using hkind)]

end Machine

namespace Interpreter
variable {σ : Type} [RandomSource σ]

theorem value_run (i : Interpreter σ) (text : String) :
    (i.run text).value = (i.execute (i.vocabulary.read text).value none).value :=
  rfl

/-- A program that spells out integers and truth values, and is not longer than the budget allows,
leaves them on their stacks. -/
theorem run_texts (i : Interpreter σ) (hinteger : .integer ∈ i.options.kinds)
    (hboolean : .boolean ∈ i.options.kinds) {es : List Element} (hes : ∀ e ∈ es, e.kind ≠ .float)
    (hlength : es.length ≤ i.options.maxInstructions.toNat + 1) :
    let m := (i.run (String.intercalate " " (es.map Element.text))).value.1
    m.executed = es.length ∧
    m.elements? "integer" = some (es.filter (·.kind = .integer)) ∧
    m.elements? "boolean" = some (es.filter (·.kind = .boolean)) := by
  intro m
  let program : Program := (es.map Element.literal).toArray
  have hm : m = (i.result program none).1 := by
    have hread := i.vocabulary.value_read_literals hes
    have hrun := i.value_run (String.intercalate " " (es.map Element.text))
    rw [hread] at hrun
    exact congrArg Prod.fst hrun
  have hliteral : ∀ c ∈ program, c.IsStraight ∧ c.counts = true := by
    intro c hc
    obtain ⟨e, -, rfl⟩ := List.mem_map.mp (List.mem_toArray.mp hc)
    exact ⟨fun _ => nofun, rfl⟩
  have hcount : program.countP Instruction.counts = es.length := by
    rw [Array.countP_eq_size.mpr fun c hc => (hliteral c hc).2, List.size_toArray, List.length_map]
  obtain ⟨hmemory, hexecuted⟩ := i.result_straight none (fun c hc => (hliteral c hc).1)
    (by rw [hcount]; exact hlength)
  have helements {k : Kind} (hk : k ∈ i.options.kinds) :
      m.elements? k.name = some (es.filter (·.kind = k)) := by
    have hfresh : (i.start program none).1.memory.get? k.name = some (.standard k) :=
      Machine.get?_ofKinds_of_mem hk
    have hkind : (TypedStack.standard k : TypedStack Empty).kind = k := by cases k <;> rfl
    have hempty : (TypedStack.standard k : TypedStack Empty).contents.elements = [] := by
      cases k <;> rfl
    obtain ⟨t, ht, hcontents⟩ := Machine.foldl_effect_literals hes hfresh hkind i.source
    have hget : m.memory.get? k.name = some t := by
      rw [hm, (Prod.mk.inj hmemory).1]
      exact ht
    unfold Machine.elements?
    rw [hget, Option.map_some, hcontents, hempty, List.nil_append]
  refine ⟨?_, helements hinteger, helements hboolean⟩
  rw [hm, hexecuted, hcount]

/-- The least and the greatest integer, in a program that just fits. -/
theorem run_texts_at_fuse :
    let i : Interpreter Script :=
      (ofSource { maxInstructions := 3, kinds := [.boolean, .integer, .boolean] } ⟨[], []⟩).value
    let m := (i.run "-9223372036854775808 true 9223372036854775807 false").value.1
    i.options.maxInstructions.toNat + 1 = 4 ∧ m.executed = 4 ∧
    m.elements? "integer" = some [.integer Int64.minValue, .integer Int64.maxValue] ∧
    m.elements? "boolean" = some [.boolean true, .boolean false] := by
  intro i m
  let es : List Element :=
    [.integer Int64.minValue, .boolean true, .integer Int64.maxValue, .boolean false]
  have htext : String.intercalate " " (es.map Element.text) =
      "-9223372036854775808 true 9223372036854775807 false" := by decide +kernel
  have hes : ∀ e ∈ es, e.kind ≠ .float := by decide
  have h := run_texts i (by decide) (by decide) hes (by decide)
  rw [htext] at h
  exact ⟨rfl, h⟩

end Interpreter
end StackMachine
