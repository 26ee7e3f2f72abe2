import Mathlib.Data.List.Basic
import Mathlib.Data.List.Induction
import Mathlib.Data.List.Nodup
import StackMachine.Proofs.Tokens

/-! What a vocabulary knows after any registrations. Its functions and its words stay in step: the
words are those of the registered calls, each of them once, in the order of their first
registrations. -/
namespace StackMachine.Vocabulary

/-- The functions of a vocabulary are those of some calls, and its words are the words of the same
calls in their order. -/
structure Lists (v : Vocabulary) (calls : List (String × String)) : Prop where
  isRegistered_iff : ∀ stack function,
    v.isRegistered stack function = true ↔ (stack, function) ∈ calls
  nodup_calls : calls.Nodup
  symbols_eq : v.symbols = calls.map fun c => symbol c.1 c.2

theorem lists_empty : Lists {} [] :=
  ⟨fun _ _ => iff_of_false Bool.false_ne_true List.not_mem_nil, .nil, rfl⟩

/-- The word of a call tells its stack from its function. -/
theorem symbol_injective {stack stack' function function' : String} (hs : '.' ∉ stack.toList)
    (hs' : '.' ∉ stack'.toList) (h : symbol stack function = symbol stack' function') :
    stack = stack' ∧ function = function' := by
  have htoken (s f : String) : (symbol s f).toList = s.toList ++ '.' :: f.toList := by
    simp [symbol]
  have hsplit := splitPoint?_eq_some_iff.mpr ⟨htoken stack function, hs⟩
  have hsplit' := splitPoint?_eq_some_iff.mpr ⟨htoken stack' function', hs'⟩
  rw [h, hsplit'] at hsplit
  obtain ⟨hstack, hfunction⟩ := Prod.mk.inj (Option.some.inj hsplit)
  exact ⟨String.toList_inj.mp hstack.symm, String.toList_inj.mp hfunction.symm⟩

namespace Lists
variable {v : Vocabulary} {calls : List (String × String)} (h : v.Lists calls)
include h

theorem register_of_mem {c : String × String} (hc : c ∈ calls) : v.register c.1 c.2 = v :=
  register_of_isRegistered ((h.isRegistered_iff c.1 c.2).mpr hc)

/-- A new call goes to the functions of its stack, and its word to the end of the words. -/
theorem register_of_notMem {c : String × String} (hc : c ∉ calls) :
    (v.register c.1 c.2).Lists (calls ++ [c]) := by
  have hnew : v.isRegistered c.1 c.2 = false :=
    Bool.eq_false_iff.mpr (mt (h.isRegistered_iff c.1 c.2).mp hc)
  refine ⟨fun stack function => ?_, ?_, ?_⟩
  · rw [isRegistered_register, h.isRegistered_iff, List.mem_append, List.mem_singleton]
  · rw [← List.concat_eq_append]
    exact List.Nodup.concat hc h.nodup_calls
  · rw [symbols_register_of_new hnew, h.symbols_eq, List.map_append]
    rfl

/-- Calls that are registered for the first time are listed in the order of their registration. -/
theorem foldl_register {new : List (String × String)} (hnew : (calls ++ new).Nodup) :
    (new.foldl (fun v (stack, function) => v.register stack function) v).Lists (calls ++ new) := by
  induction new generalizing v calls with
  | nil => simpa using h
  | cons c new ih =>
    have hc : c ∉ calls := fun hmem =>
      (List.nodup_append.mp hnew).2.2 c hmem c List.mem_cons_self rfl
    have hsplit : calls ++ c :: new = calls ++ [c] ++ new := by simp
    rw [hsplit] at hnew ⊢
    exact ih (h.register_of_notMem hc) hnew

theorem exists_of_mem_symbols {token : String} (htoken : token ∈ v.symbols) :
    ∃ stack function, v.isRegistered stack function = true ∧ token = symbol stack function := by
  rw [h.symbols_eq] at htoken
  obtain ⟨⟨stack, function⟩, hmem, he⟩ := List.mem_map.mp htoken
  exact ⟨stack, function, (h.isRegistered_iff stack function).mpr hmem, he.symm⟩

/-- Different calls have different words if no stack has a point in its name. -/
theorem nodup_symbols (hpoint : ∀ c ∈ calls, '.' ∉ c.1.toList) : v.symbols.Nodup := by
  rw [h.symbols_eq, List.Nodup, List.pairwise_map]
  refine h.nodup_calls.imp_of_mem fun {c d} hc hd hne he => hne ?_
  obtain ⟨hstack, hfunction⟩ := symbol_injective (hpoint c hc) (hpoint d hd) he
  exact Prod.ext hstack hfunction

end Lists

/-- The calls of a history, each of them once, in the order in which they occur first. -/
structure FirstCalls (history firsts : List (String × String)) : Prop where
  mem_iff : ∀ c, c ∈ firsts ↔ c ∈ history
  ordered : firsts.Pairwise fun c d => history.idxOf c < history.idxOf d

namespace FirstCalls
variable {history firsts : List (String × String)} (h : FirstCalls history firsts)
  (c : String × String)
include h

/-- A longer history does not move the first occurrences of the calls that it had before. -/
theorem ordered_concat :
    firsts.Pairwise fun d e => (history ++ [c]).idxOf d < (history ++ [c]).idxOf e := by
  refine h.ordered.imp_of_mem fun {d e} hd he hlt => ?_
  rw [List.idxOf_append_of_mem ((h.mem_iff d).mp hd),
    List.idxOf_append_of_mem ((h.mem_iff e).mp he)]
  exact hlt

variable {c}

theorem concat_of_mem (hc : c ∈ firsts) : FirstCalls (history ++ [c]) firsts := by
  refine ⟨fun d => ?_, h.ordered_concat c⟩
  rw [List.mem_append, List.mem_singleton, ← h.mem_iff]
  exact ⟨.inl, fun hd => hd.elim id fun he => he ▸ hc⟩

theorem concat_of_notMem (hc : c ∉ firsts) : FirstCalls (history ++ [c]) (firsts ++ [c]) := by
  have hlast : (history ++ [c]).idxOf c = history.length := by
    rw [List.idxOf_append_of_notMem fun hmem => hc ((h.mem_iff c).mpr hmem),
      List.idxOf_cons_self, Nat.add_zero]
  refine ⟨fun d => ?_,
    List.pairwise_append.mpr ⟨h.ordered_concat c, List.pairwise_singleton _ _, ?_⟩⟩
  · rw [List.mem_append, List.mem_append, h.mem_iff]
  · intro d hd e he
    rw [List.mem_singleton.mp he, List.idxOf_append_of_mem ((h.mem_iff d).mp hd), hlast]
    exact List.idxOf_lt_length_of_mem ((h.mem_iff d).mp hd)

end FirstCalls

/-- After any registrations the functions and the words are those of the calls of the history, in
the order of their first registrations. -/
theorem exists_lists_foldl_register (calls : List (String × String)) :
    let v : Vocabulary := calls.foldl (fun v (stack, function) => v.register stack function) {}
    ∃ firsts, FirstCalls calls firsts ∧ v.Lists firsts := by
  induction calls using List.reverseRecOn with
  | nil => exact ⟨[], ⟨fun c => Iff.rfl, .nil⟩, lists_empty⟩
  | append_singleton calls c ih =>
    obtain ⟨firsts, hfirst, hlists⟩ := ih
    rw [List.foldl_append]
    by_cases hc : c ∈ firsts
    · refine ⟨firsts, hfirst.concat_of_mem hc, ?_⟩
      show (Vocabulary.register _ c.1 c.2).Lists firsts
      rw [hlists.register_of_mem hc]
      exact hlists
    · exact ⟨firsts ++ [c], hfirst.concat_of_notMem hc, hlists.register_of_notMem hc⟩

/-- After any registrations, exactly the registered calls are known, and the words are those of the
calls in the order of their first registrations. To register a call again changes nothing. No word
occurs twice if no name of a stack holds a point. -/
theorem register_history (calls : List (String × String)) :
    let v : Vocabulary := calls.foldl (fun v (stack, function) => v.register stack function) {}
    (∀ stack function, v.isRegistered stack function = true ↔ (stack, function) ∈ calls) ∧
    (∃ firsts, FirstCalls calls firsts ∧ firsts.Nodup ∧
      v.symbols = firsts.map fun (stack, function) => stack ++ "." ++ function) ∧
    (∀ c ∈ calls, v.register c.1 c.2 = v) ∧
    ((∀ c ∈ calls, '.' ∉ c.1.toList) → v.symbols.Nodup) := by
  intro v
  obtain ⟨firsts, hfirst, hlists⟩ := exists_lists_foldl_register calls
  refine ⟨fun stack function => ?_, ⟨firsts, hfirst, hlists.nodup_calls, hlists.symbols_eq⟩,
    fun c hc => ?_, fun hpoint => ?_⟩
  · rw [← hfirst.mem_iff]
    exact hlists.isRegistered_iff stack function
  · exact hlists.register_of_mem ((hfirst.mem_iff c).mpr hc)
  · exact hlists.nodup_symbols fun c hc => hpoint c ((hfirst.mem_iff c).mp hc)

/-- Functions may hold points, and a call may come again after others. -/
theorem register_history_repeated :
    let calls := [("a", "b.c"), ("b", "+"), ("a", "b.c"), ("a", "+")]
    let v : Vocabulary := calls.foldl (fun v (stack, function) => v.register stack function) {}
    (∀ c ∈ calls, '.' ∉ c.1.toList) ∧ v.symbols = ["a.b.c", "b.+", "a.+"] ∧
    v.functions.entries.map (fun e => (e.1, e.2.names)) = [("a", ["+", "b.c"]), ("b", ["+"])] ∧
    v.register "b" "+" = v ∧ v.symbols.Nodup := by
  intro calls v
  have hpoint : ∀ c ∈ calls, '.' ∉ c.1.toList := by decide
  obtain ⟨-, -, hagain, hnodup⟩ := register_history calls
  exact ⟨hpoint, by decide, by decide, hagain ("b", "+") (by decide), hnodup hpoint⟩

-- A point in the name of a stack lets two calls share their word.
example : (register (register {} "a" "b.c") "a.b" "c").symbols = ["a.b.c", "a.b.c"] := by decide

end StackMachine.Vocabulary
