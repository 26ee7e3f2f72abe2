import StackMachine.Interpreter
import StackMachine.Proofs.Words
import StackMachine.Random.Script

/-! What spacing means to a program text. Tokens survive being written out exactly if they are
words; a text is read piece by piece between its gaps, so the programs of the pieces follow each
other and the numbers of dropped tokens add up. -/
namespace StackMachine
open Text

namespace Interpreter
variable {σ : Type} [RandomSource σ]

theorem runCode_eq_run (i : Interpreter σ) {c : Code} (h : ∀ token ∈ c.tokens, IsWord token) :
    i.runCode c = i.run c.text := by
  have htokens : words c.text = c.tokens := congrArg Code.tokens (Code.ofText_text_of_isWord h)
  unfold runCode run Vocabulary.read
  rw [htokens]

end Interpreter

/-- Writing tokens with spaces between them and splitting the text gives the tokens back exactly if
they are words. So what was split once stays the same, and words run alike as tokens and as text. -/
theorem Code.ofText_text_exact :
    (∀ c : Code, ofText c.text = c ↔ ∀ token ∈ c.tokens, IsWord token) ∧
    (∀ text : String, ofText (ofText text).text = ofText text) ∧
    ∀ {σ : Type} [RandomSource σ] (i : Interpreter σ) (c : Code),
      (∀ token ∈ c.tokens, IsWord token) → i.runCode c = i.run c.text := by
  refine ⟨fun c => ofText_text_iff, ?_, fun i c => i.runCode_eq_run⟩
  intro text
  exact ofText_text_of_isWord fun token => isWord_of_mem_words

/-- Words that stand for a literal, for an unknown verb and for nothing. A space without a width is
not blank. -/
theorem Code.ofText_text_exact_mixed :
    let c : Code := ⟨["-7", "cursor.übung", "π\u200b"]⟩
    let i : Interpreter Script := (Interpreter.ofSource {} ⟨[], []⟩).value
    (∀ token ∈ c.tokens, IsWord token) ∧ ofText c.text = c ∧ i.runCode c = i.run c.text ∧
    (i.vocabulary.read c.text).value.size = 2 := by
  intro c i
  have h : ∀ token ∈ c.tokens, IsWord token := by decide
  exact ⟨h, (ofText_text_exact.1 c).mpr h, ofText_text_exact.2.2 i c h, by decide +kernel⟩

/-- A token with a blank is one verb, and its text is two tokens. -/
example : let c : Code := ⟨["cursor.end x"]⟩
    (({} : Vocabulary).readTokens c.tokens).value.size = 1 ∧ c.text = "cursor.end x" ∧
    (Code.ofText c.text).tokens = ["cursor.end", "x"] := by decide

namespace Vocabulary

/-- What is logged about a number of dropped tokens. -/
def dropMessages (count : Nat) : List Message :=
  if 0 < count then
    [⟨.debug, "Parser dropped " ++ toString count ++ " unrecognized token(s)"⟩]
  else []

theorem read_eq (v : Vocabulary) (text : String) :
    v.read text =
      ⟨(v.instructions (words text)).toArray, dropMessages (v.dropped (words text))⟩ := by
  by_cases h : 0 < v.dropped (words text)
  · simp [read, readTokens, dropMessages, Logged.tellIf, Logged.tell, h, bind, pure]
  · simp [read, readTokens, dropMessages, Logged.tellIf, h, bind, pure]

theorem value_read (v : Vocabulary) (text : String) :
    (v.read text).value = (v.instructions (words text)).toArray := rfl

theorem instructions_append (v : Vocabulary) (tokens tokens' : List String) :
    v.instructions (tokens ++ tokens') = v.instructions tokens ++ v.instructions tokens' :=
  List.filterMap_append

theorem dropped_append (v : Vocabulary) (tokens tokens' : List String) :
    v.dropped (tokens ++ tokens') = v.dropped tokens + v.dropped tokens' :=
  List.countP_append

theorem value_read_append (v : Vocabulary) (a b : String) {gap : String} (h : IsGap gap) :
    (v.read (a ++ gap ++ b)).value = (v.read a).value ++ (v.read b).value := by
  rw [value_read, value_read, value_read, words_append_gap a b h, instructions_append,
    List.append_toArray]

theorem value_read_word (v : Vocabulary) {word : String} (h : IsWord word) :
    (v.read word).value = (v.instruction? word).toArray := by
  rw [value_read, words_of_isWord h]
  unfold instructions
  cases hi : v.instruction? word with
  | none => simp [hi]
  | some i => simp [hi]

/-- A text of which nothing is read. -/
theorem value_read_of_dropped {v : Vocabulary} {text : String}
    (h : ∀ word ∈ words text, v.instruction? word = none) : (v.read text).value = #[] := by
  have hnil : v.instructions (words text) = [] := List.filterMap_eq_nil_iff.mpr h
  rw [value_read, hnil]

/-- Texts that are parted by a gap are read one after the other, a gap is read as nothing, and a
word as the instruction that it stands for. So text of which every token is dropped can be put in
without a change of the program. The number that is logged is that of the tokens dropped, and these
numbers add up. -/
theorem read_append_gap (v : Vocabulary) (a b : String) {gap : String} (hgap : IsGap gap) :
    (v.read (a ++ gap ++ b)).value = (v.read a).value ++ (v.read b).value ∧
    v.read gap = pure #[] ∧
    (∀ word, IsWord word → (v.read word).value = (v.instruction? word).toArray) ∧
    (∀ (x gap' : String), IsGap gap' → (∀ word ∈ words x, v.instruction? word = none) →
      (v.read (a ++ gap ++ x ++ gap' ++ b)).value = (v.read (a ++ gap ++ b)).value ∧
      (v.read (x ++ gap ++ b)).value = (v.read b).value ∧
      (v.read (a ++ gap ++ x)).value = (v.read a).value) ∧
    (∀ text, (v.read text).messages = dropMessages (v.dropped (words text))) ∧
    v.dropped (words (a ++ gap ++ b)) = v.dropped (words a) + v.dropped (words b) := by
  refine ⟨v.value_read_append a b hgap, ?_, fun word => v.value_read_word, ?_, ?_, ?_⟩
  · rw [read_eq, words_gap hgap]
    rfl
  · intro x gap' hgap' hdropped
    have hx := value_read_of_dropped hdropped
    refine ⟨?_, ?_, ?_⟩
    · rw [v.value_read_append _ b hgap', v.value_read_append a x hgap,
        v.value_read_append a b hgap, hx, Array.append_empty]
    · rw [v.value_read_append x b hgap, hx, Array.empty_append]
    · rw [v.value_read_append a x hgap, hx, Array.append_empty]
  · intro text
    rw [read_eq]
  · rw [words_append_gap a b hgap, dropped_append]

/-- A comment between gaps of several kinds. -/
theorem read_append_gap_comment :
    let v : Vocabulary := (Interpreter.ofSource {} (⟨[], []⟩ : Script)).value.vocabulary
    let gap := "\t\u3000"
    IsGap gap ∧ IsGap "\u0085" ∧ (∀ word ∈ words "add them", v.instruction? word = none) ∧
    (v.read ("1 2" ++ gap ++ "add them" ++ "\u0085" ++ "integer.+")).value =
      (v.read ("1 2" ++ gap ++ "integer.+")).value ∧
    (v.read ("1 2" ++ gap ++ "integer.+")).value.size = 3 := by
  intro v gap
  have hgap : IsGap gap := by decide
  have hgap' : IsGap "\u0085" := by decide
  have hdropped : ∀ word ∈ words "add them", v.instruction? word = none := by decide
  obtain ⟨-, -, -, hinsert, -⟩ := read_append_gap v "1 2" "integer.+" hgap
  exact ⟨hgap, hgap', hdropped, (hinsert "add them" "\u0085" hgap' hdropped).1,
    by decide +kernel⟩

end Vocabulary
end StackMachine
