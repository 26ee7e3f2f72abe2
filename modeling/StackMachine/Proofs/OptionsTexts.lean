import StackMachine.Proofs.SnapshotTexts
import StackMachine.Proofs.TomlTexts
import StackMachine.Proofs.Validation

/-! The document of options is read as the options, after validation. There is a document unless an
integer has more than 63 bits. -/
namespace StackMachine.Options
open Decimal Toml
open Json (NumberText)

/-! Values. -/

theorem spells_natural {n : ℕ} (h : n ≤ 2 ^ 63 - 1) :
    Spells (toString n).toList (.integer (.ofNat n)) := by
  have hvalue : (Int64.ofNat n).toInt = n := Int64.toInt_ofNat_of_lt (by omega)
  have hchars : (toString n).toList = (NumberText.ofInt n).chars := by
    rw [NumberText.chars_ofInt, Nat.toString_eq_repr, Nat.repr, String.toList_ofList]
    rfl
  have hwhole : (NumberText.ofInt n).parts.isWhole = true := rfl
  have hnode : numberNode? (.ofInt n) = integerNode? n := by
    unfold numberNode?
    rw [if_pos hwhole]
    simp [NumberText.ofInt, digitsValue_toDigits, Int.not_lt_of_ge]
  rw [hchars]
  apply spells_number
  rw [hnode, ← hvalue, integerNode?, int64?_toInt, Option.map_some]

theorem unsigned?_integer {n : UInt64} (h : n.toNat ≤ 2 ^ 63 - 1) :
    unsigned? (.integer (.ofNat n.toNat)) = some n := by
  have hvalue : (Int64.ofNat n.toNat).toInt = n.toNat := Int64.toInt_ofNat_of_lt (by omega)
  unfold unsigned?
  simp [hvalue]

theorem isExplicit_floatLayout : floatLayout.IsExplicit := ⟨rfl, rfl, fun _ h => by cases h⟩

theorem spells_float (x : Float) : Spells (floatLayout.render x).toList (.float x) := by
  cases hx : x.isFinite with
  | true =>
    obtain ⟨t, hchars, hvalue, hwhole⟩ := NumberText.exists_finite isExplicit_floatLayout hx
    rw [← hchars]
    apply spells_number
    simp [numberNode?, hwhole, hvalue, isInf_of_isFinite hx]
  | false =>
    rcases cases_of_not_isFinite hx with rfl | rfl | rfl
    · exact ⟨⟨'n', _, rfl, rfl⟩, fun rest => rfl⟩
    · exact ⟨⟨'i', _, rfl, rfl⟩, fun rest => rfl⟩
    · exact ⟨⟨'-', _, rfl, rfl⟩, fun rest => rfl⟩

theorem spells_listText {names : List String} (h : ∀ name ∈ names, IsPlain name) :
    Spells (listText names).toList (.array (names.map .string)) := by
  match names with
  | [] => exact ⟨⟨'[', _, rfl, rfl⟩, fun rest => rfl⟩
  | [name] =>
    have hchars : (listText [name]).toList = '[' :: '"' :: (name.toList ++ ['"', ']']) := by
      simp [listText]
    rw [hchars]
    exact spells_single (h name List.mem_cons_self)
  | first :: second :: names =>
    have hchars : (listText (first :: second :: names)).toList =
        '[' :: '\n' :: ((first :: second :: names).flatMap itemChars ++ [']']) := by
      unfold listText
      simp only [String.toList_append, String.toList_join, List.flatMap_map]
      rfl
    rw [hchars]
    exact spells_items h

theorem isPlain_name (k : Kind) : IsPlain k.name := by
  cases k with
  | integer | float | boolean => exact ⟨by decide, by simp [Kind.name, isLineChar]⟩

theorem kinds?_array (kinds : List Kind) :
    kinds? (.array (kinds.map (.string ∘ Kind.name))) = some kinds := by
  have hname (k : Kind) : Kind.ofNode? (.string k.name) = some k := by
    cases k with
    | integer | float | boolean => decide
  unfold kinds?
  dsimp only
  induction kinds with
  | nil => rfl
  | cons k kinds ih =>
    rw [List.map_cons, List.mapM_cons, Function.comp_apply, hname, ih]
    rfl

/-! Documents. -/

/-- The integers of a document have at most 63 bits. -/
structure InRange (o : Options) : Prop where
  maxInstructions : o.maxInstructions.toNat ≤ 2 ^ 63 - 1
  seed : ∀ seed, o.seed = some seed → seed.toNat ≤ 2 ^ 63 - 1

theorem isPrintable_iff {n : UInt64} : isPrintable n = true ↔ n.toNat ≤ 2 ^ 63 - 1 := by
  have hmax : Int64.maxValue.toInt = 2 ^ 63 - 1 := by decide
  unfold isPrintable
  rw [decide_eq_true_iff, hmax]
  omega

theorem inRange_iff {o : Options} :
    (isPrintable o.maxInstructions && o.seed.all isPrintable) = true ↔ o.InRange := by
  rw [Bool.and_eq_true_iff, isPrintable_iff, Option.all_eq_true]
  constructor
  · rintro ⟨hmax, hseed⟩
    exact ⟨hmax, fun seed h => isPrintable_iff.mp (hseed seed h)⟩
  · intro h
    exact ⟨h.maxInstructions, fun seed hs => isPrintable_iff.mpr (h.seed seed hs)⟩

def integerLine (key : String) (hkey : IsBareKey key) (n : UInt64) (h : n.toNat ≤ 2 ^ 63 - 1) :
    Line where
  key := key
  text := (toString n.toNat).toList
  node := .integer (.ofNat n.toNat)
  isBareKey := hkey
  spells := spells_natural h

def kindsLine (kinds : List Kind) : Line where
  key := "stacks"
  text := (listText (kinds.map Kind.name)).toList
  node := .array ((kinds.map Kind.name).map .string)
  isBareKey := ⟨by decide, by simp [isBareKeyChar]⟩
  spells := spells_listText (by simpa using fun k _ => isPlain_name k)

def probabilityLine (x : Float) : Line where
  key := "literal_probability"
  text := (floatLayout.render x).toList
  node := .float x
  isBareKey := ⟨by decide, by simp [isBareKeyChar]⟩
  spells := spells_float x

/-- The lines of a document. -/
def documentLines (o : Options) (h : o.InRange) : List Line :=
  integerLine "max_instructions" ⟨by decide, by simp [isBareKeyChar]⟩ o.maxInstructions
    h.maxInstructions
  :: kindsLine o.kinds
  :: (o.seed.pmap (integerLine "seed" ⟨by decide, by simp [isBareKeyChar]⟩) h.seed).toList
  ++ [probabilityLine o.literalProbability]

theorem toToml_eq_ok_iff {o : Options} : (∃ text, o.toToml = .ok text) ↔ o.InRange := by
  unfold toToml
  split
  · rename_i h
    exact ⟨fun _ => inRange_iff.mp h, fun _ => ⟨_, rfl⟩⟩
  · rename_i h
    exact ⟨nofun, fun hr => absurd (inRange_iff.mpr hr) h⟩

theorem toList_line (key value : String) :
    (line key value).toList = key.toList ++ ' ' :: '=' :: ' ' :: (value.toList ++ ['\n']) := by
  simp [line]

/-- The text of a document is that of its lines. -/
theorem toList_toToml {o : Options} {text : String} (htext : o.toToml = .ok text)
    (h : o.InRange) : text.toList = (o.documentLines h).flatMap Line.chars := by
  unfold toToml at htext
  rw [if_pos (inRange_iff.mpr h)] at htext
  cases htext
  obtain ⟨maxInstructions, kinds, seed, probability⟩ := o
  cases seed with
  | none | some seed =>
    simp [documentLines, toList_line, Line.chars, integerLine, kindsLine, probabilityLine]

theorem nodup_documentLines {o : Options} (h : o.InRange) :
    ((o.documentLines h).map Line.key).Nodup := by
  obtain ⟨maxInstructions, kinds, seed, probability⟩ := o
  cases seed with
  | none | some seed => simp [documentLines, integerLine, kindsLine, probabilityLine]

/-- The entries of a document are read as the options. -/
theorem ofEntries?_documentLines {o : Options} (h : o.InRange) :
    ofEntries? ((o.documentLines h).map Line.entry) = some o := by
  have hmax := unsigned?_integer h.maxInstructions
  have hkinds := kinds?_array o.kinds
  have hseed := fun seed hs => unsigned?_integer (h.seed seed hs)
  obtain ⟨maxInstructions, kinds, seed, probability⟩ := o
  cases seed with
  | none =>
    simp [documentLines, integerLine, kindsLine, probabilityLine, Line.entry, ofEntries?, lookup?,
      Entries.get?, hmax, hkinds, float?]
  | some seed =>
    simp [documentLines, integerLine, kindsLine, probabilityLine, Line.entry, ofEntries?, lookup?,
      Entries.get?, hmax, hkinds, hseed, float?]

theorem parse?_toToml {o : Options} {text : String} (htext : o.toToml = .ok text) :
    parse? text = some o := by
  have h : o.InRange := toToml_eq_ok_iff.mp ⟨text, htext⟩
  unfold parse?
  rw [Toml.parse?_eq_some (toList_toToml htext h) (nodup_documentLines h), Option.bind_some,
    ofEntries?_documentLines h]

theorem ofToml_of_toToml {o : Options} {text : String} (htext : o.toToml = .ok text) :
    ofToml text = .ok o.validate := by
  unfold ofToml
  rw [parse?_toToml htext]

/-! Files. -/

theorem save_eq_ok {o : Options} {path : String} {isWritable : Bool} {bytes : ByteArray}
    (h : o.save path isWritable = .ok bytes) :
    ∃ text, o.toToml = .ok text ∧ bytes = text.toUTF8 := by
  unfold save at h
  cases htext : o.toToml with
  | error fault =>
    rw [htext] at h
    cases h
  | ok text =>
    rw [htext] at h
    cases isWritable with
    | true => exact ⟨text, rfl, (Except.ok.inj h).symm⟩
    | false => cases h

theorem save_of_toToml {o : Options} {text : String} (htext : o.toToml = .ok text)
    (path : String) : o.save path true = .ok text.toUTF8 := by
  unfold save
  rw [htext]
  rfl

theorem fromUTF8?_toUTF8 (text : String) : String.fromUTF8? text.toUTF8 = some text := by
  unfold String.fromUTF8?
  exact dif_pos text.isValidUTF8

theorem load_of_save {o : Options} {path : String} {isWritable : Bool} {bytes : ByteArray}
    (h : o.save path isWritable = .ok bytes) (describe : String → String) (path' : String) :
    load describe path' (some bytes) = .ok o.validate := by
  obtain ⟨text, htext, rfl⟩ := save_eq_ok h
  obtain ⟨y, hy, -, hok, -⟩ := load_of_fromUTF8? describe path' (fromUTF8?_toUTF8 text)
  rw [hy, hok _ (ofToml_of_toToml htext)]

/-- Options can be written as a document, or saved to a file, exactly if their integers have at most
63 bits. What is written is read as the options after validation, so that valid options come back
from a file as they are, without a message. -/
theorem toToml_roundTrip (o : Options) :
    ((∃ text, o.toToml = .ok text) ↔
      o.maxInstructions.toNat ≤ 2 ^ 63 - 1 ∧
        ∀ seed, o.seed = some seed → seed.toNat ≤ 2 ^ 63 - 1) ∧
    (∀ text, o.toToml = .ok text → ofToml text = .ok o.validate) ∧
    (∀ path, (∃ bytes, o.save path true = .ok bytes) ↔ ∃ text, o.toToml = .ok text) ∧
    (∀ describe path isWritable bytes, o.save path isWritable = .ok bytes →
      load describe path (some bytes) = .ok o.validate) ∧
    (o.Valid → ∀ describe path isWritable bytes, o.save path isWritable = .ok bytes →
      load describe path (some bytes) = .ok (pure o)) := by
  refine ⟨?_, fun text htext => ofToml_of_toToml htext, fun path => ?_,
    fun describe path w bytes h => load_of_save h describe path,
    fun hvalid describe path w bytes h => ?_⟩
  · rw [toToml_eq_ok_iff]
    exact ⟨fun h => ⟨h.maxInstructions, h.seed⟩, fun h => ⟨h.1, h.2⟩⟩
  · constructor
    · rintro ⟨bytes, h⟩
      obtain ⟨text, htext, -⟩ := save_eq_ok h
      exact ⟨text, htext⟩
    · rintro ⟨text, htext⟩
      exact ⟨text.toUTF8, save_of_toToml htext path⟩
  · rw [load_of_save h describe path, hvalid.validate_eq_pure]

/-- Valid options with two stacks and a seed, and options that validation has to repair. -/
theorem toToml_roundTrip_of_seeded :
    let o : Options :=
      { maxInstructions := 250, kinds := [.boolean, .integer], seed := some 42
        literalProbability := 0.5 }
    let broken : Options := { kinds := [], literalProbability := 0.0 / 0.0 }
    let describe : String → String := fun _ => "expected a value"
    (∃ bytes, o.save "options.toml" true = .ok bytes ∧
      load describe "options.toml" (some bytes) = .ok (pure o)) ∧
    ∃ text, broken.toToml = .ok text ∧ ofToml text = .ok broken.validate ∧
      broken.validate.value = {} := by
  intro o broken describe
  obtain ⟨hprints, -, hsaves, -, hload⟩ := toToml_roundTrip o
  obtain ⟨hbroken, hread, -⟩ := toToml_roundTrip broken
  have hseed : ∀ seed, some (42 : UInt64) = some seed → seed.toNat ≤ 2 ^ 63 - 1 := by
    rintro seed ⟨rfl⟩
    decide
  obtain ⟨bytes, hbytes⟩ := (hsaves "options.toml").mpr (hprints.mpr ⟨by decide, hseed⟩)
  obtain ⟨text, htext⟩ := hbroken.mpr ⟨by decide, nofun⟩
  have hvalid : o.Valid := isValid_iff.mp (by decide)
  exact ⟨⟨bytes, hbytes, hload hvalid describe "options.toml" true bytes hbytes⟩,
    text, htext, hread text htext, by decide⟩

end StackMachine.Options
