import StackMachine.Text.Blank

/-! The order of texts by code points is the order of their UTF-8 bytes. -/
namespace StackMachine.Text

/-- The UTF-8 bytes of a text. -/
def bytes (text : String) : List UInt8 := text.toUTF8.data.toList

theorem bytes_eq (text : String) : bytes text = text.toList.flatMap String.utf8EncodeChar := by
  unfold bytes
  rw [String.toUTF8, ← String.utf8Encode_toList]
  simp [List.utf8Encode]

theorem cons_lt_cons_ofNat {a b : Nat} (xs ys : List UInt8) (ha : a < 256) (hb : b < 256) :
    UInt8.ofNat a :: xs < UInt8.ofNat b :: ys ↔ a < b ∨ a = b ∧ xs < ys := by
  have hlt : UInt8.ofNat a < UInt8.ofNat b ↔ a < b := by
    rw [UInt8.lt_iff_toNat_lt, UInt8.toNat_ofNat_of_lt' ha, UInt8.toNat_ofNat_of_lt' hb]
  have heq : UInt8.ofNat a = UInt8.ofNat b ↔ a = b := by
    rw [← UInt8.toNat_inj, UInt8.toNat_ofNat_of_lt' ha, UInt8.toNat_ofNat_of_lt' hb]
  rw [List.cons_lt_cons_iff, hlt, heq]

theorem lt_by_digits {v w : Nat} (h : v < w) :
    v / 64 < w / 64 ∨ v / 64 = w / 64 ∧ v % 64 < w % 64 := by
  omega

/-- The bytes of a smaller character are smaller, whatever follows: none of them ends before the
first difference. -/
theorem encode_append_lt {c d : Char} (h : c < d) (xs ys : List UInt8) :
    String.utf8EncodeChar c ++ xs < String.utf8EncodeChar d ++ ys := by
  have hcd : c.val.toNat < d.val.toNat := h
  have hd : d.val.toNat < 0x110000 := by
    have hvalid := d.valid
    unfold UInt32.isValidChar Nat.isValidChar at hvalid
    omega
  unfold String.utf8EncodeChar
  dsimp only
  generalize c.val.toNat = v at *
  generalize d.val.toNat = w at *
  clear h
  -- The continuation bytes hold the digits of the code point to the base 64.
  have hdiv (n : Nat) : n / 4096 = n / 64 / 64 ∧ n / 262144 = n / 64 / 64 / 64 := by omega
  rw [(hdiv v).1, (hdiv v).2, (hdiv w).1, (hdiv w).2]
  have h₀ := lt_by_digits hcd
  have h₁ := lt_by_digits (v := v / 64) (w := w / 64)
  have h₂ := lt_by_digits (v := v / 64 / 64) (w := w / 64 / 64)
  -- Both characters take one to four bytes; the first byte decides unless they take as many.
  repeat' split
  all_goals
    simp (disch := omega) only [List.cons_append, List.nil_append, cons_lt_cons_ofNat,
      Nat.add_lt_add_iff_right, Nat.add_right_cancel_iff, Nat.mod_eq_of_lt]
    grind

theorem bytes_lt_bytes {s t : String} (h : s < t) : bytes s < bytes t := by
  rw [String.lt_iff] at h
  rw [bytes_eq, bytes_eq]
  generalize s.toList = cs at h
  generalize t.toList = ds at h
  induction cs generalizing ds with
  | nil =>
    cases ds with
    | nil => cases h
    | cons d ds =>
      have hne : (d :: ds).flatMap String.utf8EncodeChar ≠ [] := by
        rw [List.flatMap_cons]
        simp
      obtain ⟨b, bs, hb⟩ := List.exists_cons_of_ne_nil hne
      rw [hb]
      exact List.nil_lt_cons b bs
  | cons c cs ih =>
    cases ds with
    | nil => cases h
    | cons d ds =>
      rw [List.flatMap_cons, List.flatMap_cons]
      rcases List.cons_lt_cons_iff.mp h with hlt | ⟨rfl, hrest⟩
      · exact encode_append_lt hlt _ _
      · exact List.append_left_lt (ih ds hrest)

end StackMachine.Text
