import StackMachine.Proofs.JsonTexts

/-! Values that nobody asked for. A reader passes over the text of every value that JSON can express
and stops at its end, however deep the value is. -/
namespace StackMachine.Json

/-- The values that JSON can express: every float in them is a finite number. -/
inductive IsWritable : Json → Prop
  | null : IsWritable .null
  | boolean (value : Bool) : IsWritable (.boolean value)
  | integer (value : Int) : IsWritable (.integer value)
  | float {value : Float} (h : value.isFinite = true) : IsWritable (.float value)
  | string (value : String) : IsWritable (.string value)
  | array {items : List Json} (h : ∀ j ∈ items, IsWritable j) : IsWritable (.array items)
  | object {members : List (String × Json)} (h : ∀ m ∈ members, IsWritable m.2) :
    IsWritable (.object members)

section Strings

theorem exists_of_prepend_eq_ok {c : Char} {r : Except Fault (List Char × List Char)}
    {s rest : List Char} (h : prepend c r = .ok (s, rest)) : ∃ s', r = .ok (s', rest) := by
  cases r with
  | error fault => cases h
  | ok result =>
    cases h
    exact ⟨result.1, rfl⟩

theorem skipString_code {a b c d : Char} {n : Nat} (h : hex4? a b c d = some n) (rest : List Char) :
    skipString ('\\' :: 'u' :: a :: b :: c :: d :: rest) = skipString rest := by
  rw [skipString]
  simp [h]

/-- What is read as a string is passed over as one. The two halves of a surrogate pair, which the
reader takes together, are passed over one after the other. -/
theorem skipString_of_stringTail {cs s rest : List Char} (h : stringTail cs = .ok (s, rest)) :
    skipString cs = .ok rest := by
  fun_induction stringTail cs generalizing s with
  | case2 rest' =>
    cases h
    rfl
  | case6 _ _ _ _ high hhigh _ _ _ _ _ _ rest' low hlow _ ih =>
    obtain ⟨s', hs'⟩ := exists_of_prepend_eq_ok h
    rw [skipString_code hhigh, skipString_code hlow]
    exact ih hs'
  | case9 _ _ _ _ rest' n hn _ _ ih =>
    obtain ⟨s', hs'⟩ := exists_of_prepend_eq_ok h
    rw [skipString_code hn]
    exact ih hs'
  | case10 c rest' hcode d hd ih =>
    obtain ⟨s', hs'⟩ := exists_of_prepend_eq_ok h
    rw [skipString]
    · simpa [hd] using ih hs'
    · exact hcode
  | case13 c rest' hquote hcode hletter hplain ih =>
    obtain ⟨s', hs'⟩ := exists_of_prepend_eq_ok h
    rw [skipString]
    · rw [if_neg hplain]
      exact ih hs'
    · exact hquote
    · exact hcode
    · exact hletter
  | _ => cases h

theorem skipString_renderString (s : String) (rest : List Char) :
    skipString (s.toList.flatMap escape ++ '"' :: rest) = .ok rest :=
  skipString_of_stringTail (stringTail_flatMap s.toList rest)

end Strings

theorem exists_render_eq_cons {j : Json} (h : j.IsWritable) :
    ∃ c cs, j.render = c :: cs ∧ isBlank c = false ∧ c ≠ ']' := by
  cases h with
  | null => exact ⟨_, _, rfl, rfl, by decide⟩
  | boolean b =>
    cases b with
    | true => exact ⟨_, _, rfl, rfl, by decide⟩
    | false => exact ⟨_, _, rfl, rfl, by decide⟩
  | integer n =>
    rw [render, ← NumberText.chars_ofInt]
    exact NumberText.starts _
  | float hx =>
    obtain ⟨t, hchars, -⟩ := NumberText.exists_finite isExplicit_floatLayout hx
    rw [render, ← hchars]
    exact t.starts
  | string s => exact ⟨_, _, by rw [render, renderString]; rfl, rfl, by decide⟩
  | @array items h =>
    cases items with
    | nil => exact ⟨_, _, by rw [render], rfl, by decide⟩
    | cons j items => exact ⟨_, _, by rw [render]; rfl, rfl, by decide⟩
  | @object members h =>
    cases members with
    | nil => exact ⟨_, _, by rw [render], rfl, by decide⟩
    | cons m members => exact ⟨_, _, by rw [render]; rfl, rfl, by decide⟩

/-- A text is passed over whatever follows it. Two steps for every character are enough. -/
def Skips (text : List Char) : Prop :=
  ∀ rest, EndsNumber rest → ∀ fuel, 2 * text.length ≤ fuel →
    skipValue fuel (text ++ rest) = .ok rest

theorem skips_of_succ {text : List Char} (hne : text ≠ [])
    (h : ∀ rest, EndsNumber rest → ∀ fuel, 2 * text.length ≤ fuel + 1 →
      skipValue (fuel + 1) (text ++ rest) = .ok rest) : Skips text := by
  intro rest hr fuel hfuel
  have hlength := List.length_pos_iff.mpr hne
  obtain ⟨fuel, rfl⟩ : ∃ k, fuel = k + 1 := ⟨fuel - 1, by omega⟩
  exact h rest hr fuel hfuel

theorem skips_renderString (s : String) : Skips (renderString s) := by
  refine skips_of_succ (List.cons_ne_nil _ _) fun rest _ fuel _ => ?_
  have hskip := skipString_renderString s rest
  rw [renderString, List.append_assoc, List.cons_append]
  exact hskip

theorem skips_number (t : NumberText) : Skips t.chars := by
  obtain ⟨c, cs, hchars, hc⟩ := t.exists_chars_eq_cons
  refine skips_of_succ (by simp [hchars]) fun rest hr fuel _ => ?_
  have hparts := numberParts_chars t hr
  have hstart : (c = '-' || c.isDigit) = true := by simpa using hc
  rw [hchars, List.cons_append] at hparts ⊢
  unfold skipValue
  rw [skipBlanks_cons (isBlank_of_startsNumber hc)]
  simp [ne_of_startsNumber hc, hstart, hparts, bind, Except.bind, pure, Except.pure]

theorem skipValue_items {c : Char} (hblank : isBlank c = false) (hclose : c ≠ ']') (fuel : Nat)
    (cs : List Char) : skipValue (fuel + 1) ('[' :: c :: cs) = skipItems fuel (c :: cs) := by
  have hopen : skipBlanks ('[' :: c :: cs) = '[' :: c :: cs := rfl
  have hnext : skipBlanks (c :: cs) = c :: cs := skipBlanks_cons hblank cs
  unfold skipValue
  rw [hopen]
  simp [hnext, hclose]

/-- The items of a sequence are passed over one by one. Every item takes one step off the fuel, and
the comma or the bracket behind it makes up for that step. -/
theorem skipItems_render {j : Json} {items : List Json} (h : ∀ i ∈ j :: items, Skips i.render)
    {rest : List Char} {fuel : Nat}
    (hfuel : 2 * (j.render ++ renderItems items).length ≤ fuel) :
    skipItems fuel (j.render ++ (renderItems items ++ rest)) = .ok rest := by
  induction items generalizing j fuel with
  | nil =>
    rw [List.length_append, renderItems, List.length_singleton] at hfuel
    obtain ⟨fuel, rfl⟩ : ∃ k, fuel = k + 1 := ⟨fuel - 1, by omega⟩
    have hvalue := h j List.mem_cons_self _ (endsNumber_renderItems [] rest) fuel (by omega)
    rw [skipItems, hvalue]
    rfl
  | cons k items ih =>
    rw [List.length_append, renderItems, List.length_append, List.length_cons] at hfuel
    obtain ⟨fuel, rfl⟩ : ∃ k, fuel = k + 1 := ⟨fuel - 1, by omega⟩
    have hvalue := h j List.mem_cons_self _ (endsNumber_renderItems (k :: items) rest) fuel
      (by omega)
    have htail : skipItems fuel (k.render ++ (renderItems items ++ rest)) = .ok rest :=
      ih (fun i hi => h i (List.mem_cons_of_mem _ hi)) (by rw [List.length_append]; omega)
    rw [skipItems, hvalue, renderItems, List.cons_append, List.cons_append, List.append_assoc]
    exact htail

/-- A member is passed over up to the comma or the brace behind it. -/
theorem skipMembers_of_member {name : String} {text rest : List Char} {fuel : Nat}
    (h : skipValue fuel (text ++ rest) = .ok rest) :
    let cs := renderString name ++ ':' :: (text ++ rest)
    (∀ tail, rest = '\x7d' :: tail → skipMembers (fuel + 1) cs = .ok tail) ∧
    ∀ tail, rest = ',' :: tail → skipMembers (fuel + 1) cs = skipMembers fuel tail := by
  intro cs
  have hname := skipString_renderString name (':' :: (text ++ rest))
  have hcolon : colon (':' :: (text ++ rest)) = .ok (text ++ rest) := rfl
  have hquote (cs : List Char) : skipBlanks ('"' :: cs) = '"' :: cs := rfl
  unfold cs
  rw [renderString, List.append_assoc, List.cons_append, List.singleton_append, skipMembers, hquote]
  simp only [hname, hcolon, h, bind, Except.bind]
  constructor
  · rintro tail rfl
    rfl
  · rintro tail rfl
    rfl

theorem skipMembers_render {m : String × Json} {members : List (String × Json)}
    (h : ∀ n ∈ m :: members, Skips n.2.render) {rest : List Char} {fuel : Nat}
    (hfuel : 2 * (renderString m.1 ++ ':' :: m.2.render ++ renderMembers members).length ≤ fuel) :
    skipMembers fuel
      (renderString m.1 ++ ':' :: (m.2.render ++ (renderMembers members ++ rest))) = .ok rest := by
  induction members generalizing m fuel with
  | nil =>
    simp only [List.length_append, List.length_cons, renderMembers] at hfuel
    obtain ⟨fuel, rfl⟩ : ∃ k, fuel = k + 1 := ⟨fuel - 1, by omega⟩
    have hvalue := h m List.mem_cons_self _ (endsNumber_renderMembers [] rest) fuel (by omega)
    exact (skipMembers_of_member hvalue).1 rest rfl
  | cons n members ih =>
    simp only [List.length_append, List.length_cons, renderMembers] at hfuel
    obtain ⟨fuel, rfl⟩ : ∃ k, fuel = k + 1 := ⟨fuel - 1, by omega⟩
    have hvalue := h m List.mem_cons_self _ (endsNumber_renderMembers (n :: members) rest) fuel
      (by omega)
    have htail : skipMembers fuel (renderString n.1 ++
        ':' :: (n.2.render ++ (renderMembers members ++ rest))) = .ok rest :=
      ih (fun i hi => h i (List.mem_cons_of_mem _ hi))
        (by simp only [List.length_append, List.length_cons]; omega)
    have hnext : renderMembers (n :: members) ++ rest =
        ',' :: (renderString n.1 ++ ':' :: (n.2.render ++ (renderMembers members ++ rest))) := by
      simp [renderMembers]
    rw [(skipMembers_of_member hvalue).2 _ hnext]
    exact htail

/-- The text of a value is passed over as a whole. The step into a sequence or an object is made up
for by its opening bracket or brace. -/
theorem skips_render {j : Json} (h : j.IsWritable) : Skips j.render := by
  induction h with
  | null =>
    rw [render]
    exact skips_of_succ (List.cons_ne_nil _ _) fun rest _ fuel _ => rfl
  | boolean b =>
    rw [render]
    cases b with
    | true => exact skips_of_succ (List.cons_ne_nil _ _) fun rest _ fuel _ => rfl
    | false => exact skips_of_succ (List.cons_ne_nil _ _) fun rest _ fuel _ => rfl
  | integer n =>
    rw [render, ← NumberText.chars_ofInt]
    exact skips_number _
  | float hx =>
    obtain ⟨t, hchars, -⟩ := NumberText.exists_finite isExplicit_floatLayout hx
    rw [render, ← hchars]
    exact skips_number t
  | string s =>
    rw [render]
    exact skips_renderString s
  | @array items hitems ih =>
    cases items with
    | nil =>
      rw [render]
      exact skips_of_succ (List.cons_ne_nil _ _) fun rest _ fuel _ => rfl
    | cons j items =>
      rw [render]
      refine skips_of_succ (List.cons_ne_nil _ _) fun rest _ fuel hfuel => ?_
      obtain ⟨c, cs, hstart, hblank, hclose⟩ := exists_render_eq_cons (hitems j List.mem_cons_self)
      have hlist : skipItems fuel (j.render ++ (renderItems items ++ rest)) = .ok rest :=
        skipItems_render ih (by simp only [List.cons_append, List.length_cons] at hfuel; omega)
      rw [hstart] at hlist ⊢
      rw [List.append_assoc, List.cons_append, List.cons_append, skipValue_items hblank hclose]
      exact hlist
  | @object members hmembers ih =>
    cases members with
    | nil =>
      rw [render]
      exact skips_of_succ (List.cons_ne_nil _ _) fun rest _ fuel _ => rfl
    | cons m members =>
      rw [render]
      refine skips_of_succ (List.cons_ne_nil _ _) fun rest _ fuel hfuel => ?_
      have hlist : skipMembers fuel (renderString m.1 ++
          ':' :: (m.2.render ++ (renderMembers members ++ rest))) = .ok rest :=
        skipMembers_render ih (by simp only [List.cons_append, List.length_cons] at hfuel; omega)
      rw [List.append_assoc, List.append_assoc, List.cons_append, List.cons_append]
      exact hlist

/-- A member that is ignored leaves the state as it is. -/
theorem reads_ignore {τ : Type} {j : Json} (h : j.IsWritable) (state : τ) :
    Reads (ignore state) j.render state := by
  refine ⟨exists_render_eq_cons h, fun rest hr => ?_⟩
  have hskip := skips_render h rest hr (2 * (j.render ++ rest).length + 2)
    (by rw [List.length_append]; omega)
  unfold ignore
  rw [hskip]
  rfl

end StackMachine.Json
