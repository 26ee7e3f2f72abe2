import StackMachine.Proofs.NumberTexts

/-! JSON texts and their readers. A reader that reads the text of every item reads the text of an
array of them, and a reader that knows every member reads the text of an object. A reader that stops
at an item or at the value of a member stops there in the whole text. -/
namespace StackMachine
namespace Json

section Strings

theorem stringTail_plain {c : Char} (hquote : c ≠ '"') (hslash : c ≠ '\\') (hc : 0x20 ≤ c.toNat)
    (rest : List Char) : stringTail (c :: rest) = prepend c (stringTail rest) := by
  have hlt : ¬c.toNat < 0x20 := Nat.not_lt.mpr hc
  rw [stringTail]
  · simp [hlt, hslash]
  · exact hquote
  · intro a b d e rest' h
    exact absurd h hslash
  · intro a rest' h
    exact absurd h hslash

theorem stringTail_letter {c d : Char} (h : unescape? c = some d) (rest : List Char) :
    stringTail ('\\' :: c :: rest) = prepend d (stringTail rest) := by
  rw [stringTail]
  · simp [h]
  · rintro a b d e rest' rfl rfl
    exact absurd h (by simp [unescape?])

theorem stringTail_code {a b c d : Char} {n : Nat} (h : hex4? a b c d = some n) (hn : n < 0xD800)
    (rest : List Char) :
    stringTail ('\\' :: 'u' :: a :: b :: c :: d :: rest) = prepend (Char.ofNat n) (stringTail rest) := by
  have hlow : isLowSurrogate n = false := by
    simp [isLowSurrogate]
    omega
  have hhigh : isHighSurrogate n = false := by
    simp [isHighSurrogate]
    omega
  rw [stringTail]
  simp [h, hlow, hhigh]

theorem hex4?_control {n : Nat} (hn : n < 0x20) :
    hex4? '0' '0' (Nat.digitChar (n / 16)) (Nat.digitChar (n % 16)) = some n := by
  revert n
  decide

/-- An escaped character is read as the character. -/
theorem stringTail_escape (c : Char) (rest : List Char) :
    stringTail (escape c ++ rest) = prepend c (stringTail rest) := by
  unfold escape
  split
  · rename_i h
    subst h
    exact stringTail_letter rfl rest
  split
  · rename_i h
    subst h
    exact stringTail_letter rfl rest
  split
  · rename_i h
    have hc : c = '\x08' := Char.toNat_inj.mp h
    subst hc
    exact stringTail_letter rfl rest
  split
  · rename_i h
    have hc : c = '\x0c' := Char.toNat_inj.mp h
    subst hc
    exact stringTail_letter rfl rest
  split
  · rename_i h
    subst h
    exact stringTail_letter rfl rest
  split
  · rename_i h
    subst h
    exact stringTail_letter rfl rest
  split
  · rename_i h
    subst h
    exact stringTail_letter rfl rest
  split
  · rename_i h
    have hread := stringTail_code (hex4?_control h) (Nat.lt_trans h (by decide)) rest
    rw [Char.ofNat_toNat] at hread
    exact hread
  · rename_i hquote hslash _ _ _ _ _ hlt
    exact stringTail_plain hquote hslash (Nat.not_lt.mp hlt) rest

theorem stringTail_flatMap (s rest : List Char) :
    stringTail (s.flatMap escape ++ '"' :: rest) = .ok (s, rest) := by
  induction s with
  | nil => rfl
  | cons c s ih =>
    rw [List.flatMap_cons, List.append_assoc, stringTail_escape, ih]
    rfl

end Strings

/-- A reader takes a text as a value, whatever follows the text. -/
structure Reads {α : Type} (value : Reader α) (text : List Char) (a : α) : Prop where
  starts : ∃ c cs, text = c :: cs ∧ isBlank c = false ∧ c ≠ ']'
  reads : ∀ rest, EndsNumber rest → value (text ++ rest) = .ok (a, rest)

/-- A reader stops in a text with a fault, whatever follows the text. -/
structure Fails {α : Type} (value : Reader α) (text : List Char) (fault : Fault) : Prop where
  starts : ∃ c cs, text = c :: cs ∧ isBlank c = false ∧ c ≠ ']'
  fails : ∀ rest, EndsNumber rest → value (text ++ rest) = .error fault

/-- A reader that goes on from what another one reads takes the same texts. -/
theorem Reads.then {α β : Type} {value : Reader α} {reader : Reader β} {text : List Char} {a : α}
    {b : β} (h : Reads value text a)
    (hreader : ∀ cs rest, value cs = .ok (a, rest) → reader cs = .ok (b, rest)) :
    Reads reader text b :=
  ⟨h.starts, fun rest hr => hreader _ rest (h.reads rest hr)⟩

theorem Fails.then {α β : Type} {value : Reader α} {reader : Reader β} {text : List Char}
    {fault : Fault} (h : Fails value text fault)
    (hreader : ∀ cs, value cs = .error fault → reader cs = .error fault) :
    Fails reader text fault :=
  ⟨h.starts, fun rest hr => hreader _ (h.fails rest hr)⟩

theorem NumberText.starts (t : NumberText) :
    ∃ c cs, t.chars = c :: cs ∧ isBlank c = false ∧ c ≠ ']' := by
  obtain ⟨c, cs, hchars, hc⟩ := t.exists_chars_eq_cons
  exact ⟨c, cs, hchars, isBlank_of_startsNumber hc, ne_of_startsNumber hc (by decide)⟩

theorem skipBlanks_cons {c : Char} (hc : isBlank c = false) (cs : List Char) :
    skipBlanks (c :: cs) = c :: cs := by
  simp [skipBlanks, hc]

theorem read_of_reads {α : Type} {value : Reader α} {text : List Char} {a : α}
    (h : Reads value text a) : read value (String.ofList text) = .ok a := by
  have hread := h.reads [] (fun c hc => nomatch hc)
  rw [List.append_nil] at hread
  unfold read
  simp only [String.toList_ofList, hread]
  rfl

theorem read_of_fails {α : Type} {value : Reader α} {text : List Char} {fault : Fault}
    (h : Fails value text fault) : read value (String.ofList text) = .error fault := by
  have hread := h.fails [] (fun c hc => nomatch hc)
  rw [List.append_nil] at hread
  unfold read
  simp only [String.toList_ofList, hread]
  rfl

theorem look_string (s : String) (rest : List Char) :
    look (renderString s ++ rest) = .ok (.string s, rest) := by
  have htail := stringTail_flatMap s.toList rest
  unfold renderString
  rw [List.append_assoc, List.cons_append]
  change (stringTail (s.toList.flatMap escape ++ '"' :: rest) >>= fun r =>
    .ok (Found.string (String.ofList r.1), r.2)) = _
  rw [htail]
  change Except.ok (Found.string (String.ofList s.toList), rest) = _
  rw [String.ofList_toList]

section Sequences
variable {α : Type} {item : Reader α}

theorem endsNumber_renderItems (items : List Json) (rest : List Char) :
    EndsNumber (renderItems items ++ rest) := by
  intro c hc
  cases items with
  | nil =>
    cases hc
    decide
  | cons j items =>
    cases hc
    decide

theorem itemsTail_of_next {isFirst : Bool} {j : Json} {a : α} {items : List Json}
    {cs rest : List Char} {fuel : ℕ} (hread : Reads item j.render a)
    (hnext : nextItem? isFirst cs = .ok (some (j.render ++ (renderItems items ++ rest)))) :
    itemsTail item isFirst (fuel + 1) cs =
      (itemsTail item false fuel (renderItems items ++ rest)).map fun r => (a :: r.1, r.2) := by
  have hitem := hread.reads _ (endsNumber_renderItems items rest)
  rw [itemsTail]
  simp only [hnext, hitem, bind, Except.bind]
  cases itemsTail item false fuel (renderItems items ++ rest) with
  | ok result => rfl
  | error fault => rfl

theorem itemsTail_of_fails {isFirst : Bool} {j : Json} {items : List Json} {cs rest : List Char}
    {fuel : ℕ} {fault : Fault} (hfails : Fails item j.render fault)
    (hnext : nextItem? isFirst cs = .ok (some (j.render ++ (renderItems items ++ rest)))) :
    itemsTail item isFirst (fuel + 1) cs = .error fault := by
  have hitem := hfails.fails _ (endsNumber_renderItems items rest)
  rw [itemsTail]
  simp only [hnext, hitem, bind, Except.bind]

theorem nextItem?_renderItems (j : Json) (items : List Json) (rest : List Char) :
    nextItem? false (renderItems (j :: items) ++ rest) =
      .ok (some (j.render ++ (renderItems items ++ rest))) := by
  rw [renderItems, List.cons_append, List.cons_append, List.append_assoc]
  rfl

theorem itemsTail_renderItems {items : List Json} {as : List α}
    (h : List.Forall₂ (fun j a => Reads item j.render a) items as) {fuel : ℕ}
    (hfuel : items.length < fuel) (rest : List Char) :
    itemsTail item false fuel (renderItems items ++ rest) = .ok (as, rest) := by
  induction h generalizing fuel with
  | nil =>
    obtain ⟨fuel, rfl⟩ := Nat.exists_eq_add_of_lt hfuel
    rfl
  | @cons j a items as hread _ ih =>
    obtain ⟨fuel, rfl⟩ : ∃ k, fuel = k + 1 := ⟨fuel - 1, by omega⟩
    rw [itemsTail_of_next hread (nextItem?_renderItems j items rest),
      ih (by simpa using hfuel)]
    rfl

/-- The items before one that stops the reader are read. -/
theorem itemsTail_renderItems_of_fails {before after : List Json} {as : List α} {j : Json}
    {fault : Fault} (h : List.Forall₂ (fun j a => Reads item j.render a) before as)
    (hfails : Fails item j.render fault) {fuel : ℕ} (hfuel : before.length < fuel)
    (rest : List Char) :
    itemsTail item false fuel (renderItems (before ++ j :: after) ++ rest) = .error fault := by
  induction h generalizing fuel with
  | nil =>
    obtain ⟨fuel, rfl⟩ : ∃ k, fuel = k + 1 := ⟨fuel - 1, by omega⟩
    exact itemsTail_of_fails hfails (nextItem?_renderItems j after rest)
  | @cons i a before as hread _ ih =>
    obtain ⟨fuel, rfl⟩ : ∃ k, fuel = k + 1 := ⟨fuel - 1, by omega⟩
    rw [List.cons_append, itemsTail_of_next hread (nextItem?_renderItems i _ rest),
      ih (by simpa using hfuel)]
    rfl

theorem length_lt_renderItems (items : List Json) : items.length < (renderItems items).length := by
  induction items with
  | nil => exact Nat.one_pos
  | cons j items ih =>
    rw [renderItems, List.length_append, List.length_cons, List.length_cons]
    omega

/-- The first item of an array comes right behind its opening bracket. -/
theorem sequence_render (item : Reader α) {j : Json} (items : List Json) (rest : List Char)
    (hstarts : ∃ c cs, j.render = c :: cs ∧ isBlank c = false ∧ c ≠ ']') :
    ∃ fuel, items.length < fuel ∧ ∃ cs,
      sequence item ((Json.array (j :: items)).render ++ rest) = itemsTail item true (fuel + 1) cs ∧
      nextItem? true cs = .ok (some (j.render ++ (renderItems items ++ rest))) := by
  obtain ⟨c, cs, hstart, hblank, hclose⟩ := hstarts
  refine ⟨(j.render ++ (renderItems items ++ rest)).length, ?_,
    j.render ++ (renderItems items ++ rest), ?_, ?_⟩
  · have hlength := length_lt_renderItems items
    rw [List.length_append, List.length_append]
    omega
  · rw [render, List.append_assoc, List.cons_append]
    rfl
  · rw [hstart]
    simp [nextItem?, skipBlanks_cons hblank, hclose]

/-- An array is read item by item. -/
theorem reads_array {items : List Json} {as : List α}
    (h : List.Forall₂ (fun j a => Reads item j.render a) items as) :
    Reads (sequence item) (Json.array items).render as := by
  cases h with
  | nil =>
    rw [render]
    exact ⟨⟨_, _, rfl, rfl, by decide⟩, fun rest _ => rfl⟩
  | @cons j a items as hread htail =>
    refine ⟨⟨_, _, by rw [render]; rfl, rfl, by decide⟩, fun rest _ => ?_⟩
    obtain ⟨fuel, hfuel, cs, hopen, hnext⟩ := sequence_render item items rest hread.starts
    rw [hopen, itemsTail_of_next hread hnext, itemsTail_renderItems htail hfuel rest]
    rfl

/-- An array in which an item stops the reader is not read. -/
theorem fails_array {before after : List Json} {as : List α} {j : Json} {fault : Fault}
    (h : List.Forall₂ (fun j a => Reads item j.render a) before as)
    (hfails : Fails item j.render fault) :
    Fails (sequence item) (Json.array (before ++ j :: after)).render fault := by
  cases h with
  | nil =>
    refine ⟨⟨_, _, by rw [List.nil_append, render]; rfl, rfl, by decide⟩, fun rest _ => ?_⟩
    obtain ⟨fuel, -, cs, hopen, hnext⟩ := sequence_render item after rest hfails.starts
    rw [List.nil_append, hopen, itemsTail_of_fails hfails hnext]
  | @cons i a before as hread htail =>
    refine ⟨⟨_, _, by rw [List.cons_append, render]; rfl, rfl, by decide⟩, fun rest _ => ?_⟩
    obtain ⟨fuel, hfuel, cs, hopen, hnext⟩ :=
      sequence_render item (before ++ j :: after) rest hread.starts
    rw [List.length_append] at hfuel
    rw [List.cons_append, hopen, itemsTail_of_next hread hnext,
      itemsTail_renderItems_of_fails htail hfails (by omega) rest]
    rfl

end Sequences

section Objects
variable {τ : Type} {member : String → τ → Except Fault (Reader τ)}

/-- The members of an object take a state to another, each one by the reader of its name. -/
inductive Fills (member : String → τ → Except Fault (Reader τ)) :
    τ → List (String × Json) → τ → Prop
  | nil (state : τ) : Fills member state [] state
  | cons {state next last : τ} {name : String} {value : Reader τ} {j : Json}
      {members : List (String × Json)} (hmember : member name state = .ok value)
      (hread : Reads value j.render next) (htail : Fills member next members last) :
    Fills member state ((name, j) :: members) last

/-- One of the members of an object stops its reader, and those before it are read. -/
inductive Breaks (member : String → τ → Except Fault (Reader τ)) (fault : Fault) :
    τ → List (String × Json) → Prop
  | here {state : τ} {name : String} {value : Reader τ} {j : Json} {members : List (String × Json)}
      (hmember : member name state = .ok value) (hfails : Fails value j.render fault) :
    Breaks member fault state ((name, j) :: members)
  | later {state next : τ} {name : String} {value : Reader τ} {j : Json}
      {members : List (String × Json)} (hmember : member name state = .ok value)
      (hread : Reads value j.render next) (htail : Breaks member fault next members) :
    Breaks member fault state ((name, j) :: members)

theorem memberName_renderString (name : String) (rest : List Char) :
    memberName (renderString name ++ rest) = .ok (name, rest) := by
  have htail := stringTail_flatMap name.toList rest
  unfold renderString
  rw [List.append_assoc, List.cons_append]
  change (stringTail (name.toList.flatMap escape ++ '"' :: rest) >>= fun r =>
    .ok (String.ofList r.1, r.2)) = _
  rw [htail]
  change Except.ok (String.ofList name.toList, rest) = _
  rw [String.ofList_toList]

theorem endsNumber_renderMembers (members : List (String × Json)) (rest : List Char) :
    EndsNumber (renderMembers members ++ rest) := by
  intro c hc
  cases members with
  | nil =>
    cases hc
    decide
  | cons m members =>
    cases hc
    decide

theorem length_lt_renderMembers (members : List (String × Json)) :
    members.length < (renderMembers members).length := by
  induction members with
  | nil => exact Nat.one_pos
  | cons m members ih =>
    rw [renderMembers, List.length_append, List.length_append, List.length_cons, List.length_cons]
    omega

section Next
variable {isFirst : Bool} {state next : τ} {name : String} {value : Reader τ} {j : Json}
  {ms : List (String × Json)} {cs rest : List Char} {fuel : ℕ}
  (hmember : member name state = .ok value)
  (hnext : nextName? isFirst cs = (memberName
    (renderString name ++ (':' :: (j.render ++ (renderMembers ms ++ rest))))).map some)
include hmember hnext

theorem membersTail_of_next (hread : Reads value j.render next) :
    membersTail member isFirst (fuel + 1) state cs =
      membersTail member false fuel next (renderMembers ms ++ rest) := by
  have hcolon (cs : List Char) : colon (':' :: cs) = .ok cs := rfl
  have hvalue := hread.reads _ (endsNumber_renderMembers ms rest)
  rw [memberName_renderString] at hnext
  rw [membersTail]
  simp only [hnext, Except.map, hmember, hcolon, hvalue, bind, Except.bind]

theorem membersTail_of_fails {fault : Fault} (hfails : Fails value j.render fault) :
    membersTail member isFirst (fuel + 1) state cs = .error fault := by
  have hcolon (cs : List Char) : colon (':' :: cs) = .ok cs := rfl
  have hvalue := hfails.fails _ (endsNumber_renderMembers ms rest)
  rw [memberName_renderString] at hnext
  rw [membersTail]
  simp only [hnext, Except.map, hmember, hcolon, hvalue, bind, Except.bind]

end Next

theorem nextName?_renderMembers (name : String) (j : Json) (ms : List (String × Json))
    (rest : List Char) :
    nextName? false (renderMembers ((name, j) :: ms) ++ rest) = (memberName
      (renderString name ++ (':' :: (j.render ++ (renderMembers ms ++ rest))))).map some := by
  rw [renderMembers, List.append_assoc, List.append_assoc, List.cons_append, List.cons_append]
  rfl

theorem membersTail_renderMembers {state last : τ} {ms : List (String × Json)}
    (h : Fills member state ms last) {fuel : ℕ} (hfuel : ms.length < fuel) (rest : List Char) :
    membersTail member false fuel state (renderMembers ms ++ rest) = .ok (last, rest) := by
  induction h generalizing fuel with
  | nil state =>
    obtain ⟨fuel, rfl⟩ := Nat.exists_eq_add_of_lt hfuel
    rfl
  | cons hmember hread _ ih =>
    obtain ⟨fuel, rfl⟩ : ∃ k, fuel = k + 1 := ⟨fuel - 1, by omega⟩
    rw [membersTail_of_next hmember (nextName?_renderMembers _ _ _ rest) hread]
    exact ih (by simpa using hfuel)

theorem membersTail_renderMembers_of_breaks {fault : Fault} {state : τ}
    {ms : List (String × Json)} (h : Breaks member fault state ms) {fuel : ℕ}
    (hfuel : ms.length < fuel) (rest : List Char) :
    membersTail member false fuel state (renderMembers ms ++ rest) = .error fault := by
  induction h generalizing fuel with
  | here hmember hfails =>
    obtain ⟨fuel, rfl⟩ : ∃ k, fuel = k + 1 := ⟨fuel - 1, by omega⟩
    exact membersTail_of_fails hmember (nextName?_renderMembers _ _ _ rest) hfails
  | later hmember hread _ ih =>
    obtain ⟨fuel, rfl⟩ : ∃ k, fuel = k + 1 := ⟨fuel - 1, by omega⟩
    rw [membersTail_of_next hmember (nextName?_renderMembers _ _ _ rest) hread]
    exact ih (by simpa using hfuel)

/-- What stands behind the opening brace of an object with members. -/
def membersText (name : String) (j : Json) (ms : List (String × Json)) : List Char :=
  renderString name ++ (':' :: (j.render ++ renderMembers ms))

theorem render_object (name : String) (j : Json) (ms : List (String × Json)) :
    (Json.object ((name, j) :: ms)).render = '\x7b' :: membersText name j ms := by
  rw [render, membersText]
  simp

theorem length_lt_membersText (name : String) (j : Json) (ms : List (String × Json)) :
    ms.length < (membersText name j ms).length := by
  have hlength := length_lt_renderMembers ms
  simp only [membersText, List.length_append, List.length_cons]
  omega

theorem nextName?_membersText (name : String) (j : Json) (ms : List (String × Json))
    (rest : List Char) :
    nextName? true (membersText name j ms ++ rest) = (memberName
      (renderString name ++ (':' :: (j.render ++ (renderMembers ms ++ rest))))).map some := by
  rw [membersText, List.append_assoc, List.cons_append, List.append_assoc]
  rfl

/-- An object is read member by member once its opening brace is read. -/
theorem members_render {state last : τ} {ms : List (String × Json)}
    (h : Fills member state ms last) :
    ∃ text, (Json.object ms).render = '\x7b' :: text ∧
      ∀ rest, members member state (text ++ rest) = .ok (last, rest) := by
  cases h with
  | nil => exact ⟨['\x7d'], by rw [render], fun rest => rfl⟩
  | @cons _ next _ name value j ms hmember hread htail =>
    refine ⟨membersText name j ms, render_object name j ms, fun rest => ?_⟩
    have hlength := length_lt_membersText name j ms
    rw [members, membersTail_of_next hmember (nextName?_membersText name j ms rest) hread]
    exact membersTail_renderMembers htail (by rw [List.length_append]; omega) rest

theorem members_render_of_breaks {fault : Fault} {state : τ} {ms : List (String × Json)}
    (h : Breaks member fault state ms) :
    ∃ text, (Json.object ms).render = '\x7b' :: text ∧
      ∀ rest, members member state (text ++ rest) = .error fault := by
  cases h with
  | @here _ name value j ms hmember hfails =>
    refine ⟨membersText name j ms, render_object name j ms, fun rest => ?_⟩
    exact membersTail_of_fails hmember (nextName?_membersText name j ms rest) hfails
  | @later _ next name value j ms hmember hread htail =>
    refine ⟨membersText name j ms, render_object name j ms, fun rest => ?_⟩
    have hlength := length_lt_membersText name j ms
    rw [members, membersTail_of_next hmember (nextName?_membersText name j ms rest) hread]
    exact membersTail_renderMembers_of_breaks htail (by rw [List.length_append]; omega) rest

/-- Puts the next value in front of the entries read so far. -/
def addEntry {α : Type} (value : Reader α) (name : String) (entries : List (String × α)) :
    Reader (List (String × α)) := fun cs => do
  let (a, cs) ← value cs
  return ((name, a) :: entries, cs)

theorem Reads.addEntry {α : Type} {value : Reader α} {text : List Char} {a : α}
    (h : Reads value text a) (name : String) (entries : List (String × α)) :
    Reads (addEntry value name entries) text ((name, a) :: entries) := by
  refine h.then fun cs rest hcs => ?_
  simp only [Json.addEntry, hcs, bind, Except.bind]
  rfl

theorem Fails.addEntry {α : Type} {value : Reader α} {text : List Char} {fault : Fault}
    (h : Fails value text fault) (name : String) (entries : List (String × α)) :
    Fails (addEntry value name entries) text fault := by
  refine h.then fun cs hcs => ?_
  simp only [Json.addEntry, hcs, bind, Except.bind]

/-- An object with values of one type is read as its members in order. -/
theorem reads_object {α : Type} {value : Reader α} {ms : List (String × Json)}
    {entries : List (String × α)}
    (h : List.Forall₂ (fun m e => m.1 = e.1 ∧ Reads value m.2.render e.2) ms entries) :
    Reads (mapping value) (Json.object ms).render entries := by
  have hfills (before : List (String × α)) :
      Fills (fun name entries => return addEntry value name entries) before ms
        (entries.reverse ++ before) := by
    induction h generalizing before with
    | nil => exact .nil before
    | @cons m e ms entries hm _ ih =>
      obtain ⟨name, j⟩ := m
      obtain ⟨name, a⟩ := e
      obtain ⟨rfl, hread⟩ := hm
      rw [List.reverse_cons, List.append_assoc]
      exact .cons rfl (hread.addEntry name before) (ih _)
  obtain ⟨text, hrender, hread⟩ := members_render (hfills [])
  rw [hrender]
  refine ⟨⟨_, _, rfl, rfl, by decide⟩, fun rest _ => ?_⟩
  change (members (fun name entries => return addEntry value name entries) [] (text ++ rest) >>=
    fun r => .ok (r.1.reverse, r.2)) = _
  rw [hread, List.append_nil]
  change Except.ok (entries.reverse.reverse, rest) = _
  rw [List.reverse_reverse]

/-- An object in which a value stops the reader is not read. -/
theorem fails_object {α : Type} {value : Reader α} {before after : List (String × Json)}
    {entries : List (String × α)} {m : String × Json} {fault : Fault}
    (h : List.Forall₂ (fun m e => m.1 = e.1 ∧ Reads value m.2.render e.2) before entries)
    (hfails : Fails value m.2.render fault) :
    Fails (mapping value) (Json.object (before ++ m :: after)).render fault := by
  have hbreaks (found : List (String × α)) :
      Breaks (fun name entries => return addEntry value name entries) fault found
        (before ++ m :: after) := by
    induction h generalizing found with
    | nil => exact .here rfl (hfails.addEntry m.1 found)
    | @cons n e before entries hn _ ih =>
      exact .later rfl (hn.2.addEntry n.1 found) (ih _)
  obtain ⟨text, hrender, hread⟩ := members_render_of_breaks (hbreaks [])
  rw [hrender]
  refine ⟨⟨_, _, rfl, rfl, by decide⟩, fun rest _ => ?_⟩
  change (members (fun name entries => return addEntry value name entries) [] (text ++ rest) >>=
    fun r => .ok (r.1.reverse, r.2)) = _
  rw [hread]
  rfl

end Objects

end Json
end StackMachine
