import StackMachine.Proofs.JsonTexts

/-! The text of a snapshot. It is read as the snapshot, down to the kind and the bits of every
element, if the number texts of its finite floats are read as these floats. That is all that has to
be assumed of number texts, and whatever they are read as, names, kinds and all other elements come
back. -/
namespace StackMachine

theorem Decimal.int64?_toInt (n : Int64) : int64? n.toInt = some n := by
  unfold int64?
  rw [if_pos ⟨n.minValue_le_toInt, n.toInt_le⟩, Int64.ofInt_toInt]

namespace Json

/-- What the text of a float is read as, none if the number is out of range. -/
def throughText? (x : Float) : Option Float := floatOfText? (floatLayout.render x)

/-- The text of a float is read as the float. -/
def ReadsBack (x : Float) : Prop := throughText? x = some x

instance (x : Float) : Decidable (ReadsBack x) := inferInstanceAs (Decidable (_ = _))

-- Seventeen digits make a significand that is rounded once before it is divided.
example : throughText? 31.245270191439438 = some 31.24527019143944 := by decide +kernel

/-- The text of a finite float is found as a float or, out of range, as nothing; it is never found
as an integer. -/
theorem exists_float_text {x : Float} (hx : x.isFinite = true) :
    ∃ t : NumberText, (Json.float x).render = t.chars ∧
      ∀ rest, EndsNumber rest → look (t.chars ++ rest) = Except.map (·, rest)
        ((throughText? x).elim (.error .malformed) fun y => .ok (.float y)) := by
  obtain ⟨t, hchars, -, hwhole⟩ := NumberText.exists_finite isExplicit_floatLayout hx
  refine ⟨t, by rw [render, hchars], fun rest hr => ?_⟩
  rw [look_number t hr, NumberText.found_of_not_isWhole hwhole, t.float?_parts hchars]
  rfl

end Json

namespace Element
open Json

/-- The float that is written as a number. -/
def finite? : Element → Option Float
  | .float x => if x.isFinite then some x else none
  | _ => none

/-- What the text of an element is read as, none if its number is out of range. -/
def throughText? (e : Element) : Option Element :=
  e.finite?.elim (some e) fun x => (Json.throughText? x).map .float

/-- The text of the one element is read as the other. -/
def ReadAs (e e' : Element) : Prop := e.throughText? = some e'

/-- Elements of one kind, which are the same unless they are floats that are written as numbers. -/
structure Resembles (e e' : Element) : Prop where
  kind_eq : e'.kind = e.kind
  eq_of_not_finite : e.finite? = none → e' = e

theorem finite?_eq_some_iff {e : Element} {x : Float} :
    e.finite? = some x ↔ e = .float x ∧ x.isFinite = true := by
  cases e with
  | float y =>
    unfold finite?
    constructor
    · intro h
      obtain ⟨hy, he⟩ := Option.ite_none_right_eq_some.mp h
      cases he
      exact ⟨rfl, hy⟩
    · rintro ⟨he, hx⟩
      cases he
      exact if_pos hx
  | integer n => exact ⟨nofun, fun h => nomatch h.1⟩
  | boolean b => exact ⟨nofun, fun h => nomatch h.1⟩

theorem ReadAs.resembles {e e' : Element} (h : e.ReadAs e') : e.Resembles e' := by
  unfold ReadAs throughText? at h
  cases hfinite : e.finite? with
  | none =>
    rw [hfinite] at h
    cases h
    exact ⟨rfl, fun _ => rfl⟩
  | some x =>
    obtain ⟨rfl, -⟩ := finite?_eq_some_iff.mp hfinite
    rw [hfinite, Option.elim_some, Option.map_eq_some_iff] at h
    obtain ⟨y, -, rfl⟩ := h
    exact ⟨rfl, fun hnone => nomatch hfinite.symm.trans hnone⟩

theorem readAs_self_iff {e : Element} : e.ReadAs e ↔ ∀ x ∈ e.finite?, ReadsBack x := by
  unfold ReadAs throughText?
  cases hfinite : e.finite? with
  | none => simp
  | some x =>
    obtain ⟨rfl, -⟩ := finite?_eq_some_iff.mp hfinite
    simp [ReadsBack, Option.map_eq_some_iff]

theorem exists_of_throughText?_eq_none {e : Element} (h : e.throughText? = none) :
    ∃ x, e.finite? = some x ∧ Json.throughText? x = none := by
  unfold throughText? at h
  cases hfinite : e.finite? with
  | none =>
    rw [hfinite] at h
    cases h
  | some x =>
    rw [hfinite, Option.elim_some, Option.map_eq_none_iff] at h
    exact ⟨x, rfl, h⟩

theorem ofJson_of_look {cs rest : List Char} {e : Element} (found : Found)
    (hlook : look cs = .ok (found, rest)) (hfound : ofFound found = .ok e) :
    ofJson cs = .ok (e, rest) := by
  unfold ofJson
  simp only [hlook, hfound, bind, Except.bind]
  rfl

theorem reads_toJson {e e' : Element} (h : e.ReadAs e') : Reads ofJson e.toJson.render e' := by
  cases e with
  | integer n =>
    cases h
    have hlow : Int64.minValue.toInt ≤ n.toInt := n.minValue_le_toInt
    have hhigh : n.toInt < UInt64.size := Int.lt_of_lt_of_le n.toInt_lt (by decide)
    rw [toJson, render, ← NumberText.chars_ofInt]
    refine ⟨NumberText.starts _, fun rest hr => ofJson_of_look (.integer n.toInt) ?_ ?_⟩
    · rw [look_number _ hr, NumberText.found_ofInt hlow hhigh]
      rfl
    · simp only [ofFound, Decimal.int64?_toInt]
  | float x =>
    by_cases hx : x.isFinite = true
    · rw [ReadAs, throughText?, finite?_eq_some_iff.mpr ⟨rfl, hx⟩, Option.elim_some,
        Option.map_eq_some_iff] at h
      obtain ⟨y, hy, rfl⟩ := h
      obtain ⟨t, hrender, hlook⟩ := exists_float_text hx
      rw [toJson, if_pos hx, hrender]
      refine ⟨t.starts, fun rest hr => ofJson_of_look (.float y) ?_ rfl⟩
      rw [hlook rest hr, hy]
      rfl
    · have hname := nonFinite?_nonFiniteName (Bool.eq_false_of_not_eq_true hx)
      have hsame : Element.float x = e' := by simpa [ReadAs, throughText?, finite?, hx] using h
      rw [toJson, if_neg hx, render, ← hsame]
      refine ⟨⟨_, _, rfl, rfl, by decide⟩, fun rest _ => ofJson_of_look _ (look_string _ rest) ?_⟩
      simp only [ofFound, hname]
  | boolean b =>
    cases h
    cases b with
    | true => exact ⟨⟨_, _, rfl, rfl, by decide⟩, fun rest _ => rfl⟩
    | false => exact ⟨⟨_, _, rfl, rfl, by decide⟩, fun rest _ => rfl⟩

theorem fails_toJson {e : Element} (h : e.throughText? = none) :
    Fails ofJson e.toJson.render .malformed := by
  obtain ⟨x, hfinite, hnone⟩ := exists_of_throughText?_eq_none h
  obtain ⟨rfl, hx⟩ := finite?_eq_some_iff.mp hfinite
  obtain ⟨t, hrender, hlook⟩ := exists_float_text hx
  rw [toJson, if_pos hx, hrender]
  refine ⟨t.starts, fun rest hr => ?_⟩
  unfold ofJson
  rw [hlook rest hr, hnone]
  rfl

/-- The text of an element is read as the element exactly if its float is, and always as an element
that resembles it. -/
theorem read_text_toJson (e : Element) :
    (Json.read ofJson e.toJson.text = .ok e ↔ ∀ x ∈ e.finite?, ReadsBack x) ∧
    ∀ e', Json.read ofJson e.toJson.text = .ok e' → e.Resembles e' := by
  rw [← readAs_self_iff, ReadAs]
  cases h : e.throughText? with
  | some e' =>
    have hread : Json.read ofJson e.toJson.text = .ok e' := read_of_reads (reads_toJson h)
    rw [hread, Except.ok.injEq, Option.some.injEq]
    exact ⟨Iff.rfl, fun e'' he => Except.ok.inj he ▸ ReadAs.resembles h⟩
  | none =>
    have hread : Json.read ofJson e.toJson.text = .error .malformed :=
      read_of_fails (fails_toJson h)
    rw [hread]
    exact ⟨⟨nofun, nofun⟩, nofun⟩

end Element

/-- Where every element of a list has a partner or a flaw, all have partners or there is a first
flaw among them. -/
theorem forall₂_or_split {α β : Type} {R : α → β → Prop} {flaw : α → Prop} {as : List α}
    (h : ∀ a ∈ as, (∃ b, R a b) ∨ flaw a) :
    (∃ bs, List.Forall₂ R as bs) ∨
      ∃ before bs a after, as = before ++ a :: after ∧ List.Forall₂ R before bs ∧ flaw a := by
  induction as with
  | nil => exact .inl ⟨[], .nil⟩
  | cons a as ih =>
    rcases h a List.mem_cons_self with ⟨b, hb⟩ | hflaw
    · rcases ih fun c hc => h c (List.mem_cons_of_mem _ hc) with
        ⟨bs, hbs⟩ | ⟨before, bs, c, after, he, hbs, hc⟩
      · exact .inl ⟨b :: bs, .cons hb hbs⟩
      · exact .inr ⟨a :: before, b :: bs, c, after, by rw [he, List.cons_append], .cons hb hbs, hc⟩
    · exact .inr ⟨[], [], a, as, rfl, .nil, hflaw⟩

namespace Snapshot
open Json

/-- The floats that are written as numbers. -/
def finiteFloats (s : Snapshot) : List Float :=
  s.entries.flatMap fun entry => entry.2.filterMap Element.finite?

/-- Two stacks of the same name, whose elements are related one by one. -/
def EntriesMatch (R : Element → Element → Prop) (entry entry' : String × List Element) : Prop :=
  entry.1 = entry'.1 ∧ List.Forall₂ R entry.2 entry'.2

/-- Two snapshots with the same names, whose elements are related one by one. -/
def Matches (R : Element → Element → Prop) (s s' : Snapshot) : Prop :=
  List.Forall₂ (EntriesMatch R) s.entries s'.entries

theorem Matches.imp {R S : Element → Element → Prop} {s s' : Snapshot} (h : s.Matches R s')
    (himp : ∀ e e', R e e' → S e e') : s.Matches S s' :=
  List.Forall₂.imp (fun _ _ he => ⟨he.1, he.2.imp himp⟩) h

theorem matches_self_iff {R : Element → Element → Prop} {s : Snapshot} :
    s.Matches R s ↔ ∀ entry ∈ s.entries, ∀ e ∈ entry.2, R e e := by
  unfold Matches EntriesMatch
  simp only [List.forall₂_same, true_and]

theorem mem_finiteFloats {s : Snapshot} {x : Float} :
    x ∈ s.finiteFloats ↔ ∃ entry ∈ s.entries, ∃ e ∈ entry.2, e.finite? = some x := by
  simp only [finiteFloats, List.mem_flatMap, List.mem_filterMap]

/-- The elements of a stack are read one by one. -/
theorem reads_elements {elements elements' : List Element}
    (h : List.Forall₂ Element.ReadAs elements elements') :
    Reads (sequence Element.ofJson) (Json.array (elements.map Element.toJson)).render elements' :=
  reads_array (List.forall₂_map_left_iff.mpr (h.imp fun _ _ => Element.reads_toJson))

theorem fails_elements {before after bs : List Element} {e : Element}
    (h : List.Forall₂ Element.ReadAs before bs) (he : e.throughText? = none) :
    Fails (sequence Element.ofJson)
      (Json.array ((before ++ e :: after).map Element.toJson)).render .malformed := by
  rw [List.map_append, List.map_cons]
  exact fails_array (List.forall₂_map_left_iff.mpr (h.imp fun _ _ => Element.reads_toJson))
    (Element.fails_toJson he)

theorem reads_entries {entries entries' : List (String × List Element)}
    (h : List.Forall₂ (EntriesMatch Element.ReadAs) entries entries') :
    List.Forall₂ (fun m entry => m.1 = entry.1 ∧ Reads (sequence Element.ofJson) m.2.render entry.2)
      (entries.map fun (name, elements) => (name, Json.array (elements.map Element.toJson)))
      entries' :=
  List.forall₂_map_left_iff.mpr (h.imp fun _ _ hentry => ⟨hentry.1, reads_elements hentry.2⟩)

theorem reads_toJson {s s' : Snapshot} (h : s.Matches Element.ReadAs s') :
    Reads ofJson s.toJson.render s' := by
  have hentries : Reads (mapping (sequence Element.ofJson)) s.toJson.render s'.entries :=
    reads_object (reads_entries h)
  refine hentries.then fun cs rest hcs => ?_
  unfold ofJson
  simp only [hcs, bind, Except.bind]
  change Except.ok (NameMap.ofList s'.entries, rest) = _
  rw [NameMap.ofList_entries]

theorem fails_toJson {s : Snapshot} {before after entries : List (String × List Element)}
    {entry : String × List Element} (hsplit : s.entries = before ++ entry :: after)
    (h : List.Forall₂ (EntriesMatch Element.ReadAs) before entries)
    (hfails : Fails (sequence Element.ofJson)
      (Json.array (entry.2.map Element.toJson)).render .malformed) :
    Fails ofJson s.toJson.render .malformed := by
  have hentries : Fails (mapping (sequence Element.ofJson)) s.toJson.render .malformed := by
    rw [toJson, hsplit, List.map_append, List.map_cons]
    exact fails_object (reads_entries h) hfails
  refine hentries.then fun cs hcs => ?_
  unfold ofJson
  simp only [hcs, bind, Except.bind]

/-- The elements of a stack can all be read, or the reader stops at the first one that cannot. -/
theorem exists_elements_or_fails (elements : List Element) :
    (∃ elements', List.Forall₂ Element.ReadAs elements elements') ∨
      Fails (sequence Element.ofJson) (Json.array (elements.map Element.toJson)).render .malformed ∧
        ∃ e ∈ elements, e.throughText? = none := by
  have hcases (e : Element) : (∃ e', e.ReadAs e') ∨ e.throughText? = none := by
    cases h : e.throughText? with
    | none => exact .inr rfl
    | some e' => exact .inl ⟨e', h⟩
  rcases forall₂_or_split fun e (_ : e ∈ elements) => hcases e with
    hall | ⟨before, bs, e, after, rfl, hbefore, he⟩
  · exact .inl hall
  · refine .inr ⟨fails_elements hbefore he, e, ?_, he⟩
    exact List.mem_append_right _ List.mem_cons_self

/-- Stacks that match those of a snapshot make a snapshot: their names are in order. -/
theorem exists_matches {R : Element → Element → Prop} {s : Snapshot}
    {entries : List (String × List Element)}
    (h : List.Forall₂ (EntriesMatch R) s.entries entries) : ∃ s', s.Matches R s' := by
  have hnames : s.entries.map (·.1) = entries.map (·.1) := by
    refine List.forall₂_eq_eq_eq ▸ List.forall₂_map_left_iff.mpr (List.forall₂_map_right_iff.mpr ?_)
    exact h.imp fun _ _ hentry => hentry.1
  have hascending : entries.Pairwise fun a b => a.1 < b.1 := by
    have hs := s.ascending
    rw [← List.pairwise_map (f := Prod.fst)] at hs ⊢
    rw [← hnames]
    exact hs
  exact ⟨⟨entries, hascending⟩, h⟩

/-- The text of a snapshot is read as a snapshot that matches it, or it holds a number that is out
of range. -/
theorem ofText_text_cases (s : Snapshot) :
    (∃ s', ofText (text s) = .ok s' ∧ s.Matches Element.ReadAs s') ∨
      ofText (text s) = .error .malformed ∧ ∃ x ∈ s.finiteFloats, Json.throughText? x = none := by
  have hcases (entry : String × List Element) :
      (∃ entry', EntriesMatch Element.ReadAs entry entry') ∨
        Fails (sequence Element.ofJson)
            (Json.array (entry.2.map Element.toJson)).render .malformed ∧
          ∃ e ∈ entry.2, e.throughText? = none :=
    (exists_elements_or_fails entry.2).imp
      (fun ⟨elements', h⟩ => ⟨(entry.1, elements'), rfl, h⟩) id
  rcases forall₂_or_split fun entry (_ : entry ∈ s.entries) => hcases entry with
    ⟨entries, hentries⟩ | ⟨before, entries, entry, after, hsplit, hbefore, hfails, e, he, hnone⟩
  · obtain ⟨s', hs'⟩ := exists_matches hentries
    exact .inl ⟨s', read_of_reads (reads_toJson hs'), hs'⟩
  · obtain ⟨x, hx, hread⟩ := Element.exists_of_throughText?_eq_none hnone
    have hentry : entry ∈ s.entries := by
      rw [hsplit]
      exact List.mem_append_right _ List.mem_cons_self
    exact .inr ⟨read_of_fails (fails_toJson hsplit hbefore hfails), x,
      mem_finiteFloats.mpr ⟨entry, hentry, e, he, hx⟩, hread⟩

/-- A snapshot comes through its text if all its floats do. -/
theorem matches_readAs_self_iff {s : Snapshot} :
    s.Matches Element.ReadAs s ↔ ∀ x ∈ s.finiteFloats, ReadsBack x := by
  simp only [matches_self_iff, Element.readAs_self_iff, mem_finiteFloats]
  constructor
  · rintro h x ⟨entry, hentry, e, he, hx⟩
    exact h entry hentry e he x hx
  · intro h entry hentry e he x hx
    exact h x ⟨entry, hentry, e, he, hx⟩

/-- Writing a snapshot and reading the text gives the snapshot back, with its names and every
element of the same kind and value, exactly if the number texts of its finite floats are read as
these floats. However these are read, the names, the kinds and all other elements are the same, so
no finite float is read as an integer; and only a number that is out of range keeps the text from
being read. The same holds for every single element. -/
theorem ofText_text (s : Snapshot) :
    (ofText (text s) = .ok s ↔ ∀ x ∈ s.finiteFloats, ReadsBack x) ∧
    (∀ s', ofText (text s) = .ok s' → s.Matches Element.Resembles s') ∧
    (∀ fault, ofText (text s) = .error fault →
      ∃ x ∈ s.finiteFloats, Json.throughText? x = none) ∧
    ∀ e : Element,
      (Json.read Element.ofJson e.toJson.text = .ok e ↔ ∀ x ∈ e.finite?, ReadsBack x) ∧
      ∀ e', Json.read Element.ofJson e.toJson.text = .ok e' → e.Resembles e' := by
  refine ⟨⟨fun h => ?_, fun h => ?_⟩, fun s' h => ?_, fun fault h => ?_, fun e => ?_⟩
  · rcases s.ofText_text_cases with ⟨s', hread, hmatches⟩ | ⟨herror, -⟩
    · cases hread.symm.trans h
      exact matches_readAs_self_iff.mp hmatches
    · cases herror.symm.trans h
  · exact read_of_reads (reads_toJson (matches_readAs_self_iff.mpr h))
  · rcases s.ofText_text_cases with ⟨s'', hread, hmatches⟩ | ⟨herror, -⟩
    · cases hread.symm.trans h
      exact hmatches.imp fun _ _ => Element.ReadAs.resembles
    · cases herror.symm.trans h
  · rcases s.ofText_text_cases with ⟨s', hread, -⟩ | ⟨-, hout⟩
    · cases hread.symm.trans h
    · exact hout
  · exact e.read_text_toJson

/-- Floats that need few and many digits, both zeros, no numbers, the bounds of integers, and names
that have to be escaped. -/
theorem ofText_text_of_mixed :
    let s : Snapshot := .ofList [("a\"\n\x01", [.float 0.1, .float (-0.0), .float 5e-324]),
      ("é", [.float 1e21, .float (1.0 / 0.0), .float (-(1.0 / 0.0)), .float (0.0 / 0.0)]),
      ("", [.integer Int64.minValue, .integer Int64.maxValue, .float 3.0, .boolean true])]
    (∀ x ∈ s.finiteFloats, ReadsBack x) ∧
    text s = "\x7b\"\":[-9223372036854775808,9223372036854775807,3.0,true],"
      ++ "\"a\\\"\\n\\u0001\":[0.1,-0.0,5e-324],\"é\":[1e+21,\"inf\",\"-inf\",\"nan\"]\x7d" ∧
    ofText (text s) = .ok s := by
  intro s
  have hfloats : ∀ x ∈ s.finiteFloats, ReadsBack x := by decide +kernel
  exact ⟨hfloats, by decide +kernel, (ofText_text s).1.mpr hfloats⟩

end Snapshot
end StackMachine
