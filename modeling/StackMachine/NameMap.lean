/-! Finite maps from names, listed in the order of the names. -/
namespace StackMachine

/-- A map from names to values as its entries, strictly ascending in the names. Names are ordered
by code points, which is also the order of their UTF-8 bytes. -/
structure NameMap (α : Type) where
  entries : List (String × α)
  ascending : entries.Pairwise (fun a b => a.1 < b.1)
deriving DecidableEq

namespace NameMap
variable {α β : Type}

/-- Puts an entry in its place among ascending entries, or replaces the one of its name. -/
def place (name : String) (value : α) : List (String × α) → List (String × α)
  | [] => [(name, value)]
  | e :: rest =>
    if name < e.1 then (name, value) :: e :: rest
    else if name = e.1 then (name, value) :: rest
    else e :: place name value rest

theorem mem_place {name : String} {value : α} {entries : List (String × α)} {e : String × α}
    (h : e ∈ place name value entries) : e = (name, value) ∨ e ∈ entries := by
  induction entries with
  | nil => simpa [place] using h
  | cons d rest ih =>
    simp only [place] at h
    split at h
    · simpa using h
    · split at h
      · rcases List.mem_cons.mp h with h | h
        · exact .inl h
        · exact .inr (List.mem_cons_of_mem _ h)
      · rcases List.mem_cons.mp h with h | h
        · exact .inr (h ▸ List.mem_cons_self)
        · exact (ih h).imp id (List.mem_cons_of_mem _)

theorem place_ascending (name : String) (value : α) {entries : List (String × α)}
    (h : entries.Pairwise (fun a b => a.1 < b.1)) :
    (place name value entries).Pairwise (fun a b => a.1 < b.1) := by
  induction entries with
  | nil => simp [place]
  | cons e rest ih =>
    obtain ⟨hlt, hrest⟩ := List.pairwise_cons.mp h
    simp only [place]
    split
    · rename_i hn
      refine List.pairwise_cons.mpr ⟨fun d hd => ?_, h⟩
      rcases List.mem_cons.mp hd with rfl | hd
      · exact hn
      · exact String.lt_trans hn (hlt d hd)
    · split
      · rename_i he
        exact List.pairwise_cons.mpr ⟨fun d hd => he ▸ hlt d hd, hrest⟩
      · rename_i hn he
        refine List.pairwise_cons.mpr ⟨fun d hd => ?_, ih hrest⟩
        rcases mem_place hd with rfl | hd
        · refine Decidable.byContradiction fun hc => he ?_
          exact String.le_antisymm (String.not_lt.mp hc) (String.not_lt.mp hn)
        · exact hlt d hd

/-- Changes every value, seeing its name. -/
def mapEntries (f : String → α → β) (m : NameMap α) : NameMap β where
  entries := m.entries.map fun e => (e.1, f e.1 e.2)
  ascending := by
    rw [List.pairwise_map]
    exact m.ascending

/-- The map with no entries. -/
def empty : NameMap α := ⟨[], .nil⟩

/-- The value of a name. -/
def get? (m : NameMap α) (name : String) : Option α :=
  (m.entries.find? (·.1 = name)).map (·.2)

/-- Whether a name has a value. -/
def contains (m : NameMap α) (name : String) : Bool := (m.get? name).isSome

/-- Gives a name a value, replacing an earlier one. -/
def insert (m : NameMap α) (name : String) (value : α) : NameMap α :=
  ⟨place name value m.entries, place_ascending name value m.ascending⟩

/-- Changes the value of a name; a name without a value stays without one. -/
def modify (m : NameMap α) (name : String) (f : α → α) : NameMap α :=
  m.mapEntries fun n v => if n = name then f v else v

/-- The names in ascending order. -/
def names (m : NameMap α) : List String := m.entries.map (·.1)

/-- Inserts entries one after the other, so that the last one of a name wins. -/
def insertAll (m : NameMap α) (entries : List (String × α)) : NameMap α :=
  entries.foldl (fun m e => m.insert e.1 e.2) m

/-- The map of a list of entries; the last one of a name wins. -/
def ofList (entries : List (String × α)) : NameMap α := empty.insertAll entries

/-- The value of a name in a list of entries is looked up from the front. -/
theorem find?_place (name other : String) (value : α) {entries : List (String × α)} :
    ((place name value entries).find? (·.1 = other)).map (·.2) =
      if name = other then some value else (entries.find? (·.1 = other)).map (·.2) := by
  induction entries with
  | nil => by_cases h : name = other <;> simp [place, h]
  | cons e rest ih =>
    simp only [place]
    split
    · by_cases h : name = other <;> simp [h]
    · split
      · rename_i he
        by_cases h : name = other
        · simp [h]
        · simp [h, ← he]
      · rename_i he
        by_cases hd : e.1 = other
        · have hn : name ≠ other := fun h => he (h.trans hd.symm)
          simp [hd, hn]
        · simpa [hd] using ih

@[simp] theorem get?_empty (name : String) : (empty : NameMap α).get? name = none := rfl

/-- Inserting changes the value of one name only. -/
theorem get?_insert (m : NameMap α) (name other : String) (value : α) :
    (m.insert name value).get? other = if name = other then some value else m.get? other :=
  find?_place name other value

theorem get?_mapEntries (f : String → α → β) (m : NameMap α) (name : String) :
    (m.mapEntries f).get? name = (m.get? name).map (f name) := by
  obtain ⟨entries, h⟩ := m
  simp only [get?, mapEntries]
  clear h
  induction entries with
  | nil => rfl
  | cons e rest ih => by_cases he : e.1 = name <;> simp_all

/-- Modifying changes the value of one name only. -/
theorem get?_modify (m : NameMap α) (name other : String) (f : α → α) :
    (m.modify name f).get? other = if other = name then (m.get? other).map f else m.get? other := by
  rw [modify, get?_mapEntries]
  by_cases h : other = name
  · simp [h]
  · simp [h]

theorem names_mapEntries (f : String → α → β) (m : NameMap α) :
    (m.mapEntries f).names = m.names := by
  simp [names, mapEntries]

theorem get?_eq_some_iff {m : NameMap α} {name : String} {value : α} :
    m.get? name = some value ↔ (name, value) ∈ m.entries := by
  obtain ⟨entries, h⟩ := m
  simp only [get?]
  induction entries with
  | nil => simp
  | cons e rest ih =>
    obtain ⟨hlt, hrest⟩ := List.pairwise_cons.mp h
    by_cases he : e.1 = name
    · obtain ⟨n, v⟩ := e
      subst he
      have hne : (n, value) ∉ rest := fun hm => String.lt_irrefl n (hlt (n, value) hm)
      simp [hne, eq_comm]
    · have hne : (name, value) ≠ e := fun hm => he (hm ▸ rfl)
      simpa [he, hne] using ih hrest

/-- A map is determined by the values of its names. -/
theorem ext_get? {a b : NameMap α} (h : ∀ name, a.get? name = b.get? name) : a = b := by
  have hmem (e : String × α) : e ∈ a.entries ↔ e ∈ b.entries := by
    rw [← get?_eq_some_iff, ← get?_eq_some_iff, h]
  obtain ⟨as, ha⟩ := a
  obtain ⟨bs, hb⟩ := b
  simp only at hmem
  congr 1
  clear h
  induction as generalizing bs with
  | nil =>
    cases bs with
    | nil => rfl
    | cons e _ => simpa using hmem e
  | cons e rest ih =>
    cases bs with
    | nil => simpa using hmem e
    | cons d rest' =>
      obtain ⟨hlt, hrest⟩ := List.pairwise_cons.mp ha
      obtain ⟨hlt', hrest'⟩ := List.pairwise_cons.mp hb
      have hed : e = d := by
        rcases List.mem_cons.mp ((hmem e).mp List.mem_cons_self) with hd | hd
        · exact hd
        · rcases List.mem_cons.mp ((hmem d).mpr List.mem_cons_self) with he | he
          · exact he.symm
          · exact absurd (String.lt_trans (hlt d he) (hlt' e hd)) (String.lt_irrefl _)
      subst hed
      refine congrArg _ (ih hrest rest' hrest' fun x => ?_)
      constructor
      · intro hx
        rcases List.mem_cons.mp ((hmem x).mp (List.mem_cons_of_mem _ hx)) with he | he
        · exact absurd (he ▸ hlt x hx) (String.lt_irrefl _)
        · exact he
      · intro hx
        rcases List.mem_cons.mp ((hmem x).mpr (List.mem_cons_of_mem _ hx)) with he | he
        · exact absurd (he ▸ hlt' x hx) (String.lt_irrefl _)
        · exact he

theorem modify_modify (m : NameMap α) (name : String) (f g : α → α) :
    (m.modify name f).modify name g = m.modify name fun v => g (f v) := by
  refine ext_get? fun other => ?_
  simp only [get?_modify]
  split
  · rw [Option.map_map]
    rfl
  · rfl

/-- Two changes that agree on the value of a name agree on the map. -/
theorem modify_congr {m : NameMap α} {name : String} {f g : α → α}
    (h : ∀ v, m.get? name = some v → f v = g v) : m.modify name f = m.modify name g := by
  refine ext_get? fun other => ?_
  simp only [get?_modify]
  split
  · rename_i ho
    subst ho
    exact Option.map_congr h
  · rfl

theorem modify_eq_self {m : NameMap α} {name : String} {f : α → α}
    (h : ∀ v, m.get? name = some v → f v = v) : m.modify name f = m := by
  refine ext_get? fun other => ?_
  rw [get?_modify]
  split
  · rename_i ho
    subst ho
    cases hm : m.get? other with
    | none => rfl
    | some v => rw [Option.map_some, h v hm]
  · rfl

theorem mem_names_iff {m : NameMap α} {name : String} :
    name ∈ m.names ↔ ∃ value, m.get? name = some value := by
  simp only [names, List.mem_map, get?_eq_some_iff]
  constructor
  · rintro ⟨⟨n, v⟩, hv, rfl⟩
    exact ⟨v, hv⟩
  · rintro ⟨v, hv⟩
    exact ⟨_, hv, rfl⟩

theorem contains_iff {m : NameMap α} {name : String} :
    m.contains name = true ↔ ∃ value, m.get? name = some value := by
  unfold contains
  exact Option.isSome_iff_exists

/-- Inserting a value that the name has already changes nothing. -/
theorem insert_eq_self {m : NameMap α} {name : String} {value : α} (h : m.get? name = some value) :
    m.insert name value = m := by
  refine ext_get? fun other => ?_
  rw [get?_insert]
  split
  · rename_i ho
    rw [← ho, h]
  · rfl

theorem contains_insert {m : NameMap α} {name other : String} {value : α} :
    (m.insert name value).contains other = true ↔ m.contains other = true ∨ other = name := by
  unfold contains
  rw [get?_insert]
  split
  · rename_i ho
    simp [ho]
  · rename_i ho
    simp [Ne.symm ho]

theorem nodup_names (m : NameMap α) : m.names.Nodup := by
  unfold names List.Nodup
  rw [List.pairwise_map]
  refine m.ascending.imp fun {a b} h he => ?_
  rw [he] at h
  exact String.lt_irrefl _ h

theorem get?_insertAll_of_not_mem {m : NameMap α} {entries : List (String × α)} {name : String}
    (h : name ∉ entries.map (·.1)) : (m.insertAll entries).get? name = m.get? name := by
  unfold insertAll
  induction entries generalizing m with
  | nil => rfl
  | cons e entries ih =>
    rw [List.map_cons, List.mem_cons, not_or] at h
    rw [List.foldl_cons, ih h.2, get?_insert, if_neg (Ne.symm h.1)]

theorem get?_insertAll_eq_some {m : NameMap α} {entries : List (String × α)} {name : String}
    {value : α} (h : (m.insertAll entries).get? name = some value) :
    m.get? name = some value ∨ (name, value) ∈ entries := by
  induction entries generalizing m with
  | nil => exact .inl h
  | cons e entries ih =>
    change ((m.insert e.1 e.2).insertAll entries).get? name = some value at h
    rcases ih h with h | h
    · rw [get?_insert] at h
      split at h
      · rename_i he
        cases h
        exact .inr (he ▸ List.mem_cons_self)
      · exact .inl h
    · exact .inr (List.mem_cons_of_mem _ h)

/-- Among entries of different names each one keeps its value. -/
theorem get?_insertAll_of_mem {m : NameMap α} {entries : List (String × α)} {name : String}
    {value : α} (hn : (entries.map (·.1)).Nodup) (h : (name, value) ∈ entries) :
    (m.insertAll entries).get? name = some value := by
  induction entries generalizing m with
  | nil => cases h
  | cons e entries ih =>
    obtain ⟨he, hn⟩ := List.nodup_cons.mp hn
    rcases List.mem_cons.mp h with rfl | h
    · change ((m.insert name value).insertAll entries).get? name = some value
      rw [get?_insertAll_of_not_mem he, get?_insert, if_pos rfl]
    · exact ih hn h

/-- A map is the map of its entries. -/
theorem ofList_entries (m : NameMap α) : ofList m.entries = m := by
  refine ext_get? fun name => ?_
  unfold ofList
  cases hm : m.get? name with
  | none =>
    have hname : name ∉ m.entries.map (·.1) := by
      intro h
      obtain ⟨value, hvalue⟩ := mem_names_iff.mp h
      rw [hm] at hvalue
      cases hvalue
    rw [get?_insertAll_of_not_mem hname, get?_empty]
  | some value => exact get?_insertAll_of_mem m.nodup_names (get?_eq_some_iff.mp hm)

end NameMap
end StackMachine
