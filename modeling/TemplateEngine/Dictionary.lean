/-!
# Dictionary — values by name

A dictionary is its list of entries with strictly increasing names, so equal dictionaries are equal
values and listing one needs no sorting.
-/

namespace TemplateEngine

/-- Values by name, listed by increasing names. -/
structure Dictionary (α : Type) where
  entries : List (String × α)
  increasing : entries.Pairwise (·.1 < ·.1)
  deriving DecidableEq

namespace Dictionary

variable {α : Type}

/-- The entries with the value of `k` set. -/
def insertSorted (k : String) (v : α) : List (String × α) → List (String × α)
  | [] => [(k, v)]
  | e :: es =>
    if k < e.1 then (k, v) :: e :: es else if k = e.1 then (k, v) :: es
    else e :: insertSorted k v es

theorem mem_insertSorted {k : String} {v : α} {l : List (String × α)} {z : String × α}
    (h : z ∈ insertSorted k v l) : z = (k, v) ∨ z ∈ l := by
  induction l with
  | nil => simpa [insertSorted] using h
  | cons e es ih =>
    unfold insertSorted at h
    split at h
    · simpa using h
    · split at h
      · rcases List.mem_cons.1 h with h | h <;> simp [h]
      · rcases List.mem_cons.1 h with h | h
        · simp [h]
        · rcases ih h with h | h <;> simp [h]

theorem pairwise_insertSorted (k : String) (v : α) {l : List (String × α)}
    (h : l.Pairwise (·.1 < ·.1)) : (insertSorted k v l).Pairwise (·.1 < ·.1) := by
  induction l with
  | nil => simp [insertSorted]
  | cons e es ih =>
    obtain ⟨h1, h2⟩ := List.pairwise_cons.1 h
    unfold insertSorted
    split
    · rename_i hlt
      refine List.pairwise_cons.2 ⟨fun z hz => ?_, h⟩
      rcases List.mem_cons.1 hz with rfl | hz
      · exact hlt
      · exact String.lt_trans hlt (h1 z hz)
    · split
      · rename_i he
        exact List.pairwise_cons.2 ⟨fun z hz => he ▸ h1 z hz, h2⟩
      · rename_i hlt hne
        refine List.pairwise_cons.2 ⟨fun z hz => ?_, ih h2⟩
        rcases mem_insertSorted hz with rfl | hz
        · refine Decidable.byContradiction fun hn => hne ?_
          exact String.le_antisymm (String.not_lt.1 hn) (String.not_lt.1 hlt)
        · exact h1 z hz

/-- The dictionary without entries. -/
def empty : Dictionary α := ⟨[], .nil⟩

/-- The dictionary with the value of one name set. -/
def insert (d : Dictionary α) (k : String) (v : α) : Dictionary α :=
  ⟨insertSorted k v d.entries, pairwise_insertSorted k v d.increasing⟩

/-- The value of a name. -/
def get? (d : Dictionary α) (k : String) : Option α := (d.entries.find? (·.1 = k)).map (·.2)

/-- The dictionary of a list of entries; of two entries for one name the later one counts. -/
def ofList (es : List (String × α)) : Dictionary α := es.foldl (fun d e => d.insert e.1 e.2) empty

/-- The names in increasing order. -/
def keys (d : Dictionary α) : List String := d.entries.map (·.1)

instance : Inhabited (Dictionary α) := ⟨empty⟩

@[simp] theorem entries_empty : (empty : Dictionary α).entries = [] := rfl

@[simp] theorem get?_empty (k : String) : (empty : Dictionary α).get? k = none := rfl

theorem find?_insertSorted (k : String) (v : α) (l : List (String × α)) (x : String) :
    ((insertSorted k v l).find? (·.1 = x)).map (·.2) =
      if k = x then some v else (l.find? (·.1 = x)).map (·.2) := by
  induction l with
  | nil => by_cases h : k = x <;> simp [insertSorted, h]
  | cons e es ih =>
    unfold insertSorted
    split
    · by_cases h : k = x <;> simp [List.find?_cons, h]
    · split
      · rename_i he
        by_cases h : k = x
        · simp [h]
        · have : e.1 ≠ x := fun h' => h (he.trans h')
          simp [h, this]
      · rename_i hne
        by_cases h : e.1 = x
        · have : k ≠ x := fun h' => hne (h'.trans h.symm)
          simp [h, this]
        · rw [List.find?_cons]
          simp only [h, decide_false]
          rw [ih]
          simp [h]

theorem get?_insert (d : Dictionary α) (k : String) (v : α) (x : String) :
    (d.insert k v).get? x = if k = x then some v else d.get? x :=
  find?_insertSorted k v d.entries x

@[simp] theorem get?_insert_self (d : Dictionary α) (k : String) (v : α) :
    (d.insert k v).get? k = some v := by simp [get?_insert]

theorem find?_eq_some_iff_mem {l : List (String × α)} (h : l.Pairwise (·.1 < ·.1)) {k : String} {v : α} :
    (l.find? (·.1 = k)).map (·.2) = some v ↔ (k, v) ∈ l := by
  induction l with
  | nil => simp
  | cons e es ih =>
    obtain ⟨hfirst, hrest⟩ := List.pairwise_cons.1 h
    by_cases he : e.1 = k
    · have hnot : (k, v) ∉ es := fun hmem => by
        have hlt : e.1 < k := hfirst (k, v) hmem
        exact String.lt_irrefl k (he ▸ hlt)
      simp [he, hnot, Prod.ext_iff, eq_comm]
    · have hne : (k, v) ≠ e := fun heq => he (congrArg Prod.fst heq).symm
      simp [he, hne, ih hrest]

/-- The entries are the names with their values. -/
theorem get?_eq_some_iff {d : Dictionary α} {k : String} {v : α} :
    d.get? k = some v ↔ (k, v) ∈ d.entries :=
  find?_eq_some_iff_mem d.increasing

theorem mem_entries_insert {d : Dictionary α} {k : String} {v : α} {e : String × α} :
    e ∈ (d.insert k v).entries ↔ e = (k, v) ∨ e ∈ d.entries ∧ e.1 ≠ k := by
  obtain ⟨x, w⟩ := e
  rw [← get?_eq_some_iff, ← get?_eq_some_iff, get?_insert]
  by_cases h : k = x
  · simp [h, eq_comm]
  · simp [h, Ne.symm h]

/-- A list of entries for different names makes a dictionary of these entries. -/
theorem mem_entries_ofList {es : List (String × α)} (h : (es.map (·.1)).Nodup) {e : String × α} :
    e ∈ (ofList es).entries ↔ e ∈ es := by
  suffices key : ∀ d : Dictionary α, (∀ e ∈ d.entries, e.1 ∉ es.map (·.1)) →
      (e ∈ (es.foldl (fun d e => d.insert e.1 e.2) d).entries ↔ e ∈ d.entries ∨ e ∈ es) by
    simpa [ofList] using key empty (by simp)
  induction es with
  | nil => simp
  | cons x es ih =>
    intro d hd
    simp only [List.map_cons, List.nodup_cons] at h
    rw [List.foldl_cons, ih h.2, mem_entries_insert, List.mem_cons]
    · have hkept : e ∈ d.entries → e.1 ≠ x.1 := fun he heq => hd e he (by simp [heq])
      constructor
      · rintro ((he | he) | he)
        · exact .inr (.inl he)
        · exact .inl he.1
        · exact .inr (.inr he)
      · rintro (he | he | he)
        · exact .inl (.inr ⟨he, hkept he⟩)
        · exact .inl (.inl he)
        · exact .inr he
    · intro y hy
      rcases mem_entries_insert.1 hy with rfl | ⟨hy, -⟩
      · exact h.1
      · exact fun hmem => hd y hy (by simp [hmem])

theorem mem_keys_iff {d : Dictionary α} {k : String} : k ∈ d.keys ↔ (d.get? k).isSome = true := by
  rw [keys, List.mem_map, get?, Option.isSome_map, List.find?_isSome]
  simp

end Dictionary

end TemplateEngine
