/-!
# NameSet — finite sets of names

A set of names is its strictly increasing list, so equal sets are equal values.
-/

namespace TemplateEngine

/-- A finite set of names, listed in increasing order. -/
structure NameSet where
  names : List String
  increasing : names.Pairwise (· < ·)
  deriving DecidableEq

namespace NameSet

/-- The list with `x` put in its place, unless it is there already. -/
def insertSorted (x : String) : List String → List String
  | [] => [x]
  | y :: ys => if x < y then x :: y :: ys else if x = y then y :: ys else y :: insertSorted x ys

theorem mem_insertSorted {x z : String} {l : List String} :
    z ∈ insertSorted x l ↔ z = x ∨ z ∈ l := by
  induction l with
  | nil => simp [insertSorted]
  | cons y ys ih =>
    unfold insertSorted
    split
    · simp
    · split
      · rename_i h
        subst h
        simp
      · simp only [List.mem_cons, ih]
        exact ⟨fun h => by rcases h with h | h | h <;> simp [h],
          fun h => by rcases h with h | h | h <;> simp [h]⟩

theorem pairwise_insertSorted (x : String) {l : List String} (h : l.Pairwise (· < ·)) :
    (insertSorted x l).Pairwise (· < ·) := by
  induction l with
  | nil => simp [insertSorted]
  | cons y ys ih =>
    obtain ⟨h1, h2⟩ := List.pairwise_cons.1 h
    unfold insertSorted
    split
    · rename_i hlt
      refine List.pairwise_cons.2 ⟨fun z hz => ?_, h⟩
      rcases List.mem_cons.1 hz with rfl | hz
      · exact hlt
      · exact String.lt_trans hlt (h1 z hz)
    · split
      · exact h
      · rename_i hlt hne
        refine List.pairwise_cons.2 ⟨fun z hz => ?_, ih h2⟩
        rcases mem_insertSorted.1 hz with rfl | hz
        · refine Decidable.byContradiction fun hn => hne ?_
          exact String.le_antisymm (String.not_lt.1 hn) (String.not_lt.1 hlt)
        · exact h1 z hz

/-- The set without names. -/
def empty : NameSet := ⟨[], .nil⟩

/-- The set with one more name. -/
def insert (s : NameSet) (x : String) : NameSet :=
  ⟨insertSorted x s.names, pairwise_insertSorted x s.increasing⟩

/-- The set with more names. -/
def insertAll (s : NameSet) (xs : List String) : NameSet := xs.foldl insert s

/-- The set of the names of a list. -/
def ofList (xs : List String) : NameSet := empty.insertAll xs

/-- Whether a name is in the set. -/
def contains (s : NameSet) (x : String) : Bool := s.names.contains x

instance : Inhabited NameSet := ⟨empty⟩

@[simp] theorem names_empty : empty.names = [] := rfl

@[simp] theorem mem_insert {s : NameSet} {x z : String} :
    z ∈ (s.insert x).names ↔ z = x ∨ z ∈ s.names := mem_insertSorted

theorem mem_insertAll {s : NameSet} {xs : List String} {z : String} :
    z ∈ (s.insertAll xs).names ↔ z ∈ xs ∨ z ∈ s.names := by
  induction xs generalizing s with
  | nil => simp [insertAll]
  | cons x xs ih =>
    have : s.insertAll (x :: xs) = (s.insert x).insertAll xs := rfl
    rw [this, ih, mem_insert, List.mem_cons]
    exact ⟨fun h => by rcases h with h | h | h <;> simp [h],
      fun h => by rcases h with (h | h) | h <;> simp [h]⟩

/-- Two sets with the same members are equal. -/
theorem ext_mem {s t : NameSet} (h : ∀ x, x ∈ s.names ↔ x ∈ t.names) : s = t := by
  obtain ⟨l, hl⟩ := s
  obtain ⟨m, hm⟩ := t
  have key : ∀ (l m : List String), l.Pairwise (· < ·) → m.Pairwise (· < ·) →
      (∀ x, x ∈ l ↔ x ∈ m) → l = m := by
    intro l
    induction l with
    | nil =>
      intro m _ _ h
      cases m with
      | nil => rfl
      | cons y ys => exact absurd ((h y).2 (by simp)) (by simp)
    | cons x xs ih =>
      intro m hl hm h
      cases m with
      | nil => exact absurd ((h x).1 (by simp)) (by simp)
      | cons y ys =>
        obtain ⟨hx, hxs⟩ := List.pairwise_cons.1 hl
        obtain ⟨hy, hys⟩ := List.pairwise_cons.1 hm
        have hxy : x = y := by
          rcases List.mem_cons.1 ((h x).1 (by simp)) with e | e
          · exact e
          · rcases List.mem_cons.1 ((h y).2 (by simp)) with e' | e'
            · exact e'.symm
            · exact absurd (String.lt_trans (hy x e) (hx y e')) (String.lt_irrefl y)
        subst hxy
        refine congrArg _ (ih ys hxs hys fun z => ⟨fun hz => ?_, fun hz => ?_⟩)
        · rcases List.mem_cons.1 ((h z).1 (List.mem_cons_of_mem _ hz)) with e | e
          · exact absurd (hx z hz) (e ▸ String.lt_irrefl _)
          · exact e
        · rcases List.mem_cons.1 ((h z).2 (List.mem_cons_of_mem _ hz)) with e | e
          · exact absurd (hy z hz) (e ▸ String.lt_irrefl _)
          · exact e
  have := key l m hl hm h
  subst this
  rfl

theorem ofList_names (s : NameSet) : ofList s.names = s :=
  ext_mem fun x => by simp [ofList, mem_insertAll]

end NameSet

end TemplateEngine
