import Mathlib.Data.List.Induction
import Mathlib.Logic.Function.Basic
import TemplateEngine.Overrides

/-!
# OverrideTable — what a table of overrides tells after any requests

Requests are made of a new table one after the other; those that are refused leave it as it was.

* `set_cases`: the four ways in which a request can end, each with what it says about the table.
* `Records entered o`: `o` holds for each fragment the first replacement among the requests `entered`, and
  no replacement has one of its own.  One request keeps this (`Records.request`), so any number of them
  does (`records_after`).
* `resolves_after`: looking up is done in one step, and the requests accepted so far decide what becomes of
  the next one.
-/

namespace TemplateEngine

/-- A request to insert `newId` instead of the fragment `id`. -/
structure OverrideRequest where
  id : String
  newId : String
  deriving DecidableEq, Repr

namespace Overrides

/-! ### Requests -/

/-- The answer to a request. -/
def answer (o : Overrides) (q : OverrideRequest) : Except OverrideError Overrides := o.set q.id q.newId

/-- The table after a request; one that is refused changes nothing. -/
def request (o : Overrides) (q : OverrideRequest) : Overrides :=
  match o.answer q with
  | .ok o' => o'
  | .error _ => o

/-- A table and the requests it accepted, oldest first, after one more request. -/
def enter (h : Overrides × List OverrideRequest) (q : OverrideRequest) :
    Overrides × List OverrideRequest :=
  (h.1.request q, if (h.1.answer q).isOk then h.2 ++ [q] else h.2)

/-- A new table after requests, and those of them that it accepted. -/
def history (qs : List OverrideRequest) : Overrides × List OverrideRequest := qs.foldl enter (empty, [])

/-- A new table after requests. -/
def after (qs : List OverrideRequest) : Overrides := (history qs).1

/-- The requests that a new table accepts, oldest first. -/
def accepted (qs : List OverrideRequest) : List OverrideRequest := (history qs).2

theorem history_concat (qs : List OverrideRequest) (q : OverrideRequest) :
    history (qs ++ [q]) = enter (history qs) q := by
  simp [history]

theorem after_concat (qs : List OverrideRequest) (q : OverrideRequest) :
    after (qs ++ [q]) = (after qs).request q := by
  rw [after, history_concat]
  rfl

theorem accepted_concat (qs : List OverrideRequest) (q : OverrideRequest) :
    accepted (qs ++ [q]) =
      if ((after qs).answer q).isOk then accepted qs ++ [q] else accepted qs := by
  rw [accepted, history_concat]
  rfl

/-! ### One request -/

variable {o : Overrides} {entered : List OverrideRequest} {q : OverrideRequest}

theorem isTarget_iff {id : String} : o.isTarget id = true ↔ ∃ x, o.table.get? x = some id := by
  simp [isTarget, Dictionary.get?_eq_some_iff]

/-- How a request ends. -/
theorem set_cases (o : Overrides) (q : OverrideRequest) :
    ((∃ y, o.table.get? q.newId = some y) ∧
      o.answer q = .error (.targetOverridden q.id q.newId)) ∨
    (o.table.get? q.newId = none ∧ (∃ x, o.table.get? x = some q.id) ∧
      o.answer q = .error (.sourceIsTarget q.id)) ∨
    (o.table.get? q.newId = none ∧ (∀ x, o.table.get? x ≠ some q.id) ∧
      (∃ y, o.table.get? q.id = some y) ∧ o.answer q = .ok o) ∨
    (o.table.get? q.newId = none ∧ (∀ x, o.table.get? x ≠ some q.id) ∧
      o.table.get? q.id = none ∧ o.answer q = .ok ⟨o.table.insert q.id q.newId⟩) := by
  unfold answer set
  cases htarget : o.table.get? q.newId with
  | some y => exact .inl ⟨⟨y, rfl⟩, rfl⟩
  | none =>
    right
    by_cases hsource : o.isTarget q.id = true
    · left
      refine ⟨rfl, isTarget_iff.1 hsource, ?_⟩
      simp [hsource]
    · right
      have hfree : ∀ x, o.table.get? x ≠ some q.id := fun x hx => hsource (isTarget_iff.2 ⟨x, hx⟩)
      cases hold : o.table.get? q.id with
      | some y => exact .inl ⟨rfl, hfree, ⟨y, rfl⟩, by simp [hsource]⟩
      | none => exact .inr ⟨rfl, hfree, rfl, by simp [hsource]⟩

/-! ### Any number of requests -/

/-- The table holds the first of the accepted requests for each fragment, and no replacement is replaced
by something else. -/
structure Records (entered : List OverrideRequest) (o : Overrides) : Prop where
  first : ∀ x, o.table.get? x = (entered.find? (·.id = x)).map (·.newId)
  unchained : ∀ x y, o.table.get? x = some y → o.get y = y

theorem records_empty : Records [] empty where
  first _ := rfl
  unchained x y h := by cases h

theorem Records.isSome_iff (h : Records entered o) {x : String} :
    (∃ y, o.table.get? x = some y) ↔ ∃ p ∈ entered, p.id = x := by
  rw [← Option.isSome_iff_exists, h.first]
  simp

theorem Records.request (h : Records entered o) (q : OverrideRequest) :
    Records (if (o.answer q).isOk then entered ++ [q] else entered) (o.request q) := by
  unfold Overrides.request
  obtain ⟨-, hset⟩ | ⟨-, -, hset⟩ | ⟨-, -, hold, hset⟩ | ⟨htarget, hsource, hnew, hset⟩ := set_cases o q
  · rw [hset]
    exact h
  · rw [hset]
    exact h
  · -- the fragment has an entry, so a later request for it is not the first one
    rw [hset]
    refine ⟨fun x => ?_, h.unchained⟩
    obtain ⟨y, hy⟩ := hold
    show o.table.get? x = ((entered ++ [q]).find? (·.id = x)).map (·.newId)
    rw [List.find?_append]
    cases hfind : entered.find? (·.id = x) with
    | some p => rw [h.first, hfind]; rfl
    | none =>
      have hne : q.id ≠ x := by
        rintro rfl
        rw [h.first, hfind] at hy
        cases hy
      simp [h.first, hfind, hne]
  · rw [hset]
    refine ⟨fun x => ?_, fun x y hxy => ?_⟩
    · show (o.table.insert q.id q.newId).get? x = ((entered ++ [q]).find? (·.id = x)).map (·.newId)
      rw [Dictionary.get?_insert, List.find?_append]
      by_cases hx : q.id = x
      · subst hx
        have hnone : entered.find? (·.id = q.id) = none := by
          rw [h.first] at hnew
          simpa using hnew
        simp [hnone]
      · rw [if_neg hx, h.first]
        cases entered.find? (·.id = x) <;> simp [hx]
    · -- what is replaced now was no replacement, and the new replacement has no entry
      change (o.table.insert q.id q.newId).get? x = some y at hxy
      show ((o.table.insert q.id q.newId).get? y).getD y = y
      rw [Dictionary.get?_insert] at hxy ⊢
      by_cases hx : q.id = x
      · rw [if_pos hx] at hxy
        obtain rfl := Option.some.inj hxy
        by_cases hself : q.id = q.newId
        · simp [hself]
        · simp [hself, htarget]
      · rw [if_neg hx] at hxy
        have hy : q.id ≠ y := fun heq => hsource x (heq ▸ hxy)
        rw [if_neg hy]
        exact h.unchained x y hxy

theorem records_after (qs : List OverrideRequest) : Records (accepted qs) (after qs) := by
  induction qs using List.reverseRecOn with
  | nil => exact records_empty
  | append_singleton qs q ih =>
    rw [after_concat, accepted_concat]
    exact ih.request q

/-! ### What a table tells -/

/-- What a table tells after requests of which `entered` were accepted, and what it answers next. -/
structure Resolves (entered : List OverrideRequest) (o : Overrides) : Prop where
  /-- What stands in for a fragment stands for itself. -/
  single : ∀ x, o.get (o.get x) = o.get x
  /-- The first accepted request for a fragment counts. -/
  first : ∀ x, o.get x = ((entered.find? (·.id = x)).map (·.newId)).getD x
  targetOverridden : ∀ q : OverrideRequest,
    o.answer q = .error (.targetOverridden q.id q.newId) ↔ ∃ p ∈ entered, p.id = q.newId
  sourceIsTarget : ∀ q : OverrideRequest, o.answer q = .error (.sourceIsTarget q.id) ↔
    (∀ p ∈ entered, p.id ≠ q.newId) ∧ ∃ p ∈ entered, o.get p.id = q.id
  isOk : ∀ q : OverrideRequest, (o.answer q).isOk = true ↔
    (∀ p ∈ entered, p.id ≠ q.newId) ∧ ∀ p ∈ entered, o.get p.id ≠ q.id
  /-- The table changes with the first accepted request for a fragment only, and only for that fragment. -/
  next : ∀ q : OverrideRequest, (o.request q).get =
    if (o.answer q).isOk ∧ ∀ p ∈ entered, p.id ≠ q.id then Function.update o.get q.id q.newId
    else o.get

theorem get_of_get? {x y : String} (h : o.table.get? x = some y) : o.get x = y := by
  simp [get, h]

theorem Records.get_eq (h : Records entered o) {p : OverrideRequest} (hp : p ∈ entered) :
    o.table.get? p.id = some (o.get p.id) := by
  obtain ⟨y, hy⟩ := h.isSome_iff.2 ⟨p, hp, rfl⟩
  rw [hy, get_of_get? hy]

theorem Records.isTarget_iff (h : Records entered o) {id : String} :
    (∃ x, o.table.get? x = some id) ↔ ∃ p ∈ entered, o.get p.id = id := by
  constructor
  · rintro ⟨x, hx⟩
    obtain ⟨p, hp, rfl⟩ := h.isSome_iff.1 ⟨id, hx⟩
    exact ⟨p, hp, get_of_get? hx⟩
  · rintro ⟨p, hp, rfl⟩
    exact ⟨p.id, h.get_eq hp⟩

theorem Records.get?_eq_none_iff (h : Records entered o) {x : String} :
    o.table.get? x = none ↔ ∀ p ∈ entered, p.id ≠ x := by
  rw [h.first]
  simp

theorem Records.resolves (h : Records entered o) : Resolves entered o where
  single x := by
    cases hx : o.table.get? x with
    | none =>
      have hself : o.get x = x := by simp [get, hx]
      rw [hself, hself]
    | some y => rw [get_of_get? hx, h.unchained x y hx]
  first x := by rw [get, h.first]
  targetOverridden q := by
    rw [← h.isSome_iff]
    obtain ⟨htarget, hset⟩ | ⟨htarget, -, hset⟩ | ⟨htarget, -, -, hset⟩ | ⟨htarget, -, -, hset⟩ :=
      set_cases o q
    all_goals simp [hset, htarget]
  sourceIsTarget q := by
    rw [← h.get?_eq_none_iff, ← h.isTarget_iff]
    obtain ⟨⟨y, hy⟩, hset⟩ | ⟨htarget, hsource, hset⟩ | ⟨-, hsource, -, hset⟩ | ⟨-, hsource, -, hset⟩ :=
      set_cases o q
    · simp [hset, hy]
    · simp [hset, htarget, hsource]
    all_goals simp [hset, hsource]
  isOk q := by
    have hfree : (∀ p ∈ entered, o.get p.id ≠ q.id) ↔ ∀ x, o.table.get? x ≠ some q.id := by
      simpa using not_congr h.isTarget_iff.symm
    rw [← h.get?_eq_none_iff, hfree]
    obtain ⟨⟨y, hy⟩, hset⟩ | ⟨-, ⟨x, hx⟩, hset⟩ | ⟨htarget, hsource, -, hset⟩ | ⟨htarget, hsource, -, hset⟩ :=
      set_cases o q
    · simp [hset, hy, Except.isOk, Except.toBool]
    · simpa [hset, Except.isOk, Except.toBool] using fun _ => ⟨x, hx⟩
    all_goals simp [hset, htarget, hsource, Except.isOk, Except.toBool]
  next q := by
    have hfirst := h.get?_eq_none_iff (x := q.id)
    unfold Overrides.request
    obtain ⟨-, hset⟩ | ⟨-, -, hset⟩ | ⟨-, -, ⟨y, hy⟩, hset⟩ | ⟨-, -, hnew, hset⟩ := set_cases o q
    · simp [hset, Except.isOk, Except.toBool]
    · simp [hset, Except.isOk, Except.toBool]
    · rw [hset, if_neg]
      rintro ⟨-, hnew⟩
      rw [hfirst.2 hnew] at hy
      cases hy
    · rw [hset, if_pos ⟨rfl, hfirst.1 hnew⟩]
      funext x
      show ((o.table.insert q.id q.newId).get? x).getD x = _
      rw [Dictionary.get?_insert]
      by_cases hx : q.id = x
      · simp [hx]
      · rw [if_neg hx, Function.update_of_ne (Ne.symm hx)]
        rfl

/-- Overrides never chain: after any requests of a new table looking up is done in one step, the first
accepted request for a fragment counts, and what was accepted so far decides about the next request. -/
theorem resolves_after (qs : List OverrideRequest) : Resolves (accepted qs) (after qs) :=
  (records_after qs).resolves

/-- A fragment that stands in for itself is no longer free to stand in for another one. -/
example : (after [⟨"A", "A"⟩, ⟨"A", "B"⟩]).answer ⟨"C", "A"⟩ = .error (.targetOverridden "C" "A") := by
  decide

end Overrides

end TemplateEngine
