import TemplateEngine.Proofs.SafeExpansion

/-!
# Bystanders — the bookmarks beside the one whose text is replaced

The bookmarks of other commands are bystanders of the one that is executed.  Where they lie apart from
its own, an edit loses none of them and keeps their order (`Document.Spares`).  The edited bookmark
stays behind what is before it and before what is behind it, except that of two empty bookmarks at one
place the other one is not moved (`Document.Overwrites`).
-/

namespace TemplateEngine

/-! ### Spans beside an edit -/

namespace Span

/-- An edit keeps the order of spans. -/
theorem stop_le_start_reanchor {s t s' t' edited : Span} {n : Nat} (hs : s.start ≤ s.stop)
    (ht : t.start ≤ t.stop) (h : s.stop ≤ t.start) (hs' : s.reanchor edited n = some s')
    (ht' : t.reanchor edited n = some t') : s'.stop ≤ t'.start := by
  unfold reanchor moved at hs' ht'
  dsimp only [point] at hs' ht'
  split_ifs at hs' ht' <;> obtain rfl := Option.some.inj hs' <;> obtain rfl := Option.some.inj ht' <;>
    grind

/-- What is before an edit stays before the new text. -/
theorem reanchor_stop_le {s s' edited : Span} {n : Nat} (h : s.stop ≤ edited.start)
    (hs' : s.reanchor edited n = some s') : s'.stop ≤ edited.start := by
  unfold reanchor moved at hs'
  dsimp only [point] at hs'
  split_ifs at hs' <;> obtain rfl := Option.some.inj hs' <;> grind

/-- What is behind an edit comes behind the new text, unless it is the edited span itself. -/
theorem le_reanchor_start {s s' edited : Span} {n : Nat} (hs : s.start ≤ s.stop)
    (he : edited.start ≤ edited.stop) (h : edited.stop ≤ s.start)
    (hs' : s.reanchor edited n = some s') :
    edited.start + n ≤ s'.start ∨ (edited = point s.start ∧ s = point s.start) := by
  obtain ⟨a, b⟩ := s
  obtain ⟨p, q⟩ := edited
  unfold reanchor moved at hs'
  simp only [point, mk.injEq, true_and] at *
  split_ifs at hs' <;> obtain rfl := Option.some.inj hs' <;> grind

/-- A span apart from an edit is not lost. -/
theorem isSome_reanchor_of_apart {s edited : Span} (n : Nat) (hs : s.start ≤ s.stop)
    (h : s.stop ≤ edited.start ∨ edited.stop ≤ s.start) : (s.reanchor edited n).isSome = true := by
  unfold reanchor
  dsimp only [point]
  split_ifs <;> grind

/-- Whether replacing the span `s`, if it lies inside `outer`, keeps `outer`: it is empty or touches no
end. -/
def Yields (outer s : Span) : Prop :=
  s.start = s.stop ∨ (outer.start < s.start ∧ s.stop < outer.stop)

theorem isSome_reanchor_of_yields {outer edited : Span} (n : Nat) (h : outer.Yields edited) :
    (outer.reanchor edited n).isSome = true := by
  unfold Yields at h
  unfold reanchor
  dsimp only [point]
  split_ifs <;> grind

/-- A span apart from `outer` is not lost with a span inside `outer`. -/
theorem isSome_reanchor_of_apart_outer {s outer edited : Span} (n : Nat) (hs : s.start ≤ s.stop)
    (hyields : outer.Yields edited) (h : s.stop ≤ outer.start ∨ outer.stop ≤ s.start) :
    (s.reanchor edited n).isSome = true := by
  rcases hyields with hpoint | hinside
  · exact isSome_reanchor_of_yields n (.inl hpoint)
  · exact isSome_reanchor_of_apart n hs (by omega)

theorem yields_reanchor {outer outer' s s' edited : Span} {n : Nat} (hs : s.start ≤ s.stop)
    (he : edited.start ≤ edited.stop) (hyields : outer.Yields edited) (h : outer.Yields s)
    (ho : outer.reanchor edited n = some outer') (hs' : s.reanchor edited n = some s') :
    outer'.Yields s' := by
  unfold Yields at *
  unfold reanchor moved at ho hs'
  dsimp only [point] at ho hs'
  split_ifs at ho hs' <;> obtain rfl := Option.some.inj ho <;> obtain rfl := Option.some.inj hs' <;>
    grind

/-- A span that lies in the new text after the edit is empty. -/
theorem isCollapsed_of_within_new {s s' edited : Span} {n : Nat} (hs : s.start ≤ s.stop)
    (h : s.reanchor edited n = some s')
    (hw : s'.within ⟨edited.start, edited.start + n⟩ = true) : s'.start = s'.stop := by
  simp only [within, Bool.and_eq_true, decide_eq_true_eq] at hw
  unfold reanchor moved at h
  dsimp only [point] at h
  split_ifs at h <;> obtain rfl := Option.some.inj h <;> grind

/-- Where only empty spans lie in a span, only empty ones do after an insertion inside of it. -/
theorem isCollapsed_of_within_widened {s s' edited : Span} {a b n : Nat}
    (he : edited.start = edited.stop) (hin : a < edited.start ∧ edited.stop < b)
    (hempty : s.within ⟨a, b⟩ = true → s.start = s.stop) (h : s.reanchor edited n = some s')
    (hw : s'.within ⟨a, b + n⟩ = true) : s'.start = s'.stop := by
  simp only [within, Bool.and_eq_true, decide_eq_true_eq] at hw hempty
  unfold reanchor moved at h
  dsimp only [point] at h
  split_ifs at h <;> obtain rfl := Option.some.inj h <;> grind

end Span

/-! ### Bookmarks and fields of an edited document -/

namespace Document

/-- A well-formed document whose fields are numbered. -/
structure Consistent (d : Document) : Prop extends d.WellFormed where
  ids : (d.fields.map (·.id)).Nodup
  fresh : ∀ f ∈ d.fields, f.id < d.nextFieldId

/-- The span of the bookmark of that name. -/
def span? (d : Document) (name : String) : Option Span := (d.bookmark? name).map (·.span)

theorem fits_of_span? {d : Document} (hd : d.WellFormed) {name : String} {s : Span}
    (h : d.span? name = some s) : s.fits d.text = true := by
  obtain ⟨b, hb, rfl⟩ := Option.map_eq_some_iff.1 h
  exact fits_of_bookmark? hd hb

theorem isSome_span?_iff {d : Document} {name : String} :
    (d.span? name).isSome = true ↔ name ∈ d.names := by
  rw [span?, Option.isSome_map, isSome_bookmark?_iff]

theorem span?_of_mem {d : Document} (hd : d.names.Nodup) {b : Bookmark} (hb : b ∈ d.bookmarks) :
    d.span? b.name = some b.span := by
  obtain ⟨b', hb'⟩ := Option.isSome_iff_exists.1
    (isSome_bookmark?_iff.2 (List.mem_map_of_mem hb : b.name ∈ d.names))
  have hname : b'.name = b.name := by simpa using List.find?_some hb'
  obtain rfl := List.inj_on_of_nodup_map hd (List.mem_of_find?_eq_some hb') hb hname
  rw [span?, hb']
  rfl

/-- The bookmarks that do not own an edit follow it. -/
theorem span?_replaced {d : Document} (hd : d.names.Nodup) {e : Replacement} {text : Text}
    {name : String} (howner : e.owner ≠ some (.bookmark name)) :
    (d.replaced e text).span? name = (d.span? name).bind e.follow := by
  unfold span? bookmark?
  show ((d.bookmarks.filterMap e.bookmark?).find? (fun b => b.name = name)).map (·.span) = _
  unfold names at hd
  generalize d.bookmarks = bs at hd
  induction bs with
  | nil => rfl
  | cons b bs ih =>
    rw [List.map_cons, List.nodup_cons] at hd
    rw [List.find?_cons]
    by_cases hname : b.name = name
    · have hkeep : e.bookmark? b = (e.follow b.span).map fun s => { b with span := s } := by
        rw [Replacement.bookmark?, if_neg (hname ▸ howner)]
      have hnone : (bs.filterMap e.bookmark?).find? (fun b => b.name = name) = none := by
        rw [List.find?_eq_none]
        intro b' hb' heq
        obtain ⟨b₀, hb₀, hb'⟩ := List.mem_filterMap.1 hb'
        refine hd.1 (List.mem_map.2 ⟨b₀, hb₀, ?_⟩)
        rw [← name_of_bookmark? hb', of_decide_eq_true heq, hname]
      cases hfollow : e.follow b.span with
      | none => simp [hkeep, hfollow, hname, hnone]
      | some s => simp [hkeep, hfollow, hname]
    · cases hkeep : e.bookmark? b with
      | none => simpa [hkeep, hname] using ih hd.2
      | some b' =>
        have hname' : b'.name ≠ name := name_of_bookmark? hkeep ▸ hname
        simpa [hkeep, hname, hname'] using ih hd.2

theorem span?_edited {d : Document} (hd : d.WellFormed) {a m c new : Text}
    (htext : d.text = a ++ m ++ c) {owner : Option Owner} {name : String}
    (howner : owner ≠ some (.bookmark name)) :
    (d.replaced (replacementOf a m c new owner) (a ++ new ++ c)).span? name =
      (d.span? name).bind fun s =>
        s.reanchor ⟨Text.byteLength a, Text.byteLength (a ++ m)⟩ (Text.byteLength new) := by
  rw [span?_replaced hd.names howner]
  cases h : d.span? name with
  | none => rfl
  | some s => exact Span.follow_eq_reanchor (htext ▸ fits_of_span? hd h)

theorem span?_edited_owner {d : Document} {a m c new : Text} {name : String} {s : Span}
    (h : d.span? name = some s) :
    (d.replaced (replacementOf a m c new (some (.bookmark name))) (a ++ new ++ c)).span? name =
      some ⟨Text.byteLength a, Text.byteLength (a ++ new)⟩ := by
  obtain ⟨b, hb, -⟩ := Option.map_eq_some_iff.1 h
  rw [span?, bookmark?_replaced_owner hb rfl, newSpan_replacementOf]
  rfl

/-- Fields follow an edit; the one that owns it covers the new text. -/
theorem follows_of_mem_fields_edited {d : Document} (hd : d.WellFormed) {a m c new : Text}
    (htext : d.text = a ++ m ++ c) {owner : Option Owner} {f : Field}
    (hf : f ∈ (d.replaced (replacementOf a m c new owner) (a ++ new ++ c)).fields) :
    ∃ f₀ ∈ d.fields, f.id = f₀.id ∧
      (f₀.span.reanchor ⟨Text.byteLength a, Text.byteLength (a ++ m)⟩ (Text.byteLength new) =
          some f.span ∨
        (owner = some (.field f₀.id) ∧ f.span = ⟨Text.byteLength a, Text.byteLength (a ++ new)⟩)) := by
  obtain ⟨f₀, hf₀, hfollow⟩ := List.mem_filterMap.1 hf
  unfold Replacement.field? at hfollow
  split at hfollow
  next howner =>
    obtain rfl := Option.some.inj hfollow
    exact ⟨f₀, hf₀, rfl, .inr ⟨howner, newSpan_replacementOf a m c new owner⟩⟩
  next =>
    obtain ⟨s, hs, rfl⟩ := Option.map_eq_some_iff.1 hfollow
    exact ⟨f₀, hf₀, rfl, .inl (Span.follow_eq_reanchor (htext ▸ hd.fields f₀ hf₀) ▸ hs)⟩

theorem exists_of_mem_fields_edited {d : Document} (hd : d.WellFormed) {a m c new : Text}
    (htext : d.text = a ++ m ++ c) {owner : Option Owner} (howner : ∀ id, owner ≠ some (.field id))
    {f : Field} (hf : f ∈ (d.replaced (replacementOf a m c new owner) (a ++ new ++ c)).fields) :
    ∃ f₀ ∈ d.fields, f.id = f₀.id ∧ f₀.span.reanchor
      ⟨Text.byteLength a, Text.byteLength (a ++ m)⟩ (Text.byteLength new) = some f.span := by
  obtain ⟨f₀, hf₀, hid, hfollow⟩ := follows_of_mem_fields_edited hd htext hf
  exact ⟨f₀, hf₀, hid, hfollow.resolve_right fun h => howner _ h.1⟩

theorem map_id_filterMap_sublist (e : Replacement) (fs : List Field) :
    ((fs.filterMap e.field?).map (·.id)).Sublist (fs.map (·.id)) := by
  induction fs with
  | nil => exact .slnil
  | cons f fs ih =>
    cases h : e.field? f with
    | none => simpa [h] using ih.cons _
    | some f' =>
      have hid : f'.id = f.id := by
        unfold Replacement.field? at h
        split at h
        · obtain rfl := Option.some.inj h
          rfl
        · obtain ⟨s, -, rfl⟩ := Option.map_eq_some_iff.1 h
          rfl
      simpa [h, hid] using ih

theorem consistent_replaced {d : Document} (hd : d.Consistent) {a m c : Text}
    (h : d.text = a ++ m ++ c) (new : Text) (owner : Option Owner) :
    (d.replaced (replacementOf a m c new owner) (a ++ new ++ c)).Consistent where
  toWellFormed := wellFormed_replaced hd.toWellFormed h new owner
  ids := hd.ids.sublist (map_id_filterMap_sublist _ _)
  fresh := by
    intro f hf
    have hid := (map_id_filterMap_sublist _ _).subset (List.mem_map_of_mem hf)
    obtain ⟨f₀, hf₀, heq⟩ := List.mem_map.1 hid
    exact heq ▸ hd.fresh f₀ hf₀

/-! ### Renaming and removing a bookmark -/

theorem span_renameFirst_new {name new : String} {bs : List Bookmark}
    (hnew : new ∈ bs.map (·.name) → new = name) :
    ((renameFirst name new bs).find? (·.name = new)).map (·.span) =
      (bs.find? (·.name = name)).map (·.span) := by
  induction bs with
  | nil => rfl
  | cons b bs ih =>
    unfold renameFirst
    by_cases hb : b.name = name
    · simp [hb]
    · have hbn : b.name ≠ new := fun heq => hb (heq.trans (hnew (by simp [heq])))
      simpa [hb, hbn] using ih fun h => hnew (by simp at h ⊢; exact .inr h)

theorem find_renameFirst_other {name new y : String} (hy : y ≠ name) (hyn : y ≠ new)
    (bs : List Bookmark) :
    (renameFirst name new bs).find? (·.name = y) = bs.find? (·.name = y) := by
  induction bs with
  | nil => rfl
  | cons b bs ih =>
    unfold renameFirst
    by_cases hb : b.name = name
    · simp [hb, hy.symm, hyn.symm]
    · rw [if_neg hb, List.find?_cons, List.find?_cons, ih]

/-- Renaming keeps the bookmark's span and those of the other bookmarks. -/
theorem span?_renameBookmark {d d' : Document} {name new unique : String}
    (h : d.renameBookmark name new = .ok (d', unique)) :
    d'.span? unique = d.span? name ∧
      ∀ y ∈ d.names, y ≠ name → d'.span? y = d.span? y ∧ y ≠ unique := by
  unfold renameBookmark at h
  split at h
  · cases h
    have hfree := uniqueName_free d new (some name)
    have honly : ∀ y ∈ d.names, y = d.uniqueName new (some name) → y = name := by
      rintro y hy rfl
      by_contra hne
      rw [Bool.eq_false_iff] at hfree
      exact hfree (isTaken_iff.2 ⟨hy, by simpa using hne⟩)
    refine ⟨span_renameFirst_new fun hmem => honly _ hmem rfl, fun y hy hne => ?_⟩
    have hyu : y ≠ d.uniqueName new (some name) := fun heq => hne (honly y hy heq)
    exact ⟨congrArg (Option.map _) (find_renameFirst_other hne hyu d.bookmarks), hyu⟩
  · cases h

/-- What a bookmark was called before `old` was renamed to `new`. -/
def originOf (old new n : String) : String := if n = new then old else n

@[simp] theorem originOf_new (old new : String) : originOf old new new = old := if_pos rfl

theorem originOf_of_ne {old new n : String} (h : n ≠ new) : originOf old new n = n := if_neg h

section Renamed

variable {d d' : Document} {name new unique : String} (hd : d.names.Nodup)
  (h : d.renameBookmark name new = .ok (d', unique))

include hd h

theorem span?_originOf {n : String} {s : Span} (hs : d'.span? n = some s) :
    d.span? (originOf name unique n) = some s := by
  obtain ⟨hown, hothers⟩ := span?_renameBookmark h
  rcases eq_or_ne n unique with rfl | hne
  · rwa [originOf_new, ← hown]
  · have hmem : n ∈ d'.names := isSome_span?_iff.1 (Option.isSome_iff_exists.2 ⟨s, hs⟩)
    obtain ⟨hold, hname⟩ := ((names_renameBookmark hd h).2.2 n hmem).resolve_left hne
    rwa [originOf_of_ne hne, ← (hothers n hold hname).1]

theorem originOf_ne_originOf {m n : String} (hm : m ∈ d'.names) (hn : n ∈ d'.names) (hne : m ≠ n) :
    originOf name unique m ≠ originOf name unique n := by
  have hother : ∀ k ∈ d'.names, k ≠ unique → k ≠ name := fun k hk hku =>
    (((names_renameBookmark hd h).2.2 k hk).resolve_left hku).2
  rcases eq_or_ne m unique with rfl | hmu
  · rw [originOf_new, originOf_of_ne hne.symm]
    exact (hother n hn hne.symm).symm
  · rcases eq_or_ne n unique with rfl | hnu
    · rw [originOf_new, originOf_of_ne hmu]
      exact hother m hm hmu
    · rwa [originOf_of_ne hmu, originOf_of_ne hnu]

end Renamed

theorem span?_removeBookmark {d d' : Document} {name y : String} (hy : y ≠ name)
    (h : d.removeBookmark name = .ok d') : d'.span? y = d.span? y := by
  unfold removeBookmark at h
  split at h
  · cases h
    simp only [span?, bookmark?, List.find?_filter]
    congr 2
    funext b
    by_cases hb : b.name = y <;> simp [hb, hy]
  · cases h

/-- Bookmarks that are left when one is removed were there. -/
theorem span?_of_span?_removeBookmark {d d' : Document} {name n : String} {s : Span}
    (h : d.removeBookmark name = .ok d') (hs : d'.span? n = some s) : d.span? n = some s := by
  rcases eq_or_ne n name with rfl | hne
  · have hmem := isSome_span?_iff.1 (Option.isSome_iff_exists.2 ⟨s, hs⟩)
    rw [names_removeBookmark h] at hmem
    simp at hmem
  · rwa [span?_removeBookmark hne h] at hs

theorem Consistent.withBookmarks {d d' : Document} (hd : d.Consistent) (h : d.DifferInBookmarks d')
    (hd' : d'.WellFormed) : d'.Consistent :=
  ⟨hd', h.fields ▸ hd.ids, by rw [h.fields, h.nextFieldId]; exact hd.fresh⟩

theorem consistent_markDone {c : Command} {d : Document} (hd : d.Consistent) (remove : Bool) :
    (c.markDone d remove).2.Consistent :=
  hd.withBookmarks (c.differInBookmarks_markDone d remove) (Command.wellFormed_markDone hd.toWellFormed remove)

theorem consistent_withoutField {d : Document} (hd : d.Consistent) (id : Nat) :
    ({ d with fields := d.fields.filter (·.id ≠ id) } : Document).Consistent where
  names := hd.names
  bookmarks := hd.bookmarks
  fields := fun f hf => hd.fields f (List.mem_filter.1 hf).1
  annotations := hd.annotations
  cursor := hd.cursor
  ids := hd.ids.sublist (List.filter_sublist.map _)
  fresh := fun f hf => hd.fresh f (List.mem_filter.1 hf).1

/-! ### The order of bookmarks -/

/-- Whether both bookmarks are there and the first one ends at or before the start of the second. -/
def Before (d : Document) (m n : String) : Prop :=
  ∃ s t, d.span? m = some s ∧ d.span? n = some t ∧ s.stop ≤ t.start

/-- Whether both bookmarks are empty and at one place. -/
def Coincide (d : Document) (m n : String) : Prop :=
  ∃ p, d.span? m = some (.point p) ∧ d.span? n = some (.point p)

/-- Different bookmarks that are there and overlap nowhere. -/
structure Arranged (d : Document) (names : List String) : Prop where
  distinct : names.Nodup
  found : ∀ n ∈ names, (d.span? n).isSome = true
  apart : ∀ m ∈ names, ∀ n ∈ names, m ≠ n → d.Before m n ∨ d.Before n m

/-- No bookmark is lost and the order of the bookmarks stays. -/
structure Spares (d d' : Document) (names : List String) : Prop where
  found : ∀ n ∈ names, (d.span? n).isSome = true → (d'.span? n).isSome = true
  order : ∀ m ∈ names, ∀ n ∈ names, d.Before m n → d'.Before m n

/-- The bookmark `x` of the first document becomes the bookmark `x'` of the second one, which stays
where it was among the bookmarks `names`; only what coincides with it can come before it. -/
structure Overwrites (names : List String) (d : Document) (x : String) (d' : Document)
    (x' : String) : Prop where
  spares : Spares d d' names
  own : (d.span? x).isSome = true → (d'.span? x').isSome = true
  other : x' ∉ names
  before : ∀ y ∈ names, d.Before y x → d'.Before y x'
  behind : ∀ y ∈ names, d.Before x y → d'.Before x' y ∨ d.Coincide x y

theorem Spares.refl (d : Document) (names : List String) : Spares d d names :=
  ⟨fun _ _ h => h, fun _ _ _ _ h => h⟩

theorem Spares.trans {d d' d'' : Document} {names : List String} (h : Spares d d' names)
    (h' : Spares d' d'' names) : Spares d d'' names :=
  ⟨fun n hn hsome => h'.found n hn (h.found n hn hsome),
    fun m hm n hn hbefore => h'.order m hm n hn (h.order m hm n hn hbefore)⟩

theorem Spares.mono {d d' : Document} {names names' : List String} (h : Spares d d' names)
    (hsub : names' ⊆ names) : Spares d d' names' :=
  ⟨fun n hn => h.found n (hsub hn), fun m hm n hn => h.order m (hsub hm) n (hsub hn)⟩

theorem spares_of_span?_eq {d d' : Document} {names : List String}
    (h : ∀ n ∈ names, d'.span? n = d.span? n) : Spares d d' names :=
  ⟨fun n hn => by rw [h n hn]; exact id, fun m hm n hn hbefore => by
    unfold Before at hbefore ⊢
    rwa [h m hm, h n hn]⟩

theorem Arranged.spares {d d' : Document} {names : List String} (h : d.Arranged names)
    (hs : Spares d d' names) : d'.Arranged names :=
  ⟨h.distinct, fun n hn => hs.found n hn (h.found n hn), fun m hm n hn hne =>
    (h.apart m hm n hn hne).imp (hs.order m hm n hn) (hs.order n hn m hm)⟩

theorem Arranged.sublist {d : Document} {names names' : List String} (h : d.Arranged names)
    (hsub : names'.Sublist names) : d.Arranged names' :=
  ⟨h.distinct.sublist hsub, fun n hn => h.found n (hsub.subset hn),
    fun m hm n hn => h.apart m (hsub.subset hm) n (hsub.subset hn)⟩

theorem Arranged.perm {d : Document} {names names' : List String} (h : d.Arranged names)
    (hperm : names.Perm names') : d.Arranged names' :=
  ⟨hperm.nodup_iff.1 h.distinct, fun n hn => h.found n (hperm.mem_iff.2 hn),
    fun m hm n hn => h.apart m (hperm.mem_iff.2 hm) n (hperm.mem_iff.2 hn)⟩

theorem Overwrites.arranged {d d' : Document} {x x' : String} {names : List String}
    (h : Overwrites names d x d' x') (ha : d.Arranged (x :: names)) : d'.Arranged (x' :: names) := by
  have hnames : d'.Arranged names := (ha.sublist (List.sublist_cons_self x names)).spares h.spares
  have hx : x ∉ names := (List.nodup_cons.1 ha.distinct).1
  have hapart : ∀ y ∈ names, d'.Before x' y ∨ d'.Before y x' := by
    intro y hy
    rcases ha.apart x (by simp) y (by simp [hy]) (fun heq => hx (heq ▸ hy)) with hb | hb
    · rcases h.behind y hy hb with hb' | ⟨p, hp, hq⟩
      · exact .inl hb'
      · exact .inr (h.before y hy ⟨_, _, hq, hp, Nat.le_refl p⟩)
    · exact .inr (h.before y hy hb)
  refine ⟨List.nodup_cons.2 ⟨h.other, hnames.distinct⟩, ?_, ?_⟩
  · intro n hn
    rcases List.mem_cons.1 hn with rfl | hn
    · exact h.own (ha.found x (by simp))
    · exact hnames.found n hn
  · intro m hm n hn hne
    rcases List.mem_cons.1 hm with hmx | hm'
    · rcases List.mem_cons.1 hn with hnx | hn'
      · exact absurd (hmx.trans hnx.symm) hne
      · exact hmx ▸ hapart n hn'
    · rcases List.mem_cons.1 hn with hnx | hn'
      · exact hnx ▸ (hapart m hm').symm
      · exact hnames.apart m hm' n hn' hne

/-- A change beside the bookmark after it was overwritten. -/
theorem Overwrites.andSpares {d d' d'' : Document} {x x' : String} {names : List String}
    (h : Overwrites names d x d' x') (h' : Spares d' d'' (x' :: names)) :
    Overwrites names d x d'' x' where
  spares := h.spares.trans (h'.mono (List.subset_cons_self x' names))
  own hsome := h'.found x' (by simp) (h.own hsome)
  other := h.other
  before y hy hb := h'.order y (by simp [hy]) x' (by simp) (h.before y hy hb)
  behind y hy hb := (h.behind y hy hb).imp (h'.order x' (by simp) y (by simp [hy])) id

theorem overwrites_of_spares {d d' : Document} {x : String} {names : List String} (hx : x ∉ names)
    (h : Spares d d' (x :: names)) : Overwrites names d x d' x where
  spares := h.mono (List.subset_cons_self x names)
  own := h.found x (by simp)
  other := hx
  before y hy := h.order y (by simp [hy]) x (by simp)
  behind y hy hb := .inl (h.order x (by simp) y (by simp [hy]) hb)

theorem Overwrites.of_span?_eq {d d₁ d' : Document} {x x' : String} {names : List String}
    (h : Overwrites names d₁ x d' x') (heq : ∀ n ∈ x :: names, d₁.span? n = d.span? n) :
    Overwrites names d x d' x' := by
  have hx := heq x (by simp)
  have hnames : ∀ y ∈ names, d₁.span? y = d.span? y := fun y hy => heq y (by simp [hy])
  refine ⟨(spares_of_span?_eq hnames).trans h.spares, fun hsome => h.own (hx ▸ hsome), h.other,
    fun y hy hb => h.before y hy ?_, fun y hy hb => ?_⟩
  · unfold Before at hb ⊢
    rwa [hx, hnames y hy]
  · rw [Before, ← hx, ← hnames y hy] at hb
    refine (h.behind y hy hb).imp id fun hc => ?_
    unfold Coincide at hc ⊢
    rwa [← hx, ← hnames y hy]

/-- The bookmark gets another name. -/
theorem Overwrites.andRenames {d d' d'' : Document} {x x' x'' : String} {names : List String}
    (h : Overwrites names d x d' x') (hown : d''.span? x'' = d'.span? x')
    (hnames : ∀ y ∈ names, d''.span? y = d'.span? y) (hother : x'' ∉ names) :
    Overwrites names d x d'' x'' where
  spares := h.spares.trans (spares_of_span?_eq hnames)
  own hsome := hown ▸ h.own hsome
  other := hother
  before y hy hb := by
    have := h.before y hy hb
    unfold Before at this ⊢
    rwa [hnames y hy, hown]
  behind y hy hb := (h.behind y hy hb).imp (fun hb' => by
    unfold Before at hb' ⊢
    rwa [hnames y hy, hown]) id

/-! ### Edits and bystanders -/

/-- An edit of a stretch with which no bystander is lost. -/
theorem spares_edited {d : Document} (hd : d.WellFormed) {a m c new : Text}
    (htext : d.text = a ++ m ++ c) {owner : Option Owner} {names : List String}
    (howner : ∀ n ∈ names, owner ≠ some (.bookmark n))
    (hkept : ∀ n ∈ names, ∀ s, d.span? n = some s → (s.reanchor
      ⟨Text.byteLength a, Text.byteLength (a ++ m)⟩ (Text.byteLength new)).isSome = true) :
    Spares d (d.replaced (replacementOf a m c new owner) (a ++ new ++ c)) names where
  found n hn hsome := by
    obtain ⟨s, hs⟩ := Option.isSome_iff_exists.1 hsome
    rw [span?_edited hd htext (howner n hn), hs]
    exact hkept n hn s hs
  order m' hm n hn := by
    rintro ⟨s, t, hs, ht, hle⟩
    obtain ⟨s', hs'⟩ := Option.isSome_iff_exists.1 (hkept m' hm s hs)
    obtain ⟨t', ht'⟩ := Option.isSome_iff_exists.1 (hkept n hn t ht)
    refine ⟨s', t', ?_, ?_, Span.stop_le_start_reanchor (Span.le_of_fits (fits_of_span? hd hs)).1
      (Span.le_of_fits (fits_of_span? hd ht)).1 hle hs' ht'⟩
    · rw [span?_edited hd htext (howner m' hm), hs]
      exact hs'
    · rw [span?_edited hd htext (howner n hn), ht]
      exact ht'

/-- An edit of a bookmark's own text, apart from its bystanders. -/
theorem overwrites_edited {d : Document} (hd : d.WellFormed) {a m c new : Text}
    (htext : d.text = a ++ m ++ c) {x : String} {names : List String}
    (hx : d.span? x = some ⟨Text.byteLength a, Text.byteLength (a ++ m)⟩)
    (ha : d.Arranged (x :: names)) :
    Overwrites names d x
      (d.replaced (replacementOf a m c new (some (.bookmark x))) (a ++ new ++ c)) x := by
  have hxn : x ∉ names := (List.nodup_cons.1 ha.distinct).1
  have hle : Text.byteLength a ≤ Text.byteLength (a ++ m) := by
    rw [Text.byteLength_append]
    omega
  have howner : ∀ n ∈ names, some (Owner.bookmark x) ≠ some (.bookmark n) := by
    rintro n hn heq
    obtain rfl : x = n := by simpa using heq
    exact hxn hn
  have hapart : ∀ n ∈ names, ∀ s, d.span? n = some s →
      s.stop ≤ Text.byteLength a ∨ Text.byteLength (a ++ m) ≤ s.start := by
    intro n hn s hs
    rcases ha.apart x (by simp) n (by simp [hn]) (fun heq => hxn (heq ▸ hn)) with
      ⟨t, s', ht, hs', hle⟩ | ⟨s', t, hs', ht, hle⟩
    · obtain rfl := Option.some.inj (hx.symm.trans ht)
      obtain rfl := Option.some.inj (hs.symm.trans hs')
      exact .inr hle
    · obtain rfl := Option.some.inj (hx.symm.trans ht)
      obtain rfl := Option.some.inj (hs.symm.trans hs')
      exact .inl hle
  have hkept : ∀ n ∈ names, ∀ s, d.span? n = some s → (s.reanchor
      ⟨Text.byteLength a, Text.byteLength (a ++ m)⟩ (Text.byteLength new)).isSome = true :=
    fun n hn s hs => Span.isSome_reanchor_of_apart _ (Span.le_of_fits (fits_of_span? hd hs)).1
      (hapart n hn s hs)
  have hown : (d.replaced (replacementOf a m c new (some (.bookmark x))) (a ++ new ++ c)).span? x =
      some ⟨Text.byteLength a, Text.byteLength (a ++ new)⟩ := span?_edited_owner hx
  have hspan : ∀ n ∈ names, ∀ s, d.span? n = some s → ∃ s', s.reanchor
      ⟨Text.byteLength a, Text.byteLength (a ++ m)⟩ (Text.byteLength new) = some s' ∧
      (d.replaced (replacementOf a m c new (some (.bookmark x))) (a ++ new ++ c)).span? n = some s' := by
    intro n hn s hs
    obtain ⟨s', hs'⟩ := Option.isSome_iff_exists.1 (hkept n hn s hs)
    refine ⟨s', hs', ?_⟩
    rw [span?_edited hd htext (howner n hn), hs]
    exact hs'
  refine ⟨spares_edited hd htext howner hkept, fun _ => by rw [hown]; rfl, hxn, ?_, ?_⟩
  · rintro y hy ⟨s, t, hs, ht, hst⟩
    obtain rfl := Option.some.inj (hx.symm.trans ht)
    obtain ⟨s', hs', hspan'⟩ := hspan y hy s hs
    have hle' : s'.stop ≤ Text.byteLength a := Span.reanchor_stop_le hst hs'
    exact ⟨s', _, hspan', hown, hle'⟩
  · rintro y hy ⟨t, s, ht, hs, hst⟩
    obtain rfl := Option.some.inj (hx.symm.trans ht)
    obtain ⟨s', hs', hspan'⟩ := hspan y hy s hs
    rcases Span.le_reanchor_start (Span.le_of_fits (fits_of_span? hd hs)).1 hle hst hs' with
      hbehind | ⟨hpoint, hpoint'⟩
    · refine .inl ⟨_, s', hown, hspan', ?_⟩
      rw [Text.byteLength_append]
      exact hbehind
    · exact .inr ⟨s.start, by rw [hx, hpoint], by rw [hs, ← hpoint']⟩

end Document

end TemplateEngine
