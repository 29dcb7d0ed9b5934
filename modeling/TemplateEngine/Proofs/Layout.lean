import TemplateEngine.Proofs.Frame
import TemplateEngine.Proofs.Insertion

/-!
# Layout — how commands, marks and fields lie to each other

In a document whose commands are apart, commands with marks are nested or apart and all other commands
lie apart from each other, between marks or apart from them (`Document.Layout`).  Some texts stay as they
are, and all commands lie between these.  An edit of the text of a command without marks keeps that, and
so does every edit that is clear of the marked commands and inside a command (`Layout.edited`).
-/

namespace TemplateEngine

/-! ### Names of commands -/

/-- Whether a name is that of a command. -/
def IsCommandName (name : String) : Prop := (Command.ofBookmark? name).isSome = true

theorem Variant.isCommandName {name variant : String} (h : Variant name variant) :
    IsCommandName variant ↔ IsCommandName name := by
  unfold IsCommandName
  rw [h.ofBookmark?, Option.isSome_map]

theorem IsCommandName.originOf {old n : String} (hold : IsCommandName old) (new : String)
    (hn : IsCommandName n) : IsCommandName (Document.originOf old new n) := by
  rcases eq_or_ne n new with rfl | hne
  · rwa [Document.originOf_new]
  · rwa [Document.originOf_of_ne hne]

/-- The stretch of a text behind `a` that `m` takes up. -/
abbrev Text.stretch (a m : Text) : Span := ⟨Text.byteLength a, Text.byteLength (a ++ m)⟩

theorem Text.stretch_le (a m : Text) : (a.stretch m).start ≤ (a.stretch m).stop := by
  show Text.byteLength a ≤ Text.byteLength (a ++ m)
  rw [Text.byteLength_append]
  exact Nat.le_add_right _ _

theorem Text.stretch_eq (a m : Text) :
    a.stretch m = ⟨Text.byteLength a, Text.byteLength a + Text.byteLength m⟩ := by
  rw [Text.stretch, Text.byteLength_append]

namespace Document

/-! ### The layout of a document -/

/-- How two commands lie to each other: apart, or one between the marks of the other. -/
def Placed (marked : List String) (m : String) (s : Span) (n : String) (t : Span) : Prop :=
  s.Apart t ∨ (n ∈ marked ∧ s.Between t) ∨ (m ∈ marked ∧ t.Between s)

/-- The spans of the commands and of the fields with some ids. -/
def Pinned (d : Document) (ids : List Nat) (s : Span) : Prop :=
  (∃ n, IsCommandName n ∧ d.span? n = some s) ∨ ∃ f ∈ d.fields, f.id ∈ ids ∧ f.span = s

/-- How the commands and fields of a document lie: `marked` names the commands with marks, `kept` lists
the texts that stay, and `ids` the fields that are about to be filled in.  Computed fields can be outside
of all commands; if they have values, no text needs to stay. -/
structure Layout (kept : List Text) (marked : List String) (ids : List Nat) (d : Document) : Prop where
  consistent : d.Consistent
  named : ∀ x ∈ marked, IsCommandName x
  enclosed : ∀ x ∈ marked, ∀ r, d.span? x = some r → (TextRange.ofSpan r).IsEnclosed d.text
  commands : ∀ m n, IsCommandName m → IsCommandName n → m ≠ n → ∀ s t, d.span? m = some s →
    d.span? n = some t → Placed marked m s n t
  fields : ∀ x ∈ marked, ∀ r, d.span? x = some r → ∀ f ∈ d.fields, f.span.Clear r
  framed : Framed kept d.text (d.Pinned ids)
  still : kept = [[], []] ∨ d.values = .empty

theorem Placed.symm {marked : List String} {m n : String} {s t : Span} (h : Placed marked m s n t) :
    Placed marked n t m s :=
  h.imp Span.Apart.symm Or.symm

theorem Placed.mono {marked marked' : List String} {m n : String} {s t : Span}
    (h : Placed marked m s n t) (hsub : marked ⊆ marked') : Placed marked' m s n t :=
  h.imp id (Or.imp (fun h => ⟨hsub h.1, h.2⟩) fun h => ⟨hsub h.1, h.2⟩)

theorem le_of_span? {d : Document} (hd : d.WellFormed) {n : String} {s : Span}
    (h : d.span? n = some s) : s.start ≤ s.stop :=
  (Span.le_of_fits (fits_of_span? hd h)).1

/-- Nothing has to stay. -/
theorem framed_pinned {d : Document} (hd : d.WellFormed) (ids : List Nat) :
    Framed [[], []] d.text (d.Pinned ids) := by
  refine framed_of_fits fun s hs => ?_
  rcases hs with ⟨n, -, hs⟩ | ⟨f, hf, -, rfl⟩
  · exact fits_of_span? hd hs
  · exact hd.fields f hf

/-- The texts that stay do so with the same bookmarks, some of them under other names: `origin` tells what
they were called. -/
theorem framed_transport {kept : List Text} {ids ids' : List Nat} {d d' : Document}
    (h : Framed kept d.text (d.Pinned ids)) (origin : String → String) (htext : d'.text = d.text)
    (hfields : d'.fields ⊆ d.fields) (hids : ids' ⊆ ids)
    (hspan : ∀ n s, d'.span? n = some s → d.span? (origin n) = some s)
    (hname : ∀ n ∈ d'.names, IsCommandName n → IsCommandName (origin n)) :
    Framed kept d'.text (d'.Pinned ids') := by
  rw [htext]
  refine h.mono ?_
  rintro s (⟨n, hn, hs⟩ | ⟨f, hf, hid, rfl⟩)
  · have hmem : n ∈ d'.names := isSome_span?_iff.1 (Option.isSome_iff_exists.2 ⟨_, hs⟩)
    exact ⟨s, .inl ⟨origin n, hname n hmem hn, hspan n s hs⟩, Span.within_refl _⟩
  · exact ⟨f.span, .inr ⟨f, hfields hf, hids hid, rfl⟩, Span.within_refl _⟩

/-- The same bookmarks, some of them under other names: `origin` tells what they were called. -/
theorem Layout.transport {kept : List Text} {marked marked' : List String} {ids ids' : List Nat}
    {d d' : Document} (h : d.Layout kept marked ids) (origin : String → String)
    (hd' : d'.Consistent) (htext : d'.text = d.text) (hvalues : d'.values = d.values)
    (hfields : d'.fields ⊆ d.fields) (hids : ids' ⊆ ids)
    (hspan : ∀ n s, d'.span? n = some s → d.span? (origin n) = some s)
    (hname : ∀ n ∈ d'.names, IsCommandName n → IsCommandName (origin n))
    (hdistinct : ∀ m ∈ d'.names, ∀ n ∈ d'.names, m ≠ n → origin m ≠ origin n)
    (hmarked : ∀ n ∈ d'.names, (n ∈ marked' ↔ origin n ∈ marked))
    (hnamed : ∀ x ∈ marked', IsCommandName x) : d'.Layout kept marked' ids' := by
  have hfound : ∀ {n s}, d'.span? n = some s → n ∈ d'.names := fun h =>
    isSome_span?_iff.1 (Option.isSome_iff_exists.2 ⟨_, h⟩)
  refine ⟨hd', hnamed, ?_, ?_, ?_, framed_transport h.framed origin htext hfields hids hspan hname,
    hvalues ▸ h.still⟩
  · intro x hx r hr
    rw [htext]
    exact h.enclosed (origin x) ((hmarked x (hfound hr)).1 hx) r (hspan x r hr)
  · intro m n hm hn hne s t hs ht
    have hplaced := h.commands (origin m) (origin n) (hname m (hfound hs) hm)
      (hname n (hfound ht) hn) (hdistinct m (hfound hs) n (hfound ht) hne) s t (hspan m s hs)
      (hspan n t ht)
    unfold Placed at hplaced ⊢
    rwa [hmarked m (hfound hs), hmarked n (hfound ht)]
  · intro x hx r hr f hf
    exact h.fields (origin x) ((hmarked x (hfound hr)).1 hx) r (hspan x r hr) f (hfields hf)

/-- Fewer bookmarks and fields. -/
theorem Layout.narrowed {kept : List Text} {marked : List String} {ids ids' : List Nat}
    {d d' : Document} (h : d.Layout kept marked ids) (hd' : d'.Consistent)
    (htext : d'.text = d.text) (hvalues : d'.values = d.values) (hfields : d'.fields ⊆ d.fields)
    (hids : ids' ⊆ ids) (hspan : ∀ n s, d'.span? n = some s → d.span? n = some s) :
    d'.Layout kept marked ids' :=
  h.transport id hd' htext hvalues hfields hids hspan (fun _ _ => id) (fun _ _ _ _ => id)
    (fun _ _ => Iff.rfl) h.named

/-- The marked commands listed otherwise. -/
theorem Layout.relisted {kept : List Text} {marked marked' : List String} {ids : List Nat}
    {d : Document} (h : d.Layout kept marked ids) (hiff : ∀ x, x ∈ marked' ↔ x ∈ marked) :
    d.Layout kept marked' ids :=
  h.transport id h.consistent rfl rfl (fun _ h => h) (fun _ h => h) (fun _ _ h => h) (fun _ _ => id)
    (fun _ _ _ _ => id) (fun n _ => hiff n) fun x hx => h.named x ((hiff x).1 hx)

/-! ### Edits -/

/-- Whether an edit of the span `e` can be made on behalf of an owner. -/
def Owns (d : Document) (marked : List String) (e : Span) : Option Owner → Prop
  | some (.bookmark x) => IsCommandName x ∧ x ∉ marked ∧ d.span? x = some e
  | _ => True

section Edits

variable {kept : List Text} {marked : List String} {ids : List Nat} {d : Document} {a m z new : Text}
  {owner : Option Owner}

/-- Where a bookmark after an edit was before. -/
theorem exists_of_span?_edited (hd : d.WellFormed) (htext : d.text = a ++ m ++ z) {n : String}
    {s' : Span}
    (h : (d.replaced (replacementOf a m z new owner) (a ++ new ++ z)).span? n = some s') :
    ∃ s, d.span? n = some s ∧
      (s.reanchor (a.stretch m) (Text.byteLength new) = some s' ∨
        (owner = some (.bookmark n) ∧ s' = a.stretch new)) := by
  by_cases howner : owner = some (.bookmark n)
  · cases hs : d.span? n with
    | none =>
      have hnone : n ∉ d.names := fun hn => by
        rw [← isSome_span?_iff, hs] at hn
        cases hn
      have hsub := (map_name_filterMap_sublist (replacementOf a m z new owner) d.bookmarks).subset
      exact absurd (hsub (isSome_span?_iff.1 (Option.isSome_iff_exists.2 ⟨_, h⟩))) hnone
    | some s =>
      subst howner
      rw [span?_edited_owner hs] at h
      exact ⟨s, rfl, .inr ⟨rfl, (Option.some.inj h).symm⟩⟩
  · rw [span?_edited hd htext howner] at h
    obtain ⟨s, hs, hs'⟩ := Option.bind_eq_some_iff.1 h
    exact ⟨s, hs, .inl hs'⟩

/-- Where commands and fields are after an edit. -/
theorem afterEdit_of_pinned (hd : d.WellFormed) (htext : d.text = a ++ m ++ z) {s' : Span}
    (h : (d.replaced (replacementOf a m z new owner) (a ++ new ++ z)).Pinned ids s') :
    Span.AfterEdit (d.Pinned ids) (a.stretch m) (Text.byteLength new) s' := by
  have hinside : s' = a.stretch new →
      Span.AfterEdit (d.Pinned ids) (a.stretch m) (Text.byteLength new) s' := by
    rintro rfl
    right
    rw [Text.stretch_eq a new]
    exact Span.within_refl _
  rcases h with ⟨n, hn, hs'⟩ | ⟨f, hf, hid, rfl⟩
  · obtain ⟨s, hs, hfollow | ⟨-, hown⟩⟩ := exists_of_span?_edited hd htext hs'
    · exact .inl ⟨s, .inl ⟨n, hn, hs⟩, le_of_span? hd hs, hfollow⟩
    · exact hinside hown
  · obtain ⟨f₀, hf₀, hid₀, hfield | ⟨-, hown⟩⟩ := follows_of_mem_fields_edited hd htext hf
    · exact .inl ⟨f₀.span, .inr ⟨f₀, hf₀, hid₀ ▸ hid, rfl⟩, (Span.le_of_fits (hd.fields f₀ hf₀)).1,
        hfield⟩
    · exact hinside hown

/-- The texts that stay do so in an edit inside the span of a command. -/
theorem framed_edited (hd : d.WellFormed) (h : Framed kept d.text (d.Pinned ids))
    (htext : d.text = a ++ m ++ z) {s : Span} (hs : d.Pinned ids s)
    (hwithin : (a.stretch m).within s = true) (new : Text) (owner : Option Owner) :
    Framed kept (a ++ new ++ z)
      ((d.replaced (replacementOf a m z new owner) (a ++ new ++ z)).Pinned ids) :=
  ((htext ▸ h).edited hs hwithin new).mono fun s' hs' =>
    ⟨s', afterEdit_of_pinned hd htext hs', Span.within_refl _⟩

theorem Layout.edited (h : d.Layout kept marked ids) (htext : d.text = a ++ m ++ z)
    (howns : d.Owns marked (a.stretch m) owner)
    (hclear : ∀ x ∈ marked, ∀ r, d.span? x = some r → (a.stretch m).Clear r)
    (hframed : Framed kept (a ++ new ++ z)
      ((d.replaced (replacementOf a m z new owner) (a ++ new ++ z)).Pinned ids)) :
    (d.replaced (replacementOf a m z new owner) (a ++ new ++ z)).Layout kept marked ids := by
  have hd := h.consistent.toWellFormed
  have he := Text.stretch_le a m
  have hnew := Text.stretch_eq a new
  -- marked commands own no edit
  have hregion : ∀ x ∈ marked, ∀ r',
      (d.replaced (replacementOf a m z new owner) (a ++ new ++ z)).span? x = some r' →
      ∃ r, d.span? x = some r ∧ r.start + 2 ≤ r.stop ∧ (a.stretch m).Avoids r ∧
        r.reanchor (a.stretch m) (Text.byteLength new) = some r' := by
    intro x hx r' hr'
    obtain ⟨r, hr, hfollow | ⟨rfl, -⟩⟩ := exists_of_span?_edited hd htext hr'
    · have hroom : r.start + 2 ≤ r.stop := (h.enclosed x hx r hr).room
      exact ⟨r, hr, hroom, Span.avoids_of_reanchor hroom (hclear x hx r hr) hfollow, hfollow⟩
    · exact absurd hx howns.2.1
  refine ⟨consistent_replaced h.consistent htext new owner, h.named, ?_, ?_, ?_, hframed, h.still⟩
  · intro x hx r' hr'
    obtain ⟨r, hr, -, havoids, hfollow⟩ := hregion x hx r' hr'
    exact isEnclosed_reanchor (htext ▸ h.enclosed x hx r hr) havoids hfollow
  · -- the owner of the edit among other commands
    have howner : ∀ {x n : String} {t t' : Span}, owner = some (.bookmark x) → IsCommandName n →
        x ≠ n → d.span? n = some t → t.reanchor (a.stretch m) (Text.byteLength new) = some t' →
        Placed marked x (a.stretch new) n t' := by
      intro x n t t' hx hn hne ht ht'
      subst hx
      obtain ⟨hname, hunmarked, hspan⟩ := howns
      rw [hnew]
      rcases h.commands x n hname hn hne _ t hspan ht with hapart | ⟨hmark, hbetween⟩ | ⟨hmark, -⟩
      · exact .inl (hapart.renewed (le_of_span? hd ht) ht')
      · exact .inr (.inl ⟨hmark, hbetween.renewed he (h.enclosed n hmark t ht).room ht'⟩)
      · exact absurd hmark hunmarked
    intro m' n hm hn hne s' t' hs' ht'
    obtain ⟨s, hs, hsfollow | ⟨hsown, rfl⟩⟩ := exists_of_span?_edited hd htext hs'
    · obtain ⟨t, ht, htfollow | ⟨htown, rfl⟩⟩ := exists_of_span?_edited hd htext ht'
      · have hsle := le_of_span? hd hs
        have htle := le_of_span? hd ht
        rcases h.commands m' n hm hn hne s t hs ht with hapart | ⟨hmark, hbetween⟩ | ⟨hmark, hbetween⟩
        · exact .inl (hapart.reanchor hsle htle hsfollow htfollow)
        · have hroom : t.start + 2 ≤ t.stop := (h.enclosed n hmark t ht).room
          have havoids := Span.avoids_of_reanchor hroom (hclear n hmark t ht) htfollow
          exact .inr (.inl ⟨hmark, Span.Between.reanchor hsle he havoids hbetween hsfollow htfollow⟩)
        · have hroom : s.start + 2 ≤ s.stop := (h.enclosed m' hmark s hs).room
          have havoids := Span.avoids_of_reanchor hroom (hclear m' hmark s hs) hsfollow
          exact .inr (.inr ⟨hmark, Span.Between.reanchor htle he havoids hbetween htfollow hsfollow⟩)
      · exact (howner htown hm hne.symm hs hsfollow).symm
    · obtain ⟨t, ht, htfollow | ⟨htown, rfl⟩⟩ := exists_of_span?_edited hd htext ht'
      · exact howner hsown hn hne ht htfollow
      · rw [hsown] at htown
        simp only [Option.some.injEq, Owner.bookmark.injEq] at htown
        exact absurd htown hne
  · intro x hx r' hr' f hf
    obtain ⟨r, hr, hroom, havoids, hfollow⟩ := hregion x hx r' hr'
    obtain ⟨f₀, hf₀, -, hfield | ⟨hown, hspan⟩⟩ := follows_of_mem_fields_edited hd htext hf
    · exact Span.Clear.reanchor (Span.le_of_fits (hd.fields f₀ hf₀)).1 he hroom havoids
        (h.fields x hx r hr f₀ hf₀) hfield hfollow
    · have hrenewed : (a.stretch new).Clear r' := hnew ▸ .inl (havoids.renewed he hroom hfollow)
      exact hspan ▸ hrenewed

/-- An edit inside the span of a command. -/
theorem Layout.edited_within (h : d.Layout kept marked ids) (htext : d.text = a ++ m ++ z)
    (howns : d.Owns marked (a.stretch m) owner)
    (hclear : ∀ x ∈ marked, ∀ r, d.span? x = some r → (a.stretch m).Clear r)
    {s : Span} (hs : d.Pinned ids s) (hwithin : (a.stretch m).within s = true) :
    (d.replaced (replacementOf a m z new owner) (a ++ new ++ z)).Layout kept marked ids :=
  h.edited htext howns hclear
    (framed_edited h.consistent.toWellFormed h.framed htext hs hwithin new owner)

/-- A command whose ends an edit avoids is still there after it. -/
theorem exists_span?_edited (hd : d.WellFormed) (htext : d.text = a ++ m ++ z) {n : String} {s : Span}
    (hs : d.span? n = some s) (havoids : (a.stretch m).Avoids s) :
    ∃ s', (d.replaced (replacementOf a m z new owner) (a ++ new ++ z)).span? n = some s' ∧
      (s.reanchor (a.stretch m) (Text.byteLength new) = some s' ∨ owner = some (.bookmark n)) := by
  by_cases howner : owner = some (.bookmark n)
  · subst howner
    exact ⟨_, span?_edited_owner hs, .inr rfl⟩
  · obtain ⟨s', hs'⟩ := Option.isSome_iff_exists.1 (Span.isSome_reanchor_of_avoids
      (n := Text.byteLength new) (le_of_span? hd hs) havoids)
    refine ⟨s', ?_, .inl hs'⟩
    rw [span?_edited hd htext howner, hs]
    exact hs'

end Edits

/-! ### Replacing the text of a command -/

section Command

variable {kept : List Text} {marked : List String} {d : Document} {x : String}

/-- Whether every other command is apart from `x` or has it between its marks. -/
def Innermost (d : Document) (marked : List String) (x : String) : Prop :=
  ∀ n, IsCommandName n → n ≠ x → ∀ s t, d.span? x = some s → d.span? n = some t →
    s.Apart t ∨ (n ∈ marked ∧ s.Between t)

theorem Layout.innermost {ids : List Nat} (h : d.Layout kept marked ids) (hx : IsCommandName x)
    (hxm : x ∉ marked) : d.Innermost marked x := by
  intro n hn hne s t hs ht
  rcases h.commands x n hx hn hne.symm s t hs ht with hapart | hbetween | ⟨hmark, -⟩
  · exact .inl hapart
  · exact .inr hbetween
  · exact absurd hmark hxm

theorem Innermost.avoids (h : d.Innermost marked x) {n : String} (hn : IsCommandName n) (hne : n ≠ x)
    {s t : Span} (hs : d.span? x = some s) (ht : d.span? n = some t) : s.Avoids t :=
  (h n hn hne s t hs ht).imp id And.right

/-- The text of a command without marks is replaced.  No command is lost. -/
theorem Layout.edited_command {a m z : Text} (h : d.Layout kept marked []) (hx : IsCommandName x)
    (hxm : x ∉ marked) (htext : d.text = a ++ m ++ z) (hs : d.span? x = some (a.stretch m))
    (new : Text) :
    (d.replaced (replacementOf a m z new (some (.bookmark x))) (a ++ new ++ z)).Layout kept marked [] ∧
      ∀ n, IsCommandName n → n ∈ d.names →
        n ∈ (d.replaced (replacementOf a m z new (some (.bookmark x))) (a ++ new ++ z)).names := by
  have hinner := h.innermost hx hxm
  refine ⟨h.edited_within htext ⟨hx, hxm, hs⟩ (fun y hy r hr => ?_) (.inl ⟨x, hx, hs⟩)
    (Span.within_refl _), fun n hn hmem => ?_⟩
  · exact .inl (hinner.avoids (h.named y hy) (fun heq => hxm (heq ▸ hy)) hs hr)
  · obtain ⟨t, ht⟩ := Option.isSome_iff_exists.1 (isSome_span?_iff.2 hmem)
    have hfound : ∃ t', (d.replaced (replacementOf a m z new (some (.bookmark x)))
        (a ++ new ++ z)).span? n = some t' := by
      rcases eq_or_ne n x with rfl | hnx
      · exact ⟨_, span?_edited_owner hs⟩
      · obtain ⟨t', ht', -⟩ := exists_span?_edited h.consistent.toWellFormed htext ht
          (hinner.avoids hn hnx hs ht)
        exact ⟨t', ht'⟩
    exact isSome_span?_iff.1 (Option.isSome_iff_exists.2 hfound)

theorem Layout.setBookmarkText (h : d.Layout kept marked []) (hx : IsCommandName x) (hxm : x ∉ marked)
    (t : Text) :
    Ends (fun _ => False) (d.setBookmarkText x t) fun attempt => ∀ d', attempt = .ok d' →
      d'.Layout kept marked [] ∧ ∀ n, IsCommandName n → n ∈ d.names → n ∈ d'.names := by
  cases hs : d.span? x with
  | none =>
    have hnone : d.bookmark? x = none := Option.map_eq_none_iff.1 hs
    unfold Document.setBookmarkText
    rw [hnone]
    rintro d' ⟨⟩
  | some s =>
    obtain ⟨a, m, z, htext, rfl, hset⟩ := setBookmarkText_eq h.consistent.toWellFormed hs t
    rw [hset]
    rintro d' ⟨⟩
    exact h.edited_command hx hxm htext hs t

end Command

end Document

end TemplateEngine
