import Mathlib.Data.List.Pairwise
import TemplateEngine.Proofs.Layout

/-!
# Enclosing — contents put into a layout

A content goes between marks in the place of a command.  The command then has its marks
(`Layout.withMarks`), the content's text lies between them (`Layout.edited_between`), and so do the commands
and fields that come with it (`Layout.adopted`).  Filling in the content's placeholders is clear of all
marks (`Layout.filled`).
-/

namespace TemplateEngine

namespace Span

theorem Between.within {s t u : Span} (h : t.Between u) (hs : s.within t = true) : s.Between u := by
  rw [within_iff] at hs
  exact ⟨Nat.lt_of_lt_of_le h.1 hs.1, Nat.lt_of_le_of_lt hs.2 h.2⟩

theorem Apart.shift {s t : Span} (h : s.Apart t) (n : Nat) : (s.shift n).Apart (t.shift n) :=
  h.imp (Nat.add_le_add_right · n) (Nat.add_le_add_right · n)

end Span

namespace Document

variable {kept : List Text} {marked : List String} {d : Document} {x : String}

/-! ### Marks -/

/-- The command gets its marks. -/
theorem Layout.withMarks {a m z : Text} (h : d.Layout kept marked []) (hx : IsCommandName x)
    (hxm : x ∉ marked) (htext : d.text = a ++ m ++ z) (hs : d.span? x = some (a.stretch m)) :
    (d.replaced (replacementOf a m z Command.marks (some (.bookmark x)))
      (a ++ Command.marks ++ z)).Layout kept (x :: marked) [] := by
  obtain ⟨h₁, -⟩ := h.edited_command hx hxm htext hs Command.marks
  have hspan : (d.replaced (replacementOf a m z Command.marks (some (.bookmark x)))
      (a ++ Command.marks ++ z)).span? x = some (a.stretch Command.marks) := span?_edited_owner hs
  refine ⟨h₁.consistent, ?_, ?_, ?_, ?_, h₁.framed, h₁.still⟩
  · intro y hy
    rcases List.mem_cons.1 hy with rfl | hy
    · exact hx
    · exact h₁.named y hy
  · intro y hy r hr
    rcases List.mem_cons.1 hy with rfl | hy
    · obtain rfl := Option.some.inj (hspan.symm.trans hr)
      refine ⟨Nat.le_of_eq (byteLength_marks a).symm, ?_, ?_⟩
      · show Text.charAt? (a ++ ['<', '>'] ++ z) (Text.byteLength a) = _
        rw [List.append_assoc, Text.charAt?_append]
        rfl
      · show Text.charAt? (a ++ ['<', '>'] ++ z) (Text.byteLength (a ++ Command.marks) - 1) = _
        have hcut : a ++ ['<', '>'] ++ z = (a ++ ['<']) ++ ('>' :: z) := by simp
        have hlast : Text.byteLength (a ++ Command.marks) - 1 = Text.byteLength (a ++ ['<']) := by
          rw [byteLength_marks, byteLength_mark]
          omega
        rw [hcut, hlast, Text.charAt?_append]
        rfl
    · exact h₁.enclosed y hy r hr
  · exact fun m n hm hn hne s t hs ht =>
      (h₁.commands m n hm hn hne s t hs ht).mono (List.subset_cons_self _ _)
  · intro y hy r hr f hf
    rcases List.mem_cons.1 hy with rfl | hy
    · obtain rfl := Option.some.inj (hspan.symm.trans hr)
      obtain ⟨f₀, -, -, hfollow⟩ :=
        exists_of_mem_fields_edited h.consistent.toWellFormed htext (by simp) hf
      rw [Text.stretch_eq]
      exact Span.clear_renewed hfollow
    · exact h₁.fields y hy r hr f hf

/-- A text put between the marks of the innermost command. -/
theorem Layout.edited_between {a z : Text} (h : d.Layout kept (x :: marked) [])
    (hinner : d.Innermost marked x) (htext : d.text = a ++ [] ++ z) {r : Span}
    (hr : d.span? x = some r) (hbetween : (a.stretch []).Between r) (new : Text) :
    let d' := d.replaced (replacementOf a [] z new none) (a ++ new ++ z)
    d'.Layout kept (x :: marked) [] ∧ d'.Innermost marked x ∧
      d'.span? x = some ⟨r.start, r.stop + Text.byteLength new⟩ ∧
      ∀ n, IsCommandName n → n ∈ d.names → n ∈ d'.names := by
  intro d'
  have hd := h.consistent.toWellFormed
  have he := Text.stretch_le a []
  have hx : IsCommandName x := h.named x (by simp)
  have hwithin : (a.stretch []).within r = true :=
    Span.within_iff.2 ⟨Nat.le_of_lt hbetween.1, Nat.le_of_lt hbetween.2⟩
  have havoids : ∀ n, IsCommandName n → ∀ t, d.span? n = some t → (a.stretch []).Avoids t := by
    intro n hn t ht
    rcases eq_or_ne n x with rfl | hne
    · obtain rfl := Option.some.inj (hr.symm.trans ht)
      exact .inr hbetween
    · exact (hinner.avoids hn hne hr ht).within hwithin
  have hspan : d'.span? x = some ⟨r.start, r.stop + Text.byteLength new⟩ := by
    rw [span?_edited hd htext (by simp), hr]
    have hroom : r.start + 2 ≤ r.stop := (h.enclosed x (by simp) r hr).room
    obtain ⟨r', hr'⟩ := Option.isSome_iff_exists.1 (Span.isSome_reanchor_of_avoids
      (n := Text.byteLength new) (le_of_span? hd hr) (.inr hbetween))
    have hends := Span.ends_reanchor he hroom (.inr hbetween) hr'
    show r.reanchor _ _ = _
    rw [hr']
    obtain ⟨start, stop⟩ := r'
    unfold Span.Between at hbetween
    simp only [List.append_nil] at hends hbetween
    simp only [Option.some.injEq, Span.mk.injEq]
    omega
  refine ⟨h.edited_within htext trivial (fun y hy t ht => .inl (havoids y (h.named y hy) t ht))
    (.inl ⟨x, hx, hr⟩) hwithin, ?_, hspan, ?_⟩
  · intro n hn hne r' t' hr' ht'
    obtain ⟨_, hr₁, hrfollow | ⟨hown, -⟩⟩ := exists_of_span?_edited hd htext hr'
    · obtain rfl := Option.some.inj (hr.symm.trans hr₁)
      obtain ⟨t, ht, htfollow | ⟨hown, -⟩⟩ := exists_of_span?_edited hd htext ht'
      · have hrle := le_of_span? hd hr
        refine (hinner n hn hne r t hr ht).imp
          (fun hapart => hapart.reanchor hrle (le_of_span? hd ht) hrfollow htfollow)
          fun ⟨hmark, hb⟩ => ⟨hmark, ?_⟩
        exact Span.Between.reanchor hrle he (havoids n hn t ht) hb hrfollow htfollow
      · cases hown
    · cases hown
  · intro n hn hmem
    obtain ⟨t, ht⟩ := Option.isSome_iff_exists.1 (isSome_span?_iff.2 hmem)
    obtain ⟨t', ht', -⟩ : ∃ t', d'.span? n = some t' ∧ _ :=
      exists_span?_edited hd htext ht (havoids n hn t ht)
    exact isSome_span?_iff.1 (Option.isSome_iff_exists.2 ⟨t', ht'⟩)

/-! ### The commands and fields of a content -/

/-- Whether two bookmarks, if they hold commands, overlap nowhere. -/
def ApartAsCommands (b c : Bookmark) : Prop :=
  IsCommandName b.name → IsCommandName c.name → b.span.Apart c.span

instance : Std.Symm ApartAsCommands := ⟨fun _ _ h hc hb => (h hb hc).symm⟩

/-- Whether the commands of a document overlap nowhere. -/
def CommandsApart (d : Document) : Prop := d.bookmarks.Pairwise ApartAsCommands

/-- The second of two lists that match holds a match for what the first one holds. -/
theorem exists_of_forall₂_of_mem {α β : Type} {R : α → β → Prop} {l : List α} {l' : List β}
    (h : List.Forall₂ R l l') {a : α} (ha : a ∈ l) : ∃ b ∈ l', R a b := by
  induction h with
  | nil => cases ha
  | cons hhead _ ih =>
    rcases List.mem_cons.1 ha with rfl | ha
    · exact ⟨_, by simp, hhead⟩
    · obtain ⟨b, hb, hR⟩ := ih ha
      exact ⟨b, by simp [hb], hR⟩

theorem heldBeside_shift {content : Document} {u v : Text} {s : Span}
    (htext : d.text = u ++ content.text ++ v) (hs : s.fits content.text = true) :
    Span.heldBeside d.length (s.shift (Text.byteLength u)) = s.shift (Text.byteLength u) := by
  have hle := Span.le_of_fits (fits_shift (a := u) (c := v) hs)
  rw [← htext] at hle
  exact Span.heldBeside_of_le (Nat.le_trans hle.1 hle.2) hle.2

theorem values_adopt (d content : Document) (offset : Nat) :
    (d.adopt content offset).values = d.values := by
  let I : Document → Prop := fun d' => d'.values = d.values
  show I (d.adopt content offset)
  refine foldl_invariant (I := I) ?_ _ (foldl_invariant (I := I) ?_ _ (foldl_invariant (I := I) ?_ _ rfl))
  · exact fun _ _ h => h
  · exact fun _ _ h => h
  · exact fun _ _ h => h

/-- The bookmarks that come with a content, which lies behind `u` in the text. -/
theorem bookmarks_adopt {content : Document} (hcontent : content.WellFormed) {u v : Text}
    (htext : d.text = u ++ content.text ++ v) :
    ∃ bs, (d.adopt content (Text.byteLength u)).bookmarks = d.bookmarks ++ bs ∧
      List.Forall₂ (fun b' b => Variant b.name b'.name ∧ b'.span = b.span.shift (Text.byteLength u)) bs
        content.bookmarks := by
  let I : Document → Prop := fun d' => ∃ bs, d'.bookmarks = d.bookmarks ++ bs ∧
    List.Forall₂ (fun b' b => Variant b.name b'.name ∧ b'.span = b.span.shift (Text.byteLength u)) bs
      content.bookmarks
  suffices h : I (d.adopt content (Text.byteLength u)) from h
  refine foldl_invariant (I := I) ?_ _ (foldl_invariant (I := I) ?_ _ ?_)
  · exact fun _ _ h => h
  · exact fun _ _ h => h
  have hheld : ∀ b ∈ content.bookmarks,
      Span.heldBeside d.length (b.span.shift (Text.byteLength u)) = b.span.shift (Text.byteLength u) :=
    fun b hb => heldBeside_shift htext (hcontent.bookmarks b hb)
  have hfold : ∀ (cs : List Bookmark) (d₀ : Document), cs ⊆ content.bookmarks → ∃ bs,
      (cs.foldl (fun d' b => (d'.addBookmark b.name
        (Span.heldBeside d.length (b.span.shift (Text.byteLength u)))).1) d₀).bookmarks =
          d₀.bookmarks ++ bs ∧
      List.Forall₂ (fun b' b => Variant b.name b'.name ∧
        b'.span = b.span.shift (Text.byteLength u)) bs cs := by
    intro cs
    induction cs with
    | nil => exact fun d₀ _ => ⟨[], (List.append_nil _).symm, .nil⟩
    | cons b cs ih =>
      intro d₀ hcs
      obtain ⟨bs, hbs, hall⟩ := ih (d₀.addBookmark b.name
        (Span.heldBeside d.length (b.span.shift (Text.byteLength u)))).1 fun b' hb' => hcs (by simp [hb'])
      refine ⟨⟨d₀.uniqueName b.name none, _⟩ :: bs, ?_,
        .cons ⟨variant_uniqueName d₀ b.name none, hheld b (hcs (by simp))⟩ hall⟩
      rw [List.foldl_cons, hbs]
      exact List.append_assoc _ _ _
  exact hfold content.bookmarks d fun _ h => h

/-- Commands of a content lie to each other where they come to lie as they did in the content. -/
theorem pairwise_adopted {R : Span → Span → Prop} {n : Nat}
    (hshift : ∀ {s t : Span}, R s t → R (s.shift n) (t.shift n)) {bs cs : List Bookmark}
    (hall : List.Forall₂ (fun b' b => Variant b.name b'.name ∧ b'.span = b.span.shift n) bs cs)
    (h : cs.Pairwise fun b c => IsCommandName b.name → IsCommandName c.name → R b.span c.span) :
    bs.Pairwise fun b c => IsCommandName b.name → IsCommandName c.name → R b.span c.span := by
  induction hall with
  | nil => exact .nil
  | @cons b' b bs cs hb hall ih =>
    obtain ⟨hfirst, hrest⟩ := List.pairwise_cons.1 h
    refine List.pairwise_cons.2 ⟨fun c' hc' hbn hcn => ?_, ih hrest⟩
    obtain ⟨c, hc, hvariant, hspan⟩ := exists_of_forall₂_of_mem hall hc'
    rw [hb.2, hspan]
    exact hshift (hfirst c hc (hb.1.isCommandName.1 hbn) (hvariant.isCommandName.1 hcn))

/-- A bookmark of the document with a content is one of the document's or lies in the content's text. -/
theorem exists_of_span?_adopt {content : Document} {bs : List Bookmark} {offset : Nat}
    (hbs : (d.adopt content offset).bookmarks = d.bookmarks ++ bs) {n : String} {s : Span}
    (h : (d.adopt content offset).span? n = some s) :
    d.span? n = some s ∨ ∃ b ∈ bs, b.name = n ∧ b.span = s := by
  obtain ⟨b, hb, rfl⟩ := Option.map_eq_some_iff.1 h
  unfold bookmark? at hb
  rw [hbs, List.find?_append] at hb
  rcases Option.or_eq_some_iff.1 hb with hold | ⟨-, hnew⟩
  · exact .inl (congrArg (Option.map _) hold)
  · exact .inr ⟨b, List.mem_of_find?_eq_some hnew, by simpa using List.find?_some hnew, rfl⟩

/-- What comes with a content lies in its text. -/
theorem within_of_fits {t u : Text} {g : Span} (hg : g.fits t = true) :
    (g.shift (Text.byteLength u)).within (u.stretch t) = true := by
  have hle := Span.le_of_fits hg
  rw [Span.within_iff, Text.stretch_eq]
  simp only [Span.shift]
  omega

/-- The texts that stay do so when a content's bookmarks and fields are adopted inside the span of a
command. -/
theorem framed_adopt {content : Document} {u v : Text} {r : Span}
    (h : Framed kept d.text (d.Pinned [])) (hcontent : content.WellFormed)
    (htext : d.text = u ++ content.text ++ v) (hr : d.Pinned [] r)
    (hwithin : (u.stretch content.text).within r = true) :
    Framed kept (d.adopt content (Text.byteLength u)).text
      ((d.adopt content (Text.byteLength u)).Pinned []) := by
  obtain ⟨bs, hbs, hall⟩ := bookmarks_adopt hcontent htext
  rw [text_adopt]
  refine h.mono ?_
  rintro s (⟨n, hn, hs⟩ | ⟨f, -, hid, -⟩)
  · rcases exists_of_span?_adopt hbs hs with hs | ⟨b, hb, -, rfl⟩
    · exact ⟨s, .inl ⟨n, hn, hs⟩, Span.within_refl s⟩
    · obtain ⟨c, hc, -, hspan⟩ := exists_of_forall₂_of_mem hall hb
      have hinside := within_of_fits (u := u) (hcontent.bookmarks c hc)
      rw [← hspan] at hinside
      refine ⟨r, hr, Span.within_iff.2 ?_⟩
      rw [Span.within_iff] at hwithin hinside
      omega
  · cases hid

/-- The commands and fields of a content come to lie where its text is, between the marks of the
innermost command. -/
theorem Layout.adopted {content : Document} {u v : Text} {r : Span}
    (h : d.Layout kept (x :: marked) []) (hinner : d.Innermost marked x)
    (hcontent : content.WellFormed) (hapart : content.CommandsApart)
    (hfound : ∀ y ∈ x :: marked, y ∈ d.names) (htext : d.text = u ++ content.text ++ v)
    (hr : d.span? x = some r) (hbetween : (u.stretch content.text).Between r) :
    (d.adopt content (Text.byteLength u)).Layout kept (x :: marked) [] := by
  have hx : IsCommandName x := h.named x (by simp)
  have htext' : (d.adopt content (Text.byteLength u)).text = d.text := text_adopt _ _ _
  obtain ⟨bs, hbs, hall⟩ := bookmarks_adopt hcontent htext
  have hpairwise : bs.Pairwise ApartAsCommands :=
    pairwise_adopted (fun hst => hst.shift _) hall hapart
  -- what comes with the content lies in its text
  have hnew : ∀ b ∈ bs, b.span.within (u.stretch content.text) = true := fun b hb => by
    obtain ⟨c, hc, -, hspan⟩ := exists_of_forall₂_of_mem hall hb
    exact hspan ▸ within_of_fits (hcontent.bookmarks c hc)
  have hfields : ∀ f ∈ (d.adopt content (Text.byteLength u)).fields,
      f ∈ d.fields ∨ f.span.within (u.stretch content.text) = true := fun f hf => by
    refine (mem_fields_adopt hf).imp_right ?_
    rintro ⟨g, hg, hspan⟩
    rw [hspan, heldBeside_shift htext (hcontent.fields g hg)]
    exact within_of_fits (hcontent.fields g hg)
  -- and so it is apart from other commands or between their marks
  have hwithin : (u.stretch content.text).within r = true :=
    Span.within_iff.2 ⟨Nat.le_of_lt hbetween.1, Nat.le_of_lt hbetween.2⟩
  have hplace : ∀ n, IsCommandName n → ∀ t, d.span? n = some t →
      (u.stretch content.text).Apart t ∨ (n ∈ x :: marked ∧ (u.stretch content.text).Between t) := by
    intro n hn t ht
    rcases eq_or_ne n x with rfl | hne
    · obtain rfl := Option.some.inj (hr.symm.trans ht)
      exact .inr ⟨by simp, hbetween⟩
    · rcases hinner n hn hne r t hr ht with hapart' | ⟨hmark, hb⟩
      · exact .inl (hapart'.within hwithin)
      · exact .inr ⟨by simp [hmark], hb.within hwithin⟩
  have hmarked : ∀ y ∈ x :: marked, ∀ t,
      (d.adopt content (Text.byteLength u)).span? y = some t → d.span? y = some t := by
    intro y hy t ht
    rwa [span?_adopt (hfound y hy)] at ht
  have hpair : ∀ m n, IsCommandName m → ∀ s, d.span? m = some s → ∀ b ∈ bs,
      Placed (x :: marked) m s n b.span := by
    intro m n hm s hs b hb
    rcases hplace m hm s hs with hapart' | ⟨hmark, hb'⟩
    · exact .inl (hapart'.within (hnew b hb)).symm
    · exact .inr (.inr ⟨hmark, hb'.within (hnew b hb)⟩)
  refine ⟨consistent_adopt h.consistent hcontent htext, h.named, ?_, ?_, ?_,
    framed_adopt h.framed hcontent htext (.inl ⟨x, hx, hr⟩) hwithin,
    h.still.imp_right (values_adopt d content _).trans⟩
  · intro y hy t ht
    rw [htext']
    exact h.enclosed y hy t (hmarked y hy t ht)
  · intro m n hm hn hne s t hs ht
    rcases exists_of_span?_adopt hbs hs with hs | ⟨b, hb, rfl, rfl⟩
    · rcases exists_of_span?_adopt hbs ht with ht | ⟨c, hc, rfl, rfl⟩
      · exact h.commands m n hm hn hne s t hs ht
      · exact hpair m _ hm s hs c hc
    · rcases exists_of_span?_adopt hbs ht with ht | ⟨c, hc, rfl, rfl⟩
      · exact (hpair n _ hn t ht b hb).symm
      · exact .inl (hpairwise.forall hb hc (fun heq => hne (congrArg Bookmark.name heq)) hm hn)
  · intro y hy t ht f hf
    have ht' := hmarked y hy t ht
    rcases hfields f hf with hf | hwithin
    · exact h.fields y hy t ht' f hf
    · exact .inl (Span.Avoids.within ((hplace y (h.named y hy) t ht').imp_right And.right) hwithin)

theorem between_marks (a : Text) : ((a ++ ['<']).stretch []).Between (a.stretch Command.marks) := by
  rw [Text.stretch, Text.stretch, List.append_nil, byteLength_marks, byteLength_mark]
  exact ⟨Nat.lt_succ_self _, Nat.lt_succ_self _⟩

/-- A text between marks in the place of a command: no command is lost. -/
theorem Layout.withText {a m z : Text} (h : d.Layout kept marked []) (hx : IsCommandName x)
    (hxm : x ∉ marked) (htext : d.text = a ++ m ++ z) (hs : d.span? x = some (a.stretch m)) (t : Text) :
    let d' := d.withText a m z x t
    d'.Layout kept (x :: marked) [] ∧ d'.Innermost marked x ∧
      (∃ r, d'.span? x = some r ∧ ((a ++ ['<']).stretch t).Between r) ∧
      ∀ n, IsCommandName n → n ∈ d.names → n ∈ d'.names := by
  intro d'
  obtain ⟨hunmarked, hkept⟩ := h.edited_command hx hxm htext hs Command.marks
  obtain ⟨h', hinner, hs', hkept'⟩ := (h.withMarks hx hxm htext hs).edited_between
    (hunmarked.innermost hx hxm) (text_withMarks d a m z _) (span?_edited_owner hs) (between_marks a) t
  refine ⟨h', hinner, ⟨_, hs', ?_⟩, fun n hn hmem => hkept' n hn (hkept n hn hmem)⟩
  rw [Text.stretch_eq, byteLength_mark]
  refine ⟨Nat.lt_succ_self _, ?_⟩
  show _ < Text.byteLength (a ++ Command.marks) + _
  rw [byteLength_marks]
  dsimp only
  omega

/-- A content between marks in the place of a command: no command is lost, and the region of the content
avoids the ends of all other commands that were there. -/
theorem Layout.withContent {content : Document} {a m z : Text} (h : d.Layout kept marked [])
    (hx : IsCommandName x) (hxm : x ∉ marked) (hfound : ∀ y ∈ marked, y ∈ d.names)
    (hcontent : content.WellFormed) (hapart : content.CommandsApart) (htext : d.text = a ++ m ++ z)
    (hs : d.span? x = some (a.stretch m)) :
    let d' := d.withContent a m z x content
    d'.Layout kept (x :: marked) [] ∧ (∀ n, IsCommandName n → n ∈ d.names → n ∈ d'.names) ∧
      ∃ r, d'.span? x = some r ∧
        ∀ n, IsCommandName n → n ∈ d.names → n ≠ x → ∀ t, d'.span? n = some t → r.Avoids t := by
  intro d'
  let d₂ := d.withText a m z x content.text
  obtain ⟨h₂, hinner₂, ⟨r, hs₂, hbetween₂⟩, hkept⟩ : d₂.Layout kept (x :: marked) [] ∧
      d₂.Innermost marked x ∧ (∃ r, d₂.span? x = some r ∧ _) ∧ _ :=
    h.withText hx hxm htext hs content.text
  have hmem₂ : x ∈ d₂.names := isSome_span?_iff.1 (Option.isSome_iff_exists.2 ⟨r, hs₂⟩)
  have hspan : ∀ {n}, n ∈ d₂.names → d'.span? n = d₂.span? n := fun hn => span?_adopt hn _ _
  refine ⟨h₂.adopted hinner₂ hcontent hapart ?_ rfl hs₂ hbetween₂, ?_, r, (hspan hmem₂).trans hs₂, ?_⟩
  · intro y hy
    rcases List.mem_cons.1 hy with rfl | hy
    · exact hmem₂
    · exact hkept y (h.named y hy) (hfound y hy)
  · intro n hn hmem
    rw [← isSome_span?_iff, hspan (hkept n hn hmem), isSome_span?_iff]
    exact hkept n hn hmem
  · intro n hn hmem hne t ht
    rw [hspan (hkept n hn hmem)] at ht
    exact hinner₂.avoids hn hne hs₂ ht

/-! ### Placeholders -/

/-- Whether all fields with one of the ids avoid the ends of some bookmarks that are there. -/
def FillsBeside (d : Document) (names : List String) (ids : List Nat) : Prop :=
  ∀ n ∈ names, ∃ s, d.span? n = some s ∧ ∀ f ∈ d.fields, f.id ∈ ids → f.span.Avoids s

/-- The placeholders in the span of a command lie between the texts that stay. -/
theorem framed_placeholdersWithin (hd : d.Consistent) (h : Framed kept d.text (d.Pinned [])) {r : Span}
    (hr : d.Pinned [] r) : Framed kept d.text (d.Pinned (d.placeholdersWithin r)) := by
  refine h.mono ?_
  rintro s (⟨n, hn, hs⟩ | ⟨f, hf, hid, rfl⟩)
  · exact ⟨s, .inl ⟨n, hn, hs⟩, Span.within_refl s⟩
  · exact ⟨r, hr, within_of_mem_placeholdersWithin hd hf hid⟩

/-- The placeholders of a content can be filled in beside all commands that were there before it. -/
theorem Layout.fillsBeside {names : List String} {r : Span} (h : d.Layout kept (x :: marked) [])
    (hr : d.span? x = some r) (hyield : d.FieldsYield x)
    (hnames : ∀ n ∈ names, n ∈ d.names)
    (havoids : ∀ n ∈ names, n ≠ x → ∀ t, d.span? n = some t → r.Avoids t) :
    d.Layout kept (x :: marked) (d.placeholdersWithin r) ∧
      d.FillsBeside names (d.placeholdersWithin r) := by
  refine ⟨⟨h.consistent, h.named, h.enclosed, h.commands, h.fields,
    framed_placeholdersWithin h.consistent h.framed (.inl ⟨x, h.named x (by simp), hr⟩), h.still⟩,
    fun n hn => ?_⟩
  obtain ⟨t, ht⟩ := Option.isSome_iff_exists.1 (isSome_span?_iff.2 (hnames n hn))
  refine ⟨t, ht, fun f hf hid => ?_⟩
  have hfr := within_of_mem_placeholdersWithin h.consistent hf hid
  rcases eq_or_ne n x with rfl | hne
  · obtain rfl := Option.some.inj (hr.symm.trans ht)
    exact Span.avoids_of_yields (hyield r hr f hf hfr) hfr
  · exact (havoids n hn hne t ht).within hfr

/-- Filling in a placeholder beside all marked commands loses no bookmark beside it. -/
theorem Layout.replacePlaceholder {names : List String} {ids : List Nat}
    (h : d.Layout kept marked ids) (hfill : d.FillsBeside names ids) (hmarked : marked ⊆ names)
    {id : Nat} (hid : id ∈ ids) (t : Text) :
    Ends (fun _ => False) (d.replacePlaceholder id t) fun attempt => ∀ d', attempt = .ok d' →
      d'.Layout kept marked ids ∧ d'.FillsBeside names ids := by
  have hd := h.consistent.toWellFormed
  unfold Document.replacePlaceholder
  split
  · rintro d' ⟨⟩
  next f hf =>
    obtain ⟨a, m, z, htext, hstart, hstop⟩ := Span.fits_iff.1 (fits_of_field? hd hf)
    have hspan : f.span = a.stretch m := by rw [Text.stretch, hstart, hstop]
    have hmem := List.mem_of_find?_eq_some hf
    have hfid : f.id ∈ ids := by
      have : f.id = id := by simpa using List.find?_some hf
      exact this ▸ hid
    rw [hspan, edit_eq htext]
    rintro d' ⟨⟩
    let d₁ := d.replaced (replacementOf a m z t none) (a ++ t ++ z)
    have hedited : d₁.Layout kept marked ids := by
      refine h.edited_within htext trivial (fun y hy r hr => .inl ?_)
        (.inr ⟨f, hmem, hfid, rfl⟩) (hspan ▸ Span.within_refl _)
      obtain ⟨s, hs, havoids⟩ := hfill y (hmarked hy)
      obtain rfl := Option.some.inj (hs.symm.trans hr)
      exact hspan ▸ havoids f hmem hfid
    have hfields : ∀ {g}, g ∈ d₁.fields.filter (·.id ≠ id) → g ∈ d₁.fields := fun hg =>
      (List.mem_filter.1 hg).1
    refine ⟨hedited.narrowed (consistent_withoutField hedited.consistent id) rfl rfl
      (fun g hg => hfields hg) (fun _ h => h) fun _ _ h => h, ?_⟩
    intro n hn
    obtain ⟨s, hs, havoids⟩ := hfill n hn
    have hedit : (a.stretch m).Avoids s := hspan ▸ havoids f hmem hfid
    obtain ⟨s', hs', hfollow | hown⟩ :
        ∃ s', (d.replaced (replacementOf a m z t none) (a ++ t ++ z)).span? n = some s' ∧ _ :=
      exists_span?_edited hd htext hs hedit
    · refine ⟨s', hs', fun g hg hgid => ?_⟩
      obtain ⟨g₀, hg₀, hid₀, hre⟩ := exists_of_mem_fields_edited hd htext (by simp) (hfields hg)
      exact Span.Avoids.reanchor (Span.le_of_fits (hd.fields g₀ hg₀)).1 (Text.stretch_le a m)
        (le_of_span? hd hs) hedit (havoids g₀ hg₀ (hid₀ ▸ hgid)) hre hfollow
    · cases hown

end Document

/-- Filling in the placeholders of a content. -/
theorem keptByFilling_layout {kept : List Text} {marked names : List String} {ids : List Nat}
    (hmarked : marked ⊆ names) :
    KeptByFilling ids fun d => d.Layout kept marked ids ∧ d.FillsBeside names ids where
  wellFormed h := h.1.consistent.toWellFormed
  setCursor h hfits := ⟨h.1.narrowed (consistent_setCursor h.1.consistent hfits) rfl rfl
    (fun _ h => h) (fun _ h => h) fun _ _ h => h, h.2⟩
  replacePlaceholder h hid t _ := h.1.replacePlaceholder h.2 hmarked hid t

end TemplateEngine
