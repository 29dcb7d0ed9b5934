import TemplateEngine.Proofs.Enclosing

/-!
# Spacing — commands that do not touch

Of two commands that do not touch each other, one comes first: it ends before the other starts, or it has
the other strictly inside (`Span.Ahead`).  Where all commands lie so (`Document.Spaced`), an edit on behalf
of a command, or of some text beside the marks, does not change which of two comes first
(`Layout.keepsAhead_edited`, `Layout.keepsAhead_filled`).  Commands that touch can lose their order: one
that becomes empty falls behind the one that starts at its end, and new text at the start of a parent
pushes the parent back.
-/

namespace TemplateEngine

namespace Span

variable {s t e s' t' : Span} {n : Nat}

/-- Whether there is something between two spans. -/
def Separate (s t : Span) : Prop := s.stop < t.start ∨ t.stop < s.start

/-- Whether an edit of `e` is separate from `s` or strictly inside. -/
def Misses (e s : Span) : Prop := e.Separate s ∨ e.Between s

/-- Whether `s` comes first: it ends before `t` starts, or it has `t` strictly inside. -/
def Ahead (s t : Span) : Prop := s.stop < t.start ∨ t.Between s

instance (s t : Span) : Decidable (s.Ahead t) := inferInstanceAs (Decidable (_ ∨ _))

theorem Separate.symm (h : s.Separate t) : t.Separate s := Or.symm h

theorem Separate.apart (h : s.Separate t) : s.Apart t := h.imp Nat.le_of_lt Nat.le_of_lt

theorem Separate.shift (h : s.Separate t) (n : Nat) : (s.shift n).Separate (t.shift n) :=
  h.imp (Nat.add_lt_add_right · n) (Nat.add_lt_add_right · n)

theorem Misses.avoids (h : e.Misses s) : e.Avoids s := h.imp_left Separate.apart

theorem Misses.within {e' : Span} (h : e.Misses s) (hw : e'.within e = true) : e'.Misses s := by
  rw [within_iff] at hw
  unfold Misses Separate Between at *
  omega

theorem Separate.ahead (h : s.Separate t) : s.Ahead t ∨ t.Ahead s := h.imp .inl .inl

/-- What an edit misses comes first or second. -/
theorem Misses.ahead (h : e.Misses s) : s.Ahead e ∨ e.Ahead s :=
  h.elim (fun h => h.symm.ahead) fun h => .inl (.inr h)

theorem Ahead.start_lt (hs : s.start ≤ s.stop) (h : s.Ahead t) : s.start < t.start :=
  h.elim (Nat.lt_of_le_of_lt hs) And.left

theorem Ahead.asymm (hs : s.start ≤ s.stop) (ht : t.start ≤ t.stop) (h : s.Ahead t) : ¬ t.Ahead s :=
  fun h' => Nat.lt_asymm (h.start_lt hs) (h'.start_lt ht)

/-- An edit leaves two spans as they were ahead if it puts some text in, or touches neither. -/
theorem Ahead.reanchor (hs : s.start ≤ s.stop) (ht : t.start ≤ t.stop) (he : e.start ≤ e.stop)
    (hedit : 0 < n ∨ (e.Misses s ∧ e.Misses t)) (hinside : t.Between s → e.Avoids s) (h : s.Ahead t)
    (hs' : s.reanchor e n = some s') (ht' : t.reanchor e n = some t') : s'.Ahead t' := by
  rcases h with h | h
  · left
    have hstop := stop_reanchor hs hs'
    have hstart := start_reanchor ht ht'
    unfold Misses Separate Between at hedit
    omega
  · exact .inr (Between.reanchor ht he (hinside h) h ht' hs')

/-- The text that replaces a span is ahead of what the span was ahead of. -/
theorem Ahead.renewed (ht : t.start ≤ t.stop) (he : e.start ≤ e.stop) (h : e.stop < t.start)
    (ht' : t.reanchor e n = some t') : (⟨e.start, e.start + n⟩ : Span).Ahead t' := by
  left
  have hstart := start_reanchor ht ht'
  dsimp only
  omega

/-- What was ahead of a span is ahead of the text that replaces it. -/
theorem Ahead.before_renewed (hs : s.start ≤ s.stop) (he : e.start ≤ e.stop) (h : s.Ahead e)
    (hs' : s.reanchor e n = some s') : s'.Ahead ⟨e.start, e.start + n⟩ := by
  rcases h with h | h
  · left
    have hstop := stop_reanchor hs hs'
    dsimp only
    omega
  · have hroom : s.start + 2 ≤ s.stop := by
      have := h.1
      have := h.2
      omega
    exact .inr (h.renewed he hroom hs')

end Span

namespace Document

/-- Whether one of any two commands of the document comes first. -/
def Spaced (d : Document) : Prop :=
  ∀ m n, IsCommandName m → IsCommandName n → m ≠ n → ∀ s t, d.span? m = some s →
    d.span? n = some t → s.Ahead t ∨ t.Ahead s

/-- Whether of the commands of a document that are still there, those come first that did. -/
def KeepsAhead (d d' : Document) : Prop :=
  ∀ m n, IsCommandName m → IsCommandName n → ∀ s t s' t', d.span? m = some s → d.span? n = some t →
    d'.span? m = some s' → d'.span? n = some t' → s.Ahead t → s'.Ahead t'

theorem Spaced.keep {d d' : Document} (h : d.Spaced) (hkeeps : KeepsAhead d d')
    (hback : ∀ n s', d'.span? n = some s' → ∃ s, d.span? n = some s) : d'.Spaced := by
  intro m n hm hn hne s' t' hs' ht'
  obtain ⟨s, hs⟩ := hback m s' hs'
  obtain ⟨t, ht⟩ := hback n t' ht'
  exact (h m n hm hn hne s t hs ht).imp (hkeeps m n hm hn s t s' t' hs ht hs' ht')
    (hkeeps n m hn hm t s t' s' ht hs ht' hs')

section Edits

variable {kept : List Text} {marked : List String} {ids : List Nat} {d : Document} {a m z new : Text}
  {x : String}

/-- An edit of the innermost command touches no other command. -/
theorem Spaced.misses (h : d.Spaced) (hd : d.WellFormed) (hx : IsCommandName x)
    (hinner : d.Innermost marked x) {n : String} (hn : IsCommandName n) (hne : n ≠ x) {s t : Span}
    (hs : d.span? x = some s) (ht : d.span? n = some t) : s.Misses t := by
  have hsle := le_of_span? hd hs
  have htle := le_of_span? hd ht
  have hplaced := hinner n hn hne s t hs ht
  have hahead := h x n hx hn hne.symm s t hs ht
  unfold Span.Ahead Span.Misses Span.Separate Span.Apart Span.Between at *
  omega

/-- An edit on behalf of the innermost command, or one that touches no command. -/
theorem keepsAhead_edited {owner : Option Owner} (hd : d.WellFormed) (htext : d.text = a ++ m ++ z)
    (howner : ∀ n, owner = some (.bookmark n) → d.span? n = some (a.stretch m))
    (hmisses : ∀ n, IsCommandName n → owner ≠ some (.bookmark n) → ∀ t, d.span? n = some t →
      (a.stretch m).Misses t) :
    KeepsAhead d (d.replaced (replacementOf a m z new owner) (a ++ new ++ z)) := by
  intro m' n hm hn s t s' t' hs ht hs' ht' hahead
  have he := Text.stretch_le a m
  have hsle := le_of_span? hd hs
  have htle := le_of_span? hd ht
  have hnew := Text.stretch_eq a new
  have hown : ∀ {n : String} {s s' : Span}, owner = some (.bookmark n) → d.span? n = some s →
      (d.replaced (replacementOf a m z new owner) (a ++ new ++ z)).span? n = some s' →
      s = a.stretch m ∧ s' = a.stretch new := by
    rintro n s s' rfl hs hs'
    rw [span?_edited_owner hs] at hs'
    exact ⟨Option.some.inj (hs.symm.trans (howner n rfl)), (Option.some.inj hs').symm⟩
  have hfollow : ∀ {n : String} {s s' : Span}, owner ≠ some (.bookmark n) → d.span? n = some s →
      (d.replaced (replacementOf a m z new owner) (a ++ new ++ z)).span? n = some s' →
      s.reanchor (a.stretch m) (Text.byteLength new) = some s' := by
    intro n s s' hne hs hs'
    rwa [span?_edited hd htext hne, hs] at hs'
  by_cases hsown : owner = some (.bookmark m')
  · obtain ⟨rfl, rfl⟩ := hown hsown hs hs'
    by_cases htown : owner = some (.bookmark n)
    · obtain ⟨rfl, -⟩ := hown htown ht ht'
      exact absurd hahead (hahead.asymm hsle htle)
    · have hmiss := hmisses n hn htown t ht
      have hbehind : (a.stretch m).stop < t.start := by
        unfold Span.Ahead Span.Misses Span.Separate Span.Between at *
        omega
      rw [hnew]
      exact Span.Ahead.renewed htle he hbehind (hfollow htown ht ht')
  · have hsmiss := hmisses m' hm hsown s hs
    by_cases htown : owner = some (.bookmark n)
    · obtain ⟨rfl, rfl⟩ := hown htown ht ht'
      rw [hnew]
      exact hahead.before_renewed hsle he (hfollow hsown hs hs')
    · exact hahead.reanchor hsle htle he (.inr ⟨hsmiss, hmisses n hn htown t ht⟩)
        (fun _ => hsmiss.avoids) (hfollow hsown hs hs') (hfollow htown ht ht')

/-- Some text in the place of a stretch that avoids the ends of all marked commands. -/
theorem Layout.keepsAhead_filled (h : d.Layout kept marked ids) (htext : d.text = a ++ m ++ z)
    (hnew : new ≠ [])
    (havoids : ∀ x ∈ marked, ∀ r, d.span? x = some r → (a.stretch m).Avoids r) :
    KeepsAhead d (d.replaced (replacementOf a m z new none) (a ++ new ++ z)) := by
  have hd := h.consistent.toWellFormed
  intro m' n hm hn s t s' t' hs ht hs' ht' hahead
  have hsle := le_of_span? hd hs
  have htle := le_of_span? hd ht
  have hfollow : ∀ {n : String} {s s' : Span}, d.span? n = some s →
      (d.replaced (replacementOf a m z new none) (a ++ new ++ z)).span? n = some s' →
      s.reanchor (a.stretch m) (Text.byteLength new) = some s' := by
    intro n s s' hs hs'
    rwa [span?_edited hd htext (by simp), hs] at hs'
  have hsome : 0 < Text.byteLength new :=
    Nat.pos_of_ne_zero fun h0 => hnew (Text.eq_nil_of_byteLength_eq_zero h0)
  refine hahead.reanchor hsle htle (Text.stretch_le a m) (.inl hsome) (fun hinside => ?_)
    (hfollow hs hs') (hfollow ht ht')
  have hne : m' ≠ n := by
    rintro rfl
    obtain rfl := Option.some.inj (hs.symm.trans ht)
    exact Nat.lt_irrefl _ hinside.1
  -- only marked commands have commands inside
  rcases h.commands m' n hm hn hne s t hs ht with hapart | ⟨-, hbetween⟩ | ⟨hmark, -⟩
  · unfold Span.Apart Span.Between at *
    omega
  · exact absurd hbetween.1 (Nat.lt_asymm hinside.1)
  · exact havoids m' hmark s hs

end Edits

/-! ### Contents -/

/-- Whether two bookmarks, if they hold commands, do not touch. -/
def SpacedAsCommands (b c : Bookmark) : Prop :=
  IsCommandName b.name → IsCommandName c.name → b.span.Separate c.span

instance : Std.Symm SpacedAsCommands := ⟨fun _ _ h hc hb => (h hb hc).symm⟩

/-- Whether the commands of a document neither overlap nor touch. -/
def CommandsSpaced (d : Document) : Prop := d.bookmarks.Pairwise SpacedAsCommands

theorem CommandsSpaced.apart {d : Document} (h : d.CommandsSpaced) : d.CommandsApart :=
  h.imp fun hbc hb hc => (hbc hb hc).apart

theorem CommandsSpaced.spaced {d : Document} (h : d.CommandsSpaced) : d.Spaced := by
  intro m n hm hn hne s t hs ht
  obtain ⟨b, hb, rfl⟩ := Option.map_eq_some_iff.1 hs
  obtain ⟨c, hc, rfl⟩ := Option.map_eq_some_iff.1 ht
  have hbn : b.name = m := by simpa using List.find?_some hb
  have hcn : c.name = n := by simpa using List.find?_some hc
  exact (h.forall (List.mem_of_find?_eq_some hb) (List.mem_of_find?_eq_some hc)
    (fun heq => hne (by rw [← hbn, ← hcn, heq])) (hbn ▸ hm) (hcn ▸ hn)).ahead

section Contents

variable {marked : List String} {d content : Document} {u v : Text} {x : String} {r : Span}

/-- The commands of a content do not touch those of the document where they come to lie. -/
theorem Spaced.adopt (h : d.Spaced) (hd : d.WellFormed) (hx : IsCommandName x)
    (hinner : d.Innermost marked x) (hcontent : content.WellFormed) (hspaced : content.CommandsSpaced)
    (htext : d.text = u ++ content.text ++ v) (hr : d.span? x = some r)
    (hbetween : (u.stretch content.text).Between r) :
    (d.adopt content (Text.byteLength u)).Spaced := by
  obtain ⟨bs, hbs, hall⟩ := bookmarks_adopt hcontent htext
  have hpairwise : bs.Pairwise SpacedAsCommands :=
    pairwise_adopted (fun hst => hst.shift _) hall hspaced
  have hnew : ∀ b ∈ bs, b.span.within (u.stretch content.text) = true := fun b hb => by
    obtain ⟨c, hc, -, hspan⟩ := exists_of_forall₂_of_mem hall hb
    have hle := Span.le_of_fits (hcontent.bookmarks c hc)
    rw [hspan, Span.within_iff, Text.stretch_eq]
    simp only [Span.shift]
    omega
  have hmisses : ∀ n, IsCommandName n → ∀ t, d.span? n = some t → ∀ b ∈ bs, b.span.Misses t := by
    intro n hn t ht b hb
    rcases eq_or_ne n x with rfl | hne
    · obtain rfl := Option.some.inj (hr.symm.trans ht)
      exact .inr (hbetween.within (hnew b hb))
    · have hwithin : (u.stretch content.text).within r = true :=
        Span.within_iff.2 ⟨Nat.le_of_lt hbetween.1, Nat.le_of_lt hbetween.2⟩
      exact ((h.misses hd hx hinner hn hne hr ht).within hwithin).within (hnew b hb)
  intro m n hm hn hne s t hs ht
  rcases exists_of_span?_adopt hbs hs with hs | ⟨b, hb, rfl, rfl⟩
  · rcases exists_of_span?_adopt hbs ht with ht | ⟨c, hc, rfl, rfl⟩
    · exact h m n hm hn hne s t hs ht
    · exact (hmisses m hm s hs c hc).ahead
  · rcases exists_of_span?_adopt hbs ht with ht | ⟨c, hc, rfl, rfl⟩
    · exact (hmisses n hn t ht b hb).ahead.symm
    · exact (hpairwise.forall hb hc (fun heq => hne (congrArg Bookmark.name heq)) hm hn).ahead

end Contents

/-! ### Names in the order of their bookmarks -/

/-- Whether some commands are there, each ahead of those listed behind it, and all commands are spaced. -/
structure Lined (ns : List String) (d : Document) : Prop where
  named : ∀ n ∈ ns, IsCommandName n
  found : ∀ n ∈ ns, n ∈ d.names
  spaced : d.Spaced
  ordered : ns.Pairwise fun m n => ∀ s t, d.span? m = some s → d.span? n = some t → s.Ahead t

namespace Lined

variable {kept : List Text} {marked : List String} {ids : List Nat} {ns before after : List String}
  {d d' : Document} {x : String} {a m z : Text}

theorem nodup (h : Lined ns d) (hd : d.WellFormed) : ns.Nodup := by
  refine List.Pairwise.imp_of_mem (fun {m n} hm _ hahead => ?_) h.ordered
  rintro rfl
  obtain ⟨s, hs⟩ := Option.isSome_iff_exists.1 (isSome_span?_iff.2 (h.found m hm))
  exact Nat.lt_irrefl _ ((hahead s s hs hs).start_lt (le_of_span? hd hs))

/-- The document changes, loses none of the commands and changes none of their places in the order. -/
theorem keep (h : Lined ns d) (hfound : ∀ n ∈ ns, n ∈ d'.names) (hkeeps : KeepsAhead d d')
    (hspaced : d'.Spaced) : Lined ns d' := by
  refine ⟨h.named, hfound, hspaced, List.Pairwise.imp_of_mem (fun {m n} hm hn hahead => ?_) h.ordered⟩
  intro s' t' hs' ht'
  obtain ⟨s, hs⟩ := Option.isSome_iff_exists.1 (isSome_span?_iff.2 (h.found m hm))
  obtain ⟨t, ht⟩ := Option.isSome_iff_exists.1 (isSome_span?_iff.2 (h.found n hn))
  exact hkeeps m n (h.named m hm) (h.named n hn) s t s' t' hs ht hs' ht' (hahead s t hs ht)

/-- The document changes and leaves these commands where they are. -/
theorem of_span?_eq (h : Lined ns d) (hspan : ∀ n ∈ ns, d'.span? n = d.span? n) (hspaced : d'.Spaced) :
    Lined ns d' := by
  refine ⟨h.named, fun n hn => ?_, hspaced,
    List.Pairwise.imp_of_mem (fun {m n} hm hn hahead => ?_) h.ordered⟩
  · rw [← isSome_span?_iff, hspan n hn, isSome_span?_iff]
    exact h.found n hn
  · rwa [hspan m hm, hspan n hn]

/-- The document changes in what is no bookmark. -/
theorem sameBookmarks (h : Lined ns d) (hbookmarks : d'.bookmarks = d.bookmarks) : Lined ns d' := by
  have hspan : ∀ n, d'.span? n = d.span? n := fun n => by
    rw [span?, span?, bookmark?, bookmark?, hbookmarks]
  refine h.of_span?_eq (fun n _ => hspan n) fun m n hm hn hne s t hs ht => ?_
  exact h.spaced m n hm hn hne s t (hspan m ▸ hs) (hspan n ▸ ht)

/-- The text of a command without marks is replaced. -/
theorem edited_command (h : Lined ns d) (hlayout : d.Layout kept marked []) (hx : IsCommandName x)
    (hxm : x ∉ marked) (htext : d.text = a ++ m ++ z) (hs : d.span? x = some (a.stretch m))
    (new : Text) :
    Lined ns (d.replaced (replacementOf a m z new (some (.bookmark x))) (a ++ new ++ z)) := by
  have hd := hlayout.consistent.toWellFormed
  have hkeeps : KeepsAhead d
      (d.replaced (replacementOf a m z new (some (.bookmark x))) (a ++ new ++ z)) := by
    refine keepsAhead_edited hd htext (fun n hn => ?_) fun n hn hne t ht => ?_
    · obtain rfl : x = n := by simpa using hn
      exact hs
    · exact h.spaced.misses hd hx (hlayout.innermost hx hxm) hn (fun heq => hne (heq ▸ rfl)) hs ht
  refine h.keep (fun n hn => ?_) hkeeps (h.spaced.keep hkeeps fun n s' hs' => ?_)
  · exact (hlayout.edited_command hx hxm htext hs new).2 n (h.named n hn) (h.found n hn)
  · obtain ⟨s, hs, -⟩ := exists_of_span?_edited hd htext hs'
    exact ⟨s, hs⟩

theorem setBookmarkText (h : Lined ns d) (hlayout : d.Layout kept marked []) (hx : IsCommandName x)
    (hxm : x ∉ marked) (t : Text) :
    Ends (fun _ => False) (d.setBookmarkText x t) fun attempt => ∀ d', attempt = .ok d' →
      Lined ns d' := by
  cases hs : d.span? x with
  | none =>
    have hnone : d.bookmark? x = none := Option.map_eq_none_iff.1 hs
    unfold Document.setBookmarkText
    rw [hnone]
    rintro d' ⟨⟩
  | some s =>
    obtain ⟨a, m, z, htext, rfl, hset⟩ := setBookmarkText_eq hlayout.consistent.toWellFormed hs t
    rw [hset]
    rintro d' ⟨⟩
    exact h.edited_command hlayout hx hxm htext hs t

/-- A text between marks in the place of a command. -/
theorem withText (h : Lined ns d) (hlayout : d.Layout kept marked []) (hx : IsCommandName x)
    (hxm : x ∉ marked) (htext : d.text = a ++ m ++ z) (hs : d.span? x = some (a.stretch m)) (t : Text) :
    Lined ns (d.withText a m z x t) := by
  let d₁ := d.replaced (replacementOf a m z Command.marks (some (.bookmark x)))
    (a ++ Command.marks ++ z)
  have h₁ : Lined ns d₁ := h.edited_command hlayout hx hxm htext hs Command.marks
  obtain ⟨hlayout₁, -⟩ := hlayout.edited_command hx hxm htext hs Command.marks
  obtain ⟨-, -, -, hkept⟩ := hlayout.withText hx hxm htext hs t
  have hd₁ : d₁.WellFormed := hlayout₁.consistent.toWellFormed
  have htext₁ : d₁.text = a ++ ['<'] ++ [] ++ '>' :: z := text_withMarks d a m z _
  have hs₁ : d₁.span? x = some (a.stretch Command.marks) := span?_edited_owner hs
  have hbetween := between_marks a
  have hkeeps : KeepsAhead d₁ (d.withText a m z x t) := by
    refine keepsAhead_edited hd₁ htext₁ (by simp) fun n hn _ r hr => ?_
    rcases eq_or_ne n x with rfl | hne
    · obtain rfl := Option.some.inj (hs₁.symm.trans hr)
      exact .inr hbetween
    · have hwithin : ((a ++ ['<']).stretch []).within (a.stretch Command.marks) = true :=
        Span.within_iff.2 ⟨Nat.le_of_lt hbetween.1, Nat.le_of_lt hbetween.2⟩
      exact (h₁.spaced.misses hd₁ hx (hlayout₁.innermost hx hxm) hn hne hs₁ hr).within hwithin
  refine h₁.keep (fun n hn => hkept n (h.named n hn) (h.found n hn)) hkeeps
    (h₁.spaced.keep hkeeps fun n s' hs' => ?_)
  obtain ⟨s, hs, -⟩ := exists_of_span?_edited hd₁ htext₁ hs'
  exact ⟨s, hs⟩

/-- A content between marks in the place of a command. -/
theorem withContent {content : Document} (h : Lined ns d) (hlayout : d.Layout kept marked [])
    (hx : IsCommandName x) (hxm : x ∉ marked) (hcontent : content.WellFormed)
    (hspaced : content.CommandsSpaced) (htext : d.text = a ++ m ++ z)
    (hs : d.span? x = some (a.stretch m)) : Lined ns (d.withContent a m z x content) := by
  have h₂ := h.withText hlayout hx hxm htext hs content.text
  obtain ⟨hlayout₂, hinner₂, ⟨r, hs₂, hbetween₂⟩, -⟩ := hlayout.withText hx hxm htext hs content.text
  exact h₂.of_span?_eq (fun n hn => span?_adopt (h₂.found n hn) _ _)
    (h₂.spaced.adopt hlayout₂.consistent.toWellFormed hx hinner₂ hcontent hspaced rfl hs₂ hbetween₂)

/-- The bookmark of a command gets another name that is one of a command. -/
theorem renamed {new unique : String} (h : Lined (before ++ x :: after) d) (hd : d.WellFormed)
    (hrename : d.renameBookmark x new = .ok (d', unique)) (hunique : IsCommandName unique) :
    Lined (before ++ unique :: after) d' := by
  obtain ⟨hown, hothers⟩ := span?_renameBookmark hrename
  have hfound : ∀ {n s}, d'.span? n = some s → n ∈ d'.names := fun h =>
    isSome_span?_iff.1 (Option.isSome_iff_exists.2 ⟨_, h⟩)
  have hbeside : ∀ n ∈ before ++ after, n ∈ d.names ∧ n ≠ x := fun n hn => by
    have hnodup := List.nodup_middle.1 (h.nodup hd)
    refine ⟨h.found n ?_, fun heq => (List.nodup_cons.1 hnodup).1 (heq ▸ hn)⟩
    simp only [List.mem_append, List.mem_cons] at hn ⊢
    tauto
  have hspan : ∀ n s, d'.span? n = some s → d.span? (originOf x unique n) = some s := fun _ _ =>
    span?_originOf hd.names hrename
  have hmap : (before ++ unique :: after).map (originOf x unique) = before ++ x :: after := by
    have hid : ∀ n ∈ before ++ after, originOf x unique n = id n := fun n hn =>
      originOf_of_ne (hothers n (hbeside n hn).1 (hbeside n hn).2).2
    rw [List.map_append, List.map_cons, originOf_new,
      List.map_congr_left fun n hn => hid n (List.mem_append_left _ hn),
      List.map_congr_left fun n hn => hid n (List.mem_append_right _ hn), List.map_id, List.map_id]
  have hx : IsCommandName x := h.named x (by simp)
  refine ⟨fun n hn => ?_, fun n hn => ?_, fun m n hm hn hne s t hs ht => ?_, ?_⟩
  · rcases List.mem_cons.1 (List.perm_middle.mem_iff.1 hn) with rfl | hn
    · exact hunique
    · exact h.named n (List.perm_middle.mem_iff.2 (List.mem_cons_of_mem _ hn))
  · rw [← isSome_span?_iff]
    rcases List.mem_cons.1 (List.perm_middle.mem_iff.1 hn) with rfl | hn
    · rw [hown, isSome_span?_iff]
      exact h.found x (by simp)
    · rw [(hothers n (hbeside n hn).1 (hbeside n hn).2).1, isSome_span?_iff]
      exact (hbeside n hn).1
  · exact h.spaced _ _ (hx.originOf unique hm) (hx.originOf unique hn)
      (originOf_ne_originOf hd.names hrename (hfound hs) (hfound ht) hne) s t (hspan m s hs) (hspan n t ht)
  · have hordered := h.ordered
    rw [← hmap, List.pairwise_map] at hordered
    exact hordered.imp fun hahead s t hs ht => hahead s t (hspan _ s hs) (hspan _ t ht)

/-- A placeholder beside all of these commands gets some text. -/
theorem replacePlaceholder (h : Lined ns d) (hlayout : d.Layout kept marked ids)
    (hfill : d.FillsBeside ns ids) (hmarked : marked ⊆ ns) {id : Nat} (hid : id ∈ ids) {t : Text}
    (ht : t ≠ []) :
    Ends (fun _ => False) (d.replacePlaceholder id t) fun attempt => ∀ d', attempt = .ok d' →
      Lined ns d' := by
  have hd := hlayout.consistent.toWellFormed
  unfold Document.replacePlaceholder
  split
  · rintro d' ⟨⟩
  next f hf =>
    obtain ⟨a, m, z, htext, hstart, hstop⟩ := Span.fits_iff.1 (fits_of_field? hd hf)
    have hspan : f.span = a.stretch m := by rw [Text.stretch, hstart, hstop]
    have hfid : f.id ∈ ids := by
      have : f.id = id := by simpa using List.find?_some hf
      exact this ▸ hid
    have havoids : ∀ n ∈ ns, ∃ s, d.span? n = some s ∧ (a.stretch m).Avoids s := fun n hn => by
      obtain ⟨s, hs, havoids⟩ := hfill n hn
      exact ⟨s, hs, hspan ▸ havoids f (List.mem_of_find?_eq_some hf) hfid⟩
    rw [hspan, edit_eq htext]
    rintro d' ⟨⟩
    let d₁ := d.replaced (replacementOf a m z t none) (a ++ t ++ z)
    have hkeeps : KeepsAhead d d₁ := hlayout.keepsAhead_filled htext ht fun x hx r hr => by
      obtain ⟨s, hs, havoids⟩ := havoids x (hmarked hx)
      exact Option.some.inj (hs.symm.trans hr) ▸ havoids
    have h₁ : Lined ns d₁ := by
      refine h.keep (fun n hn => ?_) hkeeps (h.spaced.keep hkeeps fun n s' hs' => ?_)
      · obtain ⟨s, hs, havoids⟩ := havoids n hn
        obtain ⟨s', hs', -⟩ : ∃ s', d₁.span? n = some s' ∧ _ := exists_span?_edited hd htext hs havoids
        exact isSome_span?_iff.1 (Option.isSome_iff_exists.2 ⟨s', hs'⟩)
      · obtain ⟨s, hs, -⟩ := exists_of_span?_edited hd htext hs'
        exact ⟨s, hs⟩
    exact h₁.sameBookmarks rfl

end Lined

/-- Filling in the placeholders of a content beside commands that are lined up. -/
theorem keptByFilling_lined {kept : List Text} {marked ns : List String} {ids : List Nat}
    (hmarked : marked ⊆ ns) :
    KeptByFilling ids fun d =>
      (d.Layout kept marked ids ∧ d.FillsBeside ns ids) ∧ Lined ns d where
  wellFormed h := (keptByFilling_layout hmarked).wellFormed h.1
  setCursor h hfits := ⟨(keptByFilling_layout hmarked).setCursor h.1 hfits, h.2.sameBookmarks rfl⟩
  replacePlaceholder h hid t ht :=
    (((keptByFilling_layout hmarked).replacePlaceholder h.1 hid t ht).and
      (h.2.replacePlaceholder h.1.1 h.1.2 hmarked hid ht)).mono fun _ ha d' hd' =>
        ⟨ha.1 d' hd', ha.2 d' hd'⟩

end Document

end TemplateEngine
