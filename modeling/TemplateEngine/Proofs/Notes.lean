import TemplateEngine.Proofs.Anchoring
import TemplateEngine.Proofs.Enclosing

/-!
# Notes — the notes on commands that failed

A note lies on the failure text that was put in the place of a command.  Spans that follow an edit cover all
of the new text or overlap it nowhere, so no bookmark and no field ever covers a part of that failure text
only (`Document.Noted`).  An edit of the text of a bookmark or a field therefore takes a note away with its
failure text or moves both.  That is how every operation that a command performs leaves the notes.
-/

namespace TemplateEngine

/-! ### Spans that are not cut -/

namespace Span

section Reanchor

variable {s s' x x' e : Span} {n : Nat}

/-- A text that is left by an edit that does not cut it lies apart from the edit. -/
theorem AllOrNone.apart (h : e.AllOrNone x) (hx : x.start < x.stop) (hx' : x.reanchor e n = some x') :
    e.Apart x := by
  refine h.resolve_right fun hw => ?_
  rw [(reanchor_eq_none_iff hx.le).2 (.inl ⟨hx, within_iff.1 hw⟩)] at hx'
  cases hx'

theorem AllOrNone.reanchor (hs : s.start ≤ s.stop) (hx : x.start < x.stop) (he : e.start ≤ e.stop)
    (hapart : e.Apart x) (h : s.AllOrNone x) (hs' : s.reanchor e n = some s')
    (hx' : x.reanchor e n = some x') : s'.AllOrNone x' := by
  refine h.imp (fun h => h.reanchor hs hx.le hs' hx') fun h => ?_
  have hstart := start_reanchor hs hs'
  have hstop := stop_reanchor hs hs'
  rw [within_iff] at *
  rcases hapart with hbefore | hbehind
  · have hmoved := reanchor_of_ge hx.le he hbefore hx'
    omega
  · obtain rfl := eq_of_reanchor_of_le hbehind hx'
    omega

/-- A region keeps room for its marks. -/
theorem room_reanchor (he : e.start ≤ e.stop) (hr : s.start + 2 ≤ s.stop) (h : e.Avoids s)
    (hs' : s.reanchor e n = some s') : s'.start + 2 ≤ s'.stop := by
  have hends := ends_reanchor he hr h hs'
  omega

end Reanchor

end Span

namespace Document

variable {kept : List Text} {marked marked' : List String} {ids : List Nat} {d d' : Document} {x : String}
  {a m z new : Text} {owner : Option Owner}

/-! ### Notes on failure texts -/

/-- How the notes of a document lie: each covers a failure text, which no bookmark and no field covers a
part of, and which is no part of the marks of the commands that `marked` names. -/
structure Noted (marked : List String) (d : Document) : Prop where
  reads : ∀ y ∈ d.annotations, d.text.slice? y.span.start y.span.stop = some failureText
  bookmarks : ∀ y ∈ d.annotations, ∀ n s, d.span? n = some s → s.AllOrNone y.span
  fields : ∀ y ∈ d.annotations, ∀ f ∈ d.fields, f.span.AllOrNone y.span
  marks : ∀ y ∈ d.annotations, ∀ n ∈ marked, ∀ r, d.span? n = some r → y.span.Avoids r

namespace Noted

theorem start_lt (h : d.Noted marked) {y : Annotation} (hy : y ∈ d.annotations) :
    y.span.start < y.span.stop := by
  obtain ⟨u, v, -, hstart, hstop⟩ := Text.slice?_eq_some_iff.1 (h.reads y hy)
  rw [Text.byteLength_append] at hstop
  have hsome : 0 < Text.byteLength failureText := by decide
  omega

/-- A document without notes. -/
theorem of_annotations_eq_nil (h : d.annotations = []) : d.Noted marked := by
  constructor <;> simp [h]

theorem mono (h : d.Noted marked) (hsub : marked' ⊆ marked) : d.Noted marked' :=
  { h with marks := fun y hy n hn => h.marks y hy n (hsub hn) }

/-- The same text and notes with fewer fields, and some bookmarks under other names: `origin` tells what
they were called. -/
theorem transport (h : d.Noted marked) (origin : String → String) (htext : d'.text = d.text)
    (hannotations : d'.annotations = d.annotations) (hfields : d'.fields ⊆ d.fields)
    (hspan : ∀ n s, d'.span? n = some s → d.span? (origin n) = some s)
    (hmarked : ∀ n ∈ d'.names, n ∈ marked' → origin n ∈ marked) : d'.Noted marked' where
  reads := by
    rw [hannotations, htext]
    exact h.reads
  bookmarks y hy n s hs := h.bookmarks y (hannotations ▸ hy) _ s (hspan n s hs)
  fields y hy f hf := h.fields y (hannotations ▸ hy) f (hfields hf)
  marks y hy n hn r hr :=
    h.marks y (hannotations ▸ hy) _
      (hmarked n (isSome_span?_iff.1 (Option.isSome_iff_exists.2 ⟨r, hr⟩)) hn) r (hspan n r hr)

/-- The document changes in its flags, styles or metadata only. -/
theorem sameParts (h : d.Noted marked) (hsame : SameParts d d') : d'.Noted marked := by
  refine h.transport id hsame.text hsame.annotations (hsame.fields ▸ fun _ h => h) (fun n s hs => ?_)
    fun _ _ => id
  rwa [span?, bookmark?, hsame.bookmarks] at hs

theorem setCursor (h : d.Noted marked) (range : TextRange) : (d.setCursor range).Noted marked :=
  h.transport id rfl rfl (fun _ h => h) (fun _ _ h => h) fun _ _ h => h

/-- One more note on a failure text. -/
theorem annotated (h : d.Noted marked) (note : String) {s : Span}
    (hreads : d.text.slice? s.start s.stop = some failureText)
    (hbookmarks : ∀ n t, d.span? n = some t → t.AllOrNone s) (hfields : ∀ f ∈ d.fields, f.span.AllOrNone s)
    (hmarks : ∀ n ∈ marked, ∀ r, d.span? n = some r → s.Avoids r) :
    (d.addAnnotation note s).Noted marked := by
  have hall : ∀ {P : Annotation → Prop}, (∀ y ∈ d.annotations, P y) → P ⟨note, s⟩ →
      ∀ y ∈ (d.addAnnotation note s).annotations, P y := fun hold hnew y hy => by
    rcases List.mem_append.1 hy with hy | hy
    · exact hold y hy
    · rwa [List.mem_singleton.1 hy]
  exact ⟨hall h.reads hreads, hall h.bookmarks hbookmarks, hall h.fields hfields, hall h.marks hmarks⟩

end Noted

/-! ### Edits -/

/-- Where a note after an edit was before. -/
theorem exists_of_mem_annotations_edited (hd : d.WellFormed) (htext : d.text = a ++ m ++ z) {y' : Annotation}
    (hy' : y' ∈ (d.replaced (replacementOf a m z new owner) (a ++ new ++ z)).annotations) :
    ∃ y ∈ d.annotations, y.span.reanchor (a.stretch m) (Text.byteLength new) = some y'.span := by
  obtain ⟨y, hy, hfollow⟩ := List.mem_filterMap.1 hy'
  obtain ⟨s, hs, rfl⟩ := Option.map_eq_some_iff.1 hfollow
  exact ⟨y, hy, Span.follow_eq_reanchor (htext ▸ hd.annotations y hy) ▸ hs⟩

namespace Noted

/-- The notes that an edit leaves lie apart from it. -/
theorem exists_apart (h : d.Noted marked) (hd : d.WellFormed) (htext : d.text = a ++ m ++ z)
    (hwhole : ∀ y ∈ d.annotations, (a.stretch m).AllOrNone y.span) {y' : Annotation}
    (hy' : y' ∈ (d.replaced (replacementOf a m z new owner) (a ++ new ++ z)).annotations) :
    ∃ y ∈ d.annotations, (a.stretch m).Apart y.span ∧
      y.span.reanchor (a.stretch m) (Text.byteLength new) = some y'.span := by
  obtain ⟨y, hy, hfollow⟩ := exists_of_mem_annotations_edited hd htext hy'
  exact ⟨y, hy, (hwhole y hy).apart (h.start_lt hy) hfollow, hfollow⟩

/-- The new text of an edit lies apart from the notes that are left. -/
theorem apart_renewed (h : d.Noted marked) (hd : d.WellFormed) (htext : d.text = a ++ m ++ z)
    (hwhole : ∀ y ∈ d.annotations, (a.stretch m).AllOrNone y.span) :
    ∀ y ∈ (d.replaced (replacementOf a m z new owner) (a ++ new ++ z)).annotations,
      (a.stretch new).Apart y.span := by
  intro y' hy'
  obtain ⟨y, hy, hapart, hfollow⟩ := h.exists_apart hd htext hwhole hy'
  rw [Text.stretch_eq]
  exact hapart.renewed (h.start_lt hy).le hfollow

/-- An edit that cuts no failure text and is clear of the marked commands. -/
theorem edited (h : d.Noted marked) (hd : d.WellFormed) (htext : d.text = a ++ m ++ z)
    (hwhole : ∀ y ∈ d.annotations, (a.stretch m).AllOrNone y.span)
    (howner : ∀ n ∈ marked, owner ≠ some (.bookmark n))
    (hclear : ∀ n ∈ marked, ∀ r, d.span? n = some r → r.start + 2 ≤ r.stop ∧ (a.stretch m).Clear r) :
    (d.replaced (replacementOf a m z new owner) (a ++ new ++ z)).Noted marked := by
  have he := Text.stretch_le a m
  constructor
  case reads =>
    intro y' hy'
    obtain ⟨y, hy, hapart, hfollow⟩ := h.exists_apart hd htext hwhole hy'
    refine (Span.slice?_of_apart (htext ▸ hd.annotations y hy) hfollow hapart).trans ?_
    rw [← htext]
    exact h.reads y hy
  case bookmarks =>
    intro y' hy' n s' hs'
    obtain ⟨y, hy, hapart, hfollow⟩ := h.exists_apart hd htext hwhole hy'
    obtain ⟨s, hs, hsfollow | ⟨-, rfl⟩⟩ := exists_of_span?_edited hd htext hs'
    · exact Span.AllOrNone.reanchor (le_of_span? hd hs) (h.start_lt hy) he hapart
        (h.bookmarks y hy n s hs) hsfollow hfollow
    · exact .inl (h.apart_renewed hd htext hwhole y' hy')
  case fields =>
    intro y' hy' f' hf'
    obtain ⟨y, hy, hapart, hfollow⟩ := h.exists_apart hd htext hwhole hy'
    obtain ⟨f, hf, -, hffollow | ⟨-, hown⟩⟩ := follows_of_mem_fields_edited hd htext hf'
    · exact Span.AllOrNone.reanchor (Span.le_of_fits (hd.fields f hf)).1 (h.start_lt hy) he hapart
        (h.fields y hy f hf) hffollow hfollow
    · exact hown ▸ .inl (h.apart_renewed hd htext hwhole y' hy')
  case marks =>
    intro y' hy' n hn r' hr'
    obtain ⟨y, hy, -, hfollow⟩ := h.exists_apart hd htext hwhole hy'
    obtain ⟨r, hr, hrfollow | ⟨hown, -⟩⟩ := exists_of_span?_edited hd htext hr'
    · obtain ⟨hroom, hclear⟩ := hclear n hn r hr
      have havoids := Span.avoids_of_reanchor hroom hclear hrfollow
      exact Span.Avoids.reanchor (h.start_lt hy).le he (by omega) havoids (h.marks y hy n hn r hr)
        hfollow hrfollow
    · exact absurd hown (howner n hn)

end Noted

/-! ### Texts of commands -/

/-- Whether a command has no marks and its text can be replaced beside those of the commands that `marked`
names. -/
def Beside (d : Document) (marked : List String) (x : String) : Prop :=
  x ∉ marked ∧ ∀ n ∈ marked, ∀ s r, d.span? x = some s → d.span? n = some r →
    r.start + 2 ≤ r.stop ∧ s.Avoids r

theorem Layout.beside (h : d.Layout kept marked ids) (hx : IsCommandName x) (hxm : x ∉ marked) :
    d.Beside marked x := by
  refine ⟨hxm, fun n hn s r hs hr => ⟨(h.enclosed n hn r hr).room, ?_⟩⟩
  exact (h.innermost hx hxm).avoids (h.named n hn) (fun heq => hxm (heq ▸ hn)) hs hr

/-- The new text of a command lies to the marks of others as the old one did. -/
theorem Beside.edited (h : d.Beside marked x) (hd : d.WellFormed) (htext : d.text = a ++ m ++ z)
    (hs : d.span? x = some (a.stretch m)) :
    (d.replaced (replacementOf a m z new (some (.bookmark x))) (a ++ new ++ z)).Beside marked x := by
  refine ⟨h.1, fun n hn s' r' hs' hr' => ?_⟩
  obtain rfl : a.stretch new = s' := Option.some.inj ((span?_edited_owner hs).symm.trans hs')
  obtain ⟨r, hr, hfollow | ⟨hown, -⟩⟩ := exists_of_span?_edited hd htext hr'
  · obtain ⟨hroom, havoids⟩ := h.2 n hn _ r hs hr
    have he := Text.stretch_le a m
    rw [Text.stretch_eq]
    exact ⟨Span.room_reanchor he hroom havoids hfollow, havoids.renewed he hroom hfollow⟩
  · obtain rfl : x = n := by simpa using hown
    exact absurd hn h.1

namespace Noted

/-- The text of a command without marks is replaced. -/
theorem overwritten (h : d.Noted marked) (hd : d.WellFormed) (hbeside : d.Beside marked x)
    (htext : d.text = a ++ m ++ z) (hs : d.span? x = some (a.stretch m)) (new : Text) :
    (d.replaced (replacementOf a m z new (some (.bookmark x))) (a ++ new ++ z)).Noted marked := by
  refine h.edited hd htext (fun y hy => h.bookmarks y hy x _ hs) (fun n hn hown => ?_) fun n hn r hr => ?_
  · obtain rfl : x = n := by simpa using hown
    exact hbeside.1 hn
  · exact (hbeside.2 n hn _ r hs hr).imp_right .inl

theorem setBookmarkText (h : d.Noted marked) (hd : d.WellFormed) (hbeside : d.Beside marked x) (t : Text) :
    Ends (fun _ => False) (d.setBookmarkText x t) fun attempt => ∀ d', attempt = .ok d' →
      d'.Noted marked := by
  cases hs : d.span? x with
  | none =>
    have hnone : d.bookmark? x = none := Option.map_eq_none_iff.1 hs
    unfold Document.setBookmarkText
    rw [hnone]
    rintro d' ⟨⟩
  | some s =>
    obtain ⟨a, m, z, htext, rfl, hset⟩ := setBookmarkText_eq hd hs t
    rw [hset]
    rintro d' ⟨⟩
    exact h.overwritten hd hbeside htext hs t

/-- A command fails: its failure text, on which the new note lies, is cut by no span that is left. -/
theorem markFailure (h : d.Noted marked) (hd : d.WellFormed) {c : Command}
    (hbeside : d.Beside marked c.bookmark) (reason : String) :
    Ends (fun _ => False) (markFailure d c reason) (Noted marked) := by
  unfold TemplateEngine.markFailure Command.setText
  cases hs : d.span? c.bookmark with
  | none =>
    have hnone : d.bookmark? c.bookmark = none := Option.map_eq_none_iff.1 hs
    unfold Document.setBookmarkText
    rw [hnone]
    exact h
  | some s =>
    obtain ⟨a, m, z, htext, rfl, hset⟩ := setBookmarkText_eq hd hs failureText
    have h₁ := h.overwritten hd hbeside htext hs failureText
    have hs₁ : (d.replaced (replacementOf a m z failureText (some (.bookmark c.bookmark)))
        (a ++ failureText ++ z)).span? c.bookmark = some (a.stretch failureText) := span?_edited_owner hs
    rw [hset]
    generalize hd₁ : d.replaced (replacementOf a m z failureText (some (.bookmark c.bookmark)))
      (a ++ failureText ++ z) = d₁ at h₁ hs₁
    have hrange : c.range? d₁ = some (.ofSpan (a.stretch failureText)) := by
      obtain ⟨b, hb, hspan⟩ := Option.map_eq_some_iff.1 hs₁
      rw [Command.range?, bookmarkRange?, hb, Option.map_some, hspan]
    dsimp only [bind, Except.bind]
    rw [hrange]
    dsimp only
    cases hnote : d₁.insertAnnotation (.ofSpan (a.stretch failureText)) (failureNote c reason) with
    | error e => exact h₁
    | ok d₂ =>
      obtain rfl := addAnnotation_of_insertAnnotation hnote
      subst hd₁
      refine h₁.annotated _ (Text.slice?_eq rfl rfl rfl) (fun n t ht => ?_) (fun f hf => ?_) fun n hn r hr => ?_
      · obtain ⟨t₀, -, hfollow | ⟨-, rfl⟩⟩ := exists_of_span?_edited hd htext ht
        · exact Text.stretch_eq a failureText ▸ Span.allOrNone_renewed hfollow
        · exact .inr (Span.within_refl _)
      · obtain ⟨f₀, -, -, hfollow⟩ := exists_of_mem_fields_edited hd htext (by simp) hf
        exact Text.stretch_eq a failureText ▸ Span.allOrNone_renewed hfollow
      · exact ((hbeside.edited hd htext hs).2 n hn _ r hs₁ hr).2

end Noted

/-! ### Names of commands -/

namespace Noted

theorem removed {name : String} (h : d.Noted marked) (hremove : d.removeBookmark name = .ok d') :
    d'.Noted marked := by
  have hsame := differInBookmarks_removeBookmark hremove
  exact h.transport id hsame.text hsame.annotations (hsame.fields ▸ fun _ h => h)
    (fun _ _ => span?_of_span?_removeBookmark hremove) fun _ _ => id

theorem renamed {name new unique : String} (h : d.Noted marked) (hd : d.WellFormed)
    (hrename : d.renameBookmark name new = .ok (d', unique))
    (hmarked : ∀ n ∈ d'.names, n ∈ marked' → originOf name unique n ∈ marked) : d'.Noted marked' := by
  have hsame := differInBookmarks_renameBookmark hrename
  exact h.transport _ hsame.text hsame.annotations (hsame.fields ▸ fun _ h => h)
    (fun _ _ => span?_originOf hd.names hrename) hmarked

end Noted

/-! ### Contents -/

theorem annotations_adopt {content : Document} (h : content.annotations = []) (d : Document) (offset : Nat) :
    (d.adopt content offset).annotations = d.annotations := by
  let I : Document → Prop := fun d' => d'.annotations = d.annotations
  show I (d.adopt content offset)
  refine foldl_invariant_mem (I := I) (fun d' y hy _ => ?_) (foldl_invariant (I := I) ?_ _
    (foldl_invariant (I := I) ?_ _ rfl))
  · rw [h] at hy
    cases hy
  · exact fun _ _ h => h
  · exact fun _ _ h => h

/-- A command still has its bookmark when a text is put between marks in its place. -/
theorem mem_names_withText (hd : d.WellFormed) (htext : d.text = a ++ m ++ z)
    (hs : d.span? x = some (a.stretch m)) (t : Text) : x ∈ (d.withText a m z x t).names := by
  obtain ⟨r, hr, -⟩ : ∃ r, (d.withText a m z x t).span? x = some r ∧ _ :=
    exists_span?_edited (wellFormed_replaced hd htext _ _) (text_withMarks d a m z _) (span?_edited_owner hs)
      (.inr (between_marks a))
  exact isSome_span?_iff.1 (Option.isSome_iff_exists.2 ⟨r, hr⟩)

namespace Noted

theorem cons (h : d.Noted marked) (hx : ∀ y ∈ d.annotations, ∀ r, d.span? x = some r → y.span.Avoids r) :
    d.Noted (x :: marked) :=
  { h with
    marks := fun y hy n hn r hr => by
      rcases List.mem_cons.1 hn with rfl | hn
      · exact hx y hy r hr
      · exact h.marks y hy n hn r hr }

/-- The text of a content goes between marks in the place of a command without marks.  The notes that are left
lie apart from it and from the marks. -/
theorem withText (h : d.Noted marked) (hd : d.WellFormed) (hbeside : d.Beside marked x)
    (htext : d.text = a ++ m ++ z) (hs : d.span? x = some (a.stretch m)) (t : Text) :
    (d.withText a m z x t).Noted marked ∧
      (∀ y ∈ (d.withText a m z x t).annotations, ((a ++ ['<']).stretch t).Apart y.span) ∧
      ∀ y ∈ (d.withText a m z x t).annotations, ∀ r, (d.withText a m z x t).span? x = some r →
        r.Apart y.span := by
  -- with the marks all notes inside the command go
  let d₁ := d.replaced (replacementOf a m z Command.marks (some (.bookmark x))) (a ++ Command.marks ++ z)
  have hd₁ : d₁.WellFormed := wellFormed_replaced hd htext _ _
  have h₁ : d₁.Noted marked := h.overwritten hd hbeside htext hs Command.marks
  have hs₁ : d₁.span? x = some (a.stretch Command.marks) := span?_edited_owner hs
  have hapart₁ : ∀ y ∈ d₁.annotations, (a.stretch Command.marks).Apart y.span :=
    h.apart_renewed hd htext fun y hy => h.bookmarks y hy x _ hs
  have htext₁ : d₁.text = a ++ ['<'] ++ [] ++ '>' :: z := text_withMarks d a m z _
  -- the text comes in between them
  have hbetween := between_marks a
  have hwithin : ((a ++ ['<']).stretch []).within (a.stretch Command.marks) = true :=
    Span.within_iff.2 ⟨Nat.le_of_lt hbetween.1, Nat.le_of_lt hbetween.2⟩
  have hwhole₁ : ∀ y ∈ d₁.annotations, ((a ++ ['<']).stretch []).AllOrNone y.span := fun y hy =>
    .inl ((hapart₁ y hy).within hwithin)
  refine ⟨?_, h₁.apart_renewed hd₁ htext₁ hwhole₁, ?_⟩
  · refine h₁.edited hd₁ htext₁ hwhole₁ (by simp) fun n hn r hr => ?_
    obtain ⟨hroom, havoids⟩ := (hbeside.edited hd htext hs).2 n hn _ r hs₁ hr
    exact ⟨hroom, .inl (havoids.within hwithin)⟩
  · intro y' hy' r' hr'
    obtain ⟨y, hy, -, hfollow⟩ := h₁.exists_apart hd₁ htext₁ hwhole₁ hy'
    obtain ⟨r, hr, hrfollow | ⟨hown, -⟩⟩ := exists_of_span?_edited hd₁ htext₁ hr'
    · obtain rfl := Option.some.inj (hs₁.symm.trans hr)
      exact (hapart₁ y hy).reanchor (Text.stretch_le _ _) (h₁.start_lt hy).le hrfollow hfollow
    · cases hown

/-- The parts of a content without notes come in with its text, which lies apart from the notes. -/
theorem adopt {content : Document} (h : d.Noted marked) (hcontent : content.WellFormed)
    (hplain : content.annotations = []) {u v : Text} (htext : d.text = u ++ content.text ++ v)
    (hapart : ∀ y ∈ d.annotations, (u.stretch content.text).Apart y.span)
    (hfound : ∀ n ∈ marked, n ∈ d.names) : (d.adopt content (Text.byteLength u)).Noted marked := by
  obtain ⟨bs, hbs, hall⟩ := bookmarks_adopt (d := d) hcontent htext
  have hinside : ∀ {g : Span}, g.fits content.text = true → ∀ y ∈ d.annotations,
      (g.shift (Text.byteLength u)).AllOrNone y.span := fun {g} hg y hy => by
    have hle := Span.le_of_fits hg
    refine .inl ((hapart y hy).within (Span.within_iff.2 ?_))
    rw [Text.stretch_eq]
    simp only [Span.shift]
    omega
  have hannotations := annotations_adopt hplain d (Text.byteLength u)
  constructor
  case reads =>
    rw [hannotations]
    intro y hy
    exact (congrArg (Text.slice? · _ _) (text_adopt d content _)).trans (h.reads y hy)
  case bookmarks =>
    rw [hannotations]
    intro y hy n s hs
    rcases exists_of_span?_adopt hbs hs with hs | ⟨b, hb, -, rfl⟩
    · exact h.bookmarks y hy n s hs
    · obtain ⟨b₀, hb₀, -, hspan⟩ := exists_of_forall₂_of_mem hall hb
      exact hspan ▸ hinside (hcontent.bookmarks b₀ hb₀) y hy
  case fields =>
    rw [hannotations]
    intro y hy f hf
    rcases mem_fields_adopt hf with hf | ⟨g, hg, hspan⟩
    · exact h.fields y hy f hf
    · have hheld := heldBeside_shift (d := d) htext (hcontent.fields g hg)
      exact hspan.trans hheld ▸ hinside (hcontent.fields g hg) y hy
  case marks =>
    rw [hannotations]
    intro y hy n hn r hr
    exact h.marks y hy n hn r ((span?_adopt (hfound n hn) content _).symm.trans hr)

/-- A content without notes goes between marks in the place of a command without marks.  The commands with
marks are still there when its bookmarks come in. -/
theorem withContent {content : Document} (h : d.Noted marked) (hd : d.WellFormed)
    (hbeside : d.Beside marked x) (hcontent : content.WellFormed) (hplain : content.annotations = [])
    (htext : d.text = a ++ m ++ z) (hs : d.span? x = some (a.stretch m))
    (hfound : ∀ n ∈ marked, n ∈ (d.withText a m z x content.text).names) :
    (d.withContent a m z x content).Noted (x :: marked) := by
  obtain ⟨h₂, hapart, hregion⟩ := h.withText hd hbeside htext hs content.text
  refine (h₂.cons fun y hy r hr => .inl (hregion y hy r hr).symm).adopt hcontent hplain rfl hapart fun n hn => ?_
  rcases List.mem_cons.1 hn with rfl | hn
  · exact mem_names_withText hd htext hs content.text
  · exact hfound n hn

end Noted

/-! ### Fields -/

/-- Whether all fields are clear of the commands with marks. -/
def FieldsClear (d : Document) (marked : List String) : Prop :=
  ∀ n ∈ marked, ∀ r, d.span? n = some r → r.start + 2 ≤ r.stop ∧ ∀ f ∈ d.fields, f.span.Clear r

theorem Layout.fieldsClear (h : d.Layout kept marked ids) : d.FieldsClear marked := fun n hn r hr =>
  ⟨(h.enclosed n hn r hr).room, h.fields n hn r hr⟩

namespace Noted

/-- The text of a field is replaced. -/
theorem edited_field (h : d.Noted marked) (hd : d.WellFormed) (hclear : d.FieldsClear marked) {f : Field}
    (hf : f ∈ d.fields) (htext : d.text = a ++ m ++ z) (hspan : f.span = a.stretch m)
    (howner : ∀ n, owner ≠ some (.bookmark n)) (new : Text) :
    (d.replaced (replacementOf a m z new owner) (a ++ new ++ z)).Noted marked :=
  h.edited hd htext (fun y hy => hspan ▸ h.fields y hy f hf) (fun n _ => howner n) fun n hn r hr =>
    (hclear n hn r hr).imp_right fun hfields => hspan ▸ hfields f hf

theorem replacePlaceholder (h : d.Noted marked) (hd : d.WellFormed) (hclear : d.FieldsClear marked)
    (id : Nat) (t : Text) :
    Ends (fun _ => False) (d.replacePlaceholder id t) fun attempt => ∀ d', attempt = .ok d' →
      d'.Noted marked := by
  unfold Document.replacePlaceholder
  split
  · rintro d' ⟨⟩
  next f hf =>
    obtain ⟨a, m, z, htext, hstart, hstop⟩ := Span.fits_iff.1 (fits_of_field? hd hf)
    have hspan : f.span = a.stretch m := by rw [Text.stretch, hstart, hstop]
    rw [hspan, edit_eq htext]
    rintro d' ⟨⟩
    have h₁ : (d.replaced (replacementOf a m z t none) (a ++ t ++ z)).Noted marked :=
      h.edited_field hd hclear (List.mem_of_find?_eq_some hf) htext hspan (by simp) t
    exact h₁.transport (fun n => n) rfl rfl (fun g hg => (List.mem_filter.1 hg).1) (fun _ _ h => h)
      fun _ _ h => h

theorem refreshElement (h : d.Noted marked) (hd : d.WellFormed) (hclear : d.FieldsClear marked)
    (e : Element) :
    Ends (fun _ => False) (d.refreshElement e) fun o => ∀ d', o = some (.ok d') → d'.Noted marked := by
  cases e with
  | paragraph index => simp [Document.refreshElement]
  | field id =>
    unfold Document.refreshElement
    dsimp only
    split
    · simp
    next f hf =>
    split
    · simp
    split
    · simp
    next value _ =>
      obtain ⟨a, m, z, htext, hstart, hstop⟩ := Span.fits_iff.1 (fits_of_field? hd hf)
      have hspan : f.span = a.stretch m := by rw [Text.stretch, hstart, hstop]
      rw [hspan, edit_eq htext]
      rintro d' ⟨⟩
      exact h.edited_field hd hclear (List.mem_of_find?_eq_some hf) htext hspan (by simp) value.toList

end Noted

end Document

end TemplateEngine
