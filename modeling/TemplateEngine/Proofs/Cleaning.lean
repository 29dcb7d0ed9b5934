import TemplateEngine.Proofs.Intact
import TemplateEngine.Proofs.Parallel

/-!
# Cleaning — removing marks in any two modes

What a deletion does to the text depends on the text alone (`Document.SameText`), and so does where the
marks around a range are.  Where a mark is looked for depends on the bookmarks of the commands that insert:
if each of them has one of its own (`HasOwnBookmarks`), marking commands done, in whatever mode, does not
touch the bookmarks of the others, so the same deletions are found and made (`parallel_collectGarbage`).
-/

namespace TemplateEngine

open Document

/-! ### Deletions, by the text -/

/-- The text of a document without that of a range, where the document has the range. -/
def clearedText (d : Document) (r : TextRange) : Except Fault (Except Refusal Text) :=
  match d.check r with
  | .error e => .ok (.error e)
  | .ok () =>
    match d.text.replace? r.start r.stop [] with
    | none => .error (.brokenSpan r.toSpan)
    | some text => .ok (.ok text)

/-- What clearing a range does to the text. -/
theorem text_clearRange (d : Document) (r : TextRange) :
    (clearRange d r).map (·.map (·.text)) = clearedText d r := by
  unfold clearRange insertBookmark clearedText
  cases d.check r with
  | error e => rfl
  | ok =>
    let d₁ := (d.addBookmark killerName r.toSpan).1
    let killer := d.uniqueName killerName none
    have hkiller : d₁.bookmark? killer = some ⟨killer, r.toSpan⟩ :=
      bookmark?_addBookmark d killerName r.toSpan
    have hset : d₁.setBookmarkText killer [] =
        (d₁.edit r.toSpan [] (some (.bookmark killer)) >>= fun d => .ok (.ok d)) := by
      unfold setBookmarkText
      rw [hkiller]
      rfl
    have hreplace : d₁.text.replace? r.toSpan.start r.toSpan.stop [] =
        d.text.replace? r.start r.stop [] := rfl
    show Except.map _ (d₁.setBookmarkText killer [] >>= _) = _
    cases htext : d.text.replace? r.start r.stop [] with
    | none =>
      have hedit : d₁.edit r.toSpan [] (some (.bookmark killer)) = .error (.brokenSpan r.toSpan) := by
        unfold edit
        rw [hreplace, htext]
      rw [hset, hedit]
      rfl
    | some text =>
      let e : Replacement := ⟨r.toSpan, 0, Text.byteLength text, some (.bookmark killer)⟩
      let d₂ := d₁.replaced e text
      have hedit : d₁.edit r.toSpan [] (some (.bookmark killer)) = .ok d₂ := by
        unfold edit
        rw [hreplace, htext]
        rfl
      have hfound : d₂.bookmark? killer = some ⟨killer, e.newSpan⟩ :=
        bookmark?_replaced_owner hkiller rfl
      have hremove : d₂.removeBookmark killer =
          .ok { d₂ with bookmarks := d₂.bookmarks.filter (·.name ≠ killer) } := by
        rw [removeBookmark, hfound]
        rfl
      rw [hset, hedit]
      dsimp only [bind, Except.bind]
      rw [hremove]
      dsimp only
      rw [bookmarkRange?, hfound]
      show Except.ok (Except.ok (List.foldl _ _ _ : Document).text) = _
      refine congrArg (fun t => Except.ok (Except.ok t)) ?_
      exact foldl_invariant (I := fun d : Document => d.text = text)
        (fun d name hd => (text_restoreBookmark _ d name).trans hd) _ rfl

namespace Document

/-- Whether two documents have the same text. -/
def SameText (d d' : Document) : Prop := d.text = d'.text

namespace SameText

variable {d d' : Document}

theorem check (h : d.SameText d') (r : TextRange) : d.check r = d'.check r := by
  unfold Document.check covers Document.length
  rw [show d.text = d'.text from h]

theorem edit (h : d.SameText d') (s : Span) (new : Text) (owner : Option Owner) :
    Parallel SameText (d.edit s new owner) (d'.edit s new owner) := by
  unfold Document.edit
  rw [show d.text = d'.text from h]
  split <;> rfl

theorem clearRange (h : d.SameText d') (r : TextRange) :
    Parallel (Parallel SameText) (clearRange d r) (clearRange d' r) := by
  refine (Parallel.of_map_eq ?_).mono fun a b => Parallel.of_map_eq
  rw [text_clearRange, text_clearRange, clearedText, clearedText, h.check, show d.text = d'.text from h]

theorem deleteParagraph (h : d.SameText d') (r : TextRange) :
    Parallel (Parallel SameText) (d.deleteParagraph r) (d'.deleteParagraph r) := by
  have hbreak : ∀ s, d.withLineBreak s = d'.withLineBreak s := fun s => by
    unfold withLineBreak Document.length
    rw [show d.text = d'.text from h]
  unfold Document.deleteParagraph
  rw [h.check, show d.text = d'.text from h]
  split
  · rfl
  split
  · rfl
  · rw [hbreak]
    exact (h.edit _ _ _).andThen fun _ _ hd => hd

theorem applyCleaner (h : d.SameText d') (c : Cleaner) :
    Parallel SameText (applyCleaner d c) (applyCleaner d' c) := by
  unfold TemplateEngine.applyCleaner
  cases c with
  | range r =>
    refine (h.clearRange r).andThen fun a b hab => ?_
    rcases a with e | d₁ <;> rcases b with e' | d₁'
    exacts [h, hab.elim, hab.elim, hab]
  | paragraph r =>
    refine (h.deleteParagraph r).andThen fun a b hab => ?_
    rcases a with e | d₁ <;> rcases b with e' | d₁'
    exacts [h, hab.elim, hab.elim, hab]

theorem sweep (h : d.SameText d') (cs : List Cleaner) :
    Parallel SameText (sweep d cs) (sweep d' cs) :=
  (Parallel.foldlM (fun _ _ c hd => hd.applyCleaner c) (show d.lock.SameText d'.lock from h)).andThen
    fun _ _ hd => hd

/-- The marks around a range are found in the text. -/
theorem markCleaners (h : d.SameText d') (r : TextRange) (removable : Bool) :
    markCleaners d r removable = markCleaners d' r removable := by
  have htext : ∀ d : Document, TemplateEngine.markCleaners d r removable =
      TemplateEngine.markCleaners (Document.ofText d.text) r removable := fun _ => rfl
  rw [htext, htext d', show d.text = d'.text from h]

end SameText

end Document

/-! ### Bookmarks of one's own -/

/-- Whether each command that inserts has a bookmark of its own. -/
structure HasOwnBookmarks (cs : List Command) (d : Document) : Prop where
  distinct : cs.Pairwise DifferAsInserters
  found : ∀ c ∈ cs, c.kind.isInsertion = true → c.bookmark ∈ d.names

instance (c c' : Command) : Decidable (DifferAsInserters c c') :=
  inferInstanceAs (Decidable (_ = true → _ = true → _ ≠ _))

instance (cs : List Command) (d : Document) : Decidable (HasOwnBookmarks cs d) :=
  decidable_of_iff
    (cs.Pairwise DifferAsInserters ∧ ∀ c ∈ cs, c.kind.isInsertion = true → c.bookmark ∈ d.names)
    ⟨fun h => ⟨h.1, h.2⟩, fun h => ⟨h.1, h.2⟩⟩

/-- Whether two documents have the same text, and the bookmarks of the commands that insert in the same
places. -/
structure SamePlaces (cs : List Command) (d d' : Document) : Prop where
  text : d.SameText d'
  own : HasOwnBookmarks cs d
  own' : HasOwnBookmarks cs d'
  spans : ∀ c ∈ cs, c.kind.isInsertion = true → d.span? c.bookmark = d'.span? c.bookmark

theorem HasOwnBookmarks.tail {c : Command} {cs : List Command} {d : Document}
    (h : HasOwnBookmarks (c :: cs) d) : HasOwnBookmarks cs d :=
  ⟨(List.pairwise_cons.1 h.distinct).2, fun x hx => h.found x (List.mem_cons_of_mem _ hx)⟩

theorem SamePlaces.tail {c : Command} {cs : List Command} {d d' : Document}
    (h : SamePlaces (c :: cs) d d') : SamePlaces cs d d' :=
  ⟨h.text, h.own.tail, h.own'.tail, fun x hx => h.spans x (List.mem_cons_of_mem _ hx)⟩

theorem HasOwnBookmarks.markDone {c : Command} {cs : List Command} {d : Document}
    (h : HasOwnBookmarks (c :: cs) d) (hc : c.kind.isInsertion = true) (remove : Bool) :
    HasOwnBookmarks cs (c.unmark.markDone d remove).2 ∧
      ∀ x ∈ cs, x.kind.isInsertion = true →
        (c.unmark.markDone d remove).2.span? x.bookmark = d.span? x.bookmark := by
  have hspan : ∀ x ∈ cs, x.kind.isInsertion = true →
      (c.unmark.markDone d remove).2.span? x.bookmark = d.span? x.bookmark := fun x hx hk =>
    Command.span?_markDone (c := c.unmark) ((List.pairwise_cons.1 h.distinct).1 x hx hc hk).symm
      fun _ => h.found x (List.mem_cons_of_mem _ hx) hk
  refine ⟨⟨h.tail.distinct, fun x hx hk => ?_⟩, hspan⟩
  rw [← isSome_span?_iff, hspan x hx hk, isSome_span?_iff]
  exact h.tail.found x hx hk

/-! ### Collecting the marks -/

/-- The step for one command. -/
theorem parallel_collectFrom {c : Command} {cs : List Command} {d d' : Document}
    (h : SamePlaces (c :: cs) d d') (found : List Cleaner) (policy policy' : Policy) :
    Parallel (fun p q => SamePlaces cs p.2.1 q.2.1 ∧ p.2.2 = q.2.2)
      (collectFrom policy c (d, found)) (collectFrom policy' c (d', found)) := by
  unfold collectFrom
  rw [closingRemovable?_eq]
  split
  next => exact ⟨h.tail, rfl⟩
  next removable hkind =>
    have hc : c.kind.isInsertion = true := by
      by_contra hno
      rw [if_neg hno] at hkind
      cases hkind
    have hrange : c.range? d = c.range? d' := by
      rw [c.range?_eq, c.range?_eq, h.spans c (by simp) hc]
    obtain ⟨hown, hspans⟩ := h.own.markDone hc (!policy.debug)
    obtain ⟨hown', hspans'⟩ := h.own'.markDone hc (!policy'.debug)
    have hplaces : SamePlaces cs (c.unmark.markDone d (!policy.debug)).2
        (c.unmark.markDone d' (!policy'.debug)).2 := by
      refine ⟨?_, hown, hown', fun x hx hk => ?_⟩
      · show (c.unmark.markDone d (!policy.debug)).2.text = (c.unmark.markDone d' (!policy'.debug)).2.text
        rw [Command.text_markDone, Command.text_markDone]
        exact h.text
      · rw [hspans x hx hk, hspans' x hx hk]
        exact h.spans x (List.mem_cons_of_mem _ hx) hk
    have hfinish : ∀ {x y : Except Fault (List Cleaner)}, x = y →
        Parallel (fun p q => SamePlaces cs p.2.1 q.2.1 ∧ p.2.2 = q.2.2)
          (x >>= fun found' => pure ((c.unmark.markDone d (!policy.debug)).1,
            (c.unmark.markDone d (!policy.debug)).2, found ++ found'))
          (y >>= fun found' => pure ((c.unmark.markDone d' (!policy'.debug)).1,
            (c.unmark.markDone d' (!policy'.debug)).2, found ++ found')) := fun hxy => by
      refine (Parallel.of_eq (R := fun a b => a = b) hxy fun _ _ => rfl).andThen ?_
      rintro a _ rfl
      exact ⟨hplaces, rfl⟩
    dsimp only
    rw [hrange]
    split
    · exact hfinish (h.text.markCleaners _ _)
    · exact hfinish rfl

/-- The same marks are found. -/
theorem parallel_collect {cs cs' : List Command} (hcs : List.Forall₂ Command.Alike cs cs')
    {d d' : Document} (h : SamePlaces cs d d') (policy policy' : Policy) :
    Parallel (fun p q => p.2.1.SameText q.2.1 ∧ p.2.2 = q.2.2) (collect policy cs d)
      (collect policy' cs' d') := by
  suffices key : ∀ found, Parallel (fun p q => p.2.1.SameText q.2.1 ∧ p.2.2 = q.2.2)
      (visit (collectFrom policy) cs (d, found)) (visit (collectFrom policy') cs' (d', found)) from key []
  induction hcs generalizing d d' with
  | nil => exact fun found => ⟨h.text, rfl⟩
  | @cons c c' cs cs' hc _ ih =>
    intro found
    have hone : Parallel (fun p q => SamePlaces cs p.2.1 q.2.1 ∧ p.2.2 = q.2.2)
        (collectFrom policy c (d, found)) (collectFrom policy' c' (d', found)) := by
      cases hkind : c.kind.isInsertion with
      | true =>
        rw [hc.same (.inr hkind)]
        exact parallel_collectFrom h found policy policy'
      | false =>
        -- both commands are left alone
        unfold collectFrom
        rw [closingRemovable?_eq, closingRemovable?_eq, hc.kind, hkind]
        exact ⟨h.tail, rfl⟩
    refine hone.andThen ?_
    rintro ⟨c₁, d₁, found₁⟩ ⟨c₁', d₁', _⟩ ⟨hplaces, rfl⟩
    exact (ih hplaces found₁).andThen fun p q hpq => hpq

/-- Runs that are alike have the bookmarks of commands that insert in the same places. -/
theorem ListAlike.samePlaces {p q : List Command × Run} (h : ListAlike p q)
    (hown : HasOwnBookmarks p.1 p.2.document) : SamePlaces p.1 p.2.document q.2.document := by
  have hspans : ∀ c ∈ p.1, c.kind.isInsertion = true →
      p.2.document.span? c.bookmark = q.2.document.span? c.bookmark := fun c hc hk => by
    obtain ⟨c', -, hcc⟩ := exists_of_forall₂_of_mem h.1 hc
    rw [span?, span?, h.2.document.bookmark? (hcc.named.inserts hk)]
  refine ⟨h.2.document.text, hown, ⟨hown.distinct, fun c hc hk => ?_⟩, hspans⟩
  rw [← isSome_span?_iff, ← hspans c hc hk, isSome_span?_iff]
  exact hown.found c hc hk

/-- Removing the marks of two runs that are alike. -/
theorem parallel_collectGarbage {p q : List Command × Run} (h : ListAlike p q)
    (hown : HasOwnBookmarks p.1 p.2.document) (policy policy' : Policy) :
    Parallel (fun o o' => o.2.SameText o'.2) (collectGarbage policy p.1 p.2.document)
      (collectGarbage policy' q.1 q.2.document) := by
  refine (parallel_collect h.1 (h.samePlaces hown) policy policy').andThen ?_
  rintro ⟨cs, d, found⟩ ⟨cs', d', _⟩ ⟨htext, rfl⟩
  exact (htext.sweep found).andThen fun _ _ hd => hd

end TemplateEngine
