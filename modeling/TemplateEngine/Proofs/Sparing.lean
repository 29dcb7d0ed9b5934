import TemplateEngine.Process.Pipeline
import TemplateEngine.Proofs.Expanding

/-!
# Sparing — what no step touches

Beside its text a document has a location, variables, metadata, styles and locks.  `Spares` says that these
stay but for the metadata of some keys and for added styles.  No edit touches any of them; of all commands only
fragments asked for their styles add styles (`spares_executeInsert`), only forms write into the metadata
(`spares_fillIn`) and only scans list print functions (`scannedAside_scanSettings`).
-/

namespace TemplateEngine

/-- Whether two documents agree in what lies beside the text. -/
structure SameAside (d d' : Document) : Prop where
  location : d'.location = d.location
  values : d'.values = d.values
  locks : d'.locks = d.locks
  metadata : d'.metadata = d.metadata
  styles : d'.styles = d.styles

theorem SameAside.refl (d : Document) : SameAside d d := ⟨rfl, rfl, rfl, rfl, rfl⟩

theorem SameAside.trans {d d' d'' : Document} (h : SameAside d d') (h' : SameAside d' d'') : SameAside d d'' :=
  ⟨h'.location.trans h.location, h'.values.trans h.values, h'.locks.trans h.locks,
    h'.metadata.trans h.metadata, h'.styles.trans h.styles⟩

/-- Whether a document keeps what lies beside its text, but for the metadata of some keys and for added
styles. -/
structure Spares (keys : List String) (added : StyleFamily → String → Prop) (d d' : Document) : Prop where
  location : d'.location = d.location
  values : d'.values = d.values
  locks : d'.locks = d.locks
  metadata : ∀ key ∉ keys, d'.persistentData? key = d.persistentData? key
  kept : ∀ f, (d.styles.get f).names ⊆ (d'.styles.get f).names
  added : ∀ f, ∀ n ∈ (d'.styles.get f).names, n ∈ (d.styles.get f).names ∨ added f n

/-- No styles at all. -/
def noStyle : StyleFamily → String → Prop := fun _ _ => False

theorem SameAside.spares {keys : List String} {added : StyleFamily → String → Prop} {d d' : Document}
    (h : SameAside d d') : Spares keys added d d' where
  location := h.location
  values := h.values
  locks := h.locks
  metadata := fun key _ => congrArg (·.get? key) h.metadata
  kept := fun _ => h.styles ▸ List.Subset.refl _
  added := fun _ _ hn => .inl (h.styles ▸ hn)

namespace Spares

variable {keys keys' : List String} {added added' : StyleFamily → String → Prop} {d d' d'' : Document}

theorem refl (d : Document) : Spares keys added d d := (SameAside.refl d).spares

theorem trans (h : Spares keys added d d') (h' : Spares keys added d' d'') : Spares keys added d d'' where
  location := h'.location.trans h.location
  values := h'.values.trans h.values
  locks := h'.locks.trans h.locks
  metadata := fun key hkey => (h'.metadata key hkey).trans (h.metadata key hkey)
  kept := fun f => List.Subset.trans (h.kept f) (h'.kept f)
  added := fun f n hn => (h'.added f n hn).elim (h.added f n) .inr

theorem mono (h : Spares keys added d d') (hkeys : keys ⊆ keys') (hadded : ∀ f n, added f n → added' f n) :
    Spares keys' added' d d' :=
  ⟨h.location, h.values, h.locks, fun key hkey => h.metadata key fun hmem => hkey (hkeys hmem), h.kept,
    fun f n hn => (h.added f n hn).imp_right (hadded f n)⟩

/-- Where nothing is added the styles are the same. -/
theorem styles_eq (h : Spares keys added d d') (hnone : ∀ f n, ¬ added f n) : d'.styles = d.styles := by
  have hget : ∀ f, d'.styles.get f = d.styles.get f := fun f =>
    NameSet.ext_mem fun n => ⟨fun hn => (h.added f n hn).resolve_right (hnone f n), fun hn => h.kept f hn⟩
  have hall : ∀ sheet : StyleSheet, sheet = ⟨sheet.get .text, sheet.get .page, sheet.get .numbering⟩ :=
    fun _ => rfl
  rw [hall d'.styles, hget, hget, hget]
  rfl

theorem setPersistentData {key : String} (hkey : key ∈ keys) (d : Document) (value : String) :
    Spares keys added d (d.setPersistentData key value) where
  location := rfl
  values := rfl
  locks := rfl
  metadata := fun k hk =>
    (Dictionary.get?_insert _ _ _ _).trans (if_neg fun heq : key = k => hk (heq ▸ hkey))
  kept := fun _ => List.Subset.refl _
  added := fun _ _ hn => .inl hn

/-- The styles of the families asked for come in. -/
theorem importStyles (d content : Document) (families : List StyleFamily)
    (h : ∀ f ∈ families, ∀ n ∈ (content.styles.get f).names, added f n) :
    Spares keys added d (d.importStyles content families) := by
  let I : StyleSheet → Prop := fun sheet => ∀ f, (d.styles.get f).names ⊆ (sheet.get f).names ∧
    ∀ n ∈ (sheet.get f).names, n ∈ (d.styles.get f).names ∨ added f n
  have hsheet : I (families.foldl (fun s f => s.addAll f (content.styles.get f).names) d.styles) := by
    refine Document.foldl_invariant_mem (I := I) (fun sheet f hf hI g => ?_)
      fun f => ⟨List.Subset.refl _, fun n hn => .inl hn⟩
    rw [StyleSheet.addAll, StyleSheet.get_set]
    split
    next heq =>
      subst heq
      refine ⟨fun n hn => NameSet.mem_insertAll.2 (.inr ((hI f).1 hn)), fun n hn => ?_⟩
      rcases NameSet.mem_insertAll.1 hn with hnew | hold
      · exact .inr (h f hf n hnew)
      · exact (hI f).2 n hold
    · exact hI g
  exact ⟨rfl, rfl, rfl, fun _ _ => rfl, fun f => (hsheet f).1, fun f => (hsheet f).2⟩

end Spares

/-! ### Operations -/

/-- How an attempted operation ends that touches nothing beside the text. -/
def EndsAside (d : Document) : Except Refusal Document → Prop
  | .ok d' => SameAside d d'
  | .error _ => True

theorem aside_edit (d : Document) (s : Span) (new : Text) (owner : Option Owner) :
    Ends (fun _ => True) (d.edit s new owner) (SameAside d) := by
  unfold Document.edit
  split
  · trivial
  · exact ⟨rfl, rfl, rfl, rfl, rfl⟩

theorem aside_setBookmarkText (d : Document) (name : String) (t : Text) :
    Ends (fun _ => True) (d.setBookmarkText name t) (EndsAside d) := by
  unfold Document.setBookmarkText
  split
  · trivial
  · exact Ends.andThen (aside_edit d _ _ _) fun d' hd' => hd'

theorem aside_deleteParagraph (d : Document) (r : TextRange) :
    Ends (fun _ => True) (d.deleteParagraph r) (EndsAside d) := by
  unfold Document.deleteParagraph
  split
  · trivial
  split
  · trivial
  · exact Ends.andThen (aside_edit d _ _ _) fun d' hd' => hd'

theorem aside_replacePlaceholder (d : Document) (id : Nat) (t : Text) :
    Ends (fun _ => True) (d.replacePlaceholder id t) (EndsAside d) := by
  unfold Document.replacePlaceholder
  split
  · trivial
  · exact Ends.andThen (aside_edit d _ _ _) fun d' hd' => hd'.trans ⟨rfl, rfl, rfl, rfl, rfl⟩

theorem aside_refreshElement (d : Document) (e : Element) :
    Ends (fun _ => True) (d.refreshElement e) fun o => ∀ d', o = some (.ok d') → SameAside d d' := by
  unfold Document.refreshElement
  split
  · simp
  split
  · simp
  split
  · simp
  split
  · simp
  · refine Ends.andThen (aside_edit d _ _ _) fun d' hd' => ?_
    rintro d'' ⟨⟩
    exact hd'

theorem aside_adopt (d content : Document) (offset : Nat) : SameAside d (d.adopt content offset) := by
  let I : Document → Prop := SameAside d
  show I (d.adopt content offset)
  refine Document.foldl_invariant (I := I) ?_ _ (Document.foldl_invariant (I := I) ?_ _
    (Document.foldl_invariant (I := I) ?_ _ (.refl d)))
  · exact fun d' a h => h.trans ⟨rfl, rfl, rfl, rfl, rfl⟩
  · exact fun d' f h => h.trans ⟨rfl, rfl, rfl, rfl, rfl⟩
  · exact fun d' b h => h.trans ⟨rfl, rfl, rfl, rfl, rfl⟩

theorem aside_insertContent (d : Document) (r : TextRange) (content : Document) :
    Ends (fun _ => True) (d.insertContent r content) (EndsAside d) := by
  unfold Document.insertContent
  split
  · trivial
  · exact Ends.andThen (aside_edit d _ _ _) fun d' hd' => hd'.trans (aside_adopt d' content r.start)

theorem aside_insertBookmark {d d' : Document} {name unique : String} {r : TextRange}
    (h : d.insertBookmark name r = .ok (d', unique)) : SameAside d d' := by
  have hadd := Document.addBookmark_of_insertBookmark h
  rw [Document.addBookmark, Prod.mk.injEq] at hadd
  rw [← hadd.1]
  exact ⟨rfl, rfl, rfl, rfl, rfl⟩

theorem Document.DifferInBookmarks.aside {d d' : Document} (h : d.DifferInBookmarks d') : SameAside d d' :=
  ⟨h.congr (·.location) fun _ => rfl, h.values, h.congr (·.locks) fun _ => rfl,
    h.congr (·.metadata) fun _ => rfl, h.congr (·.styles) fun _ => rfl⟩

theorem aside_markDone (c : Command) (d : Document) (remove : Bool) :
    SameAside d (c.markDone d remove).2 :=
  (c.differInBookmarks_markDone d remove).aside

/-! ### Commands that fail, are written or are done -/

theorem aside_write (r : Run) (c : Command) (t : Text) :
    Ends (fun _ => True) (r.write c t) fun r' => SameAside r.document r'.document := by
  refine Ends.andThen (aside_setBookmarkText r.document c.bookmark t) fun a ha => ?_
  cases a with
  | error e => exact .refl r.document
  | ok d => exact ha

theorem aside_markFailure (d : Document) (c : Command) (reason : String) :
    Ends (fun _ => True) (markFailure d c reason) (SameAside d) := by
  refine Ends.andThen (aside_setBookmarkText d c.bookmark failureText) fun a ha => ?_
  cases a with
  | error e => exact .refl d
  | ok d' =>
    have hd' : SameAside d d' := ha
    dsimp only
    split
    · exact hd'
    split
    · exact hd'
    next h =>
      rw [← Document.addAnnotation_of_insertAnnotation h]
      exact hd'.trans ⟨rfl, rfl, rfl, rfl, rfl⟩

theorem aside_fail (r : Run) (c : Command) (reason : String) :
    Ends (fun _ => True) (r.fail c reason) fun p => SameAside r.document p.2.document :=
  Ends.andThen (aside_markFailure r.document c reason) fun _ hd => hd

/-! ### Insertions -/

theorem aside_insertBetweenMarks (c : Command) (d content : Document) :
    Ends (fun _ => True) (c.insertBetweenMarks d content) fun p => SameAside d p.2.1 := by
  unfold Command.insertBetweenMarks
  refine Ends.andThen (aside_setBookmarkText d c.bookmark Command.marks) fun a ha => ?_
  cases a with
  | error e => exact .refl d
  | ok d₁ =>
    have hd₁ : SameAside d d₁ := ha
    dsimp only
    split
    · exact hd₁
    split
    · exact hd₁
    refine Ends.andThen (aside_insertContent d₁ _ content) fun a ha => ?_
    cases a with
    | error e => exact hd₁
    | ok d₂ => exact hd₁.trans ha

theorem aside_placeCursor (r : Run) (id : Nat) : SameAside r.document (r.placeCursor id).document := by
  unfold Run.placeCursor
  split <;> exact ⟨rfl, rfl, rfl, rfl, rfl⟩

theorem aside_offerCursor (r : Run) (id : Nat) : SameAside r.document (r.offerCursor id).document := by
  unfold Run.offerCursor
  split
  · exact .refl _
  · exact aside_placeCursor r id

theorem aside_settleCursor (r : Run) (jumpMark : Option String) (ids : List Nat) :
    SameAside r.document (settleCursor r jumpMark ids).document := by
  unfold settleCursor
  split
  · exact aside_offerCursor r _
  · split <;> exact ⟨rfl, rfl, rfl, rfl, rfl⟩

theorem aside_fillPlaceholder (r : Run) (id : Nat) (argument : String) :
    Ends (fun _ => True) (fillPlaceholder r id argument) fun r' => SameAside r.document r'.document := by
  unfold fillPlaceholder
  split
  · exact aside_offerCursor r id
  · refine Ends.andThen (aside_replacePlaceholder r.document id argument.toList) fun a ha => ?_
    cases a with
    | error e => exact .refl _
    | ok d => exact ha

theorem aside_fillEach (r : Run) (ids : List Nat) (arguments : List String) :
    Ends (fun _ => True) (fillEach r ids arguments) fun r' => SameAside r.document r'.document := by
  induction ids generalizing r arguments with
  | nil => exact .refl _
  | cons id ids ih =>
    cases arguments with
    | nil => exact .refl _
    | cons argument arguments =>
      refine Ends.andThen (aside_fillPlaceholder r id argument) fun r' hr' => ?_
      exact (ih r' arguments).mono fun r'' hr'' => hr'.trans hr''

theorem aside_fillPlaceholders (policy : Policy) (jumpMark : Option String) (c : Command)
    (arguments : List String) (r : Run) :
    Ends (fun _ => True) (fillPlaceholders policy jumpMark c arguments r) fun r' =>
      SameAside r.document r'.document := by
  unfold fillPlaceholders
  split
  · exact .refl _
  · refine Ends.andThen (aside_fillEach r _ arguments) fun r' hr' => ?_
    have hsettled := fun ids => hr'.trans (aside_settleCursor r' jumpMark ids)
    dsimp only
    split <;> exact hsettled _

/-- The styles that executing a command of a kind may bring in. -/
def ImportsStyle (s : Services) (r : Run) (kind : CommandKind) (f : StyleFamily) (n : String) : Prop :=
  ∃ request l content, kind = .insertFragment request ∧ request.stylesOnly = true ∧ f ∈ request.styles ∧
    Loads s r kind l ∧ s.load l = .ok content ∧ n ∈ (content.styles.get f).names

theorem spares_placeFragment (request : FragmentRequest) (content : Document) (c : Command) (r : Run)
    {added : StyleFamily → String → Prop}
    (h : request.stylesOnly = true → ∀ f ∈ request.styles, ∀ n ∈ (content.styles.get f).names, added f n) :
    Ends (fun _ => True) (placeFragment request content c r) fun p =>
      Spares [] added r.document p.2.1.document := by
  unfold placeFragment
  split
  next hstyles =>
    have himport : Spares [] added _ _ := .importStyles r.document content request.styles (h hstyles)
    refine Ends.andThen (aside_setBookmarkText (r.document.importStyles content request.styles) c.bookmark [])
      fun a ha => ?_
    cases a with
    | error e => exact himport
    | ok d => exact himport.trans (SameAside.spares ha)
  · exact Ends.andThen (aside_insertBetweenMarks c r.document content) fun p hp => hp.spares

theorem aside_failFragment (request : FragmentRequest) (id : String) (e : InsertionError) (c : Command)
    (r : Run) :
    Ends (fun _ => True) (failFragment request id e c r) fun p => SameAside r.document p.2.document := by
  unfold failFragment
  split
  · exact .refl r.document
  · exact aside_fail r c e.message

theorem spares_insertFragment {s : Services} (jumpMark : Option String) {request : FragmentRequest} {c : Command}
    (hkind : c.kind = .insertFragment request) (r : Run) :
    Ends (fun _ => True) (insertFragment s jumpMark request c r) fun p =>
      Spares [] (ImportsStyle s r c.kind) r.document p.2.document := by
  unfold insertFragment
  dsimp only
  split
  · exact Ends.andThen (aside_write r c []) fun r' hr' => (hr'.trans (aside_markDone c _ false)).spares
  split
  · exact (aside_failFragment request _ _ c r).mono fun p hp => hp.spares
  next content hfragment =>
    obtain ⟨l, hl, hload⟩ := exists_of_loadFragment hfragment
    have hstyle : request.stylesOnly = true → ∀ f ∈ request.styles, ∀ n ∈ (content.styles.get f).names,
        ImportsStyle s r c.kind f n := fun hstyles f hf n hn =>
      ⟨request, l, content, hkind, hstyles, hf, hkind ▸ hl, hload, hn⟩
    refine Ends.andThen (spares_placeFragment request content c r hstyle) fun p hp => ?_
    obtain ⟨c', r', refusal⟩ := p
    cases refusal with
    | some refusal => exact (aside_failFragment request _ _ c' r').mono fun p hp' => hp.trans hp'.spares
    | none =>
      dsimp only
      split
      · exact hp.trans (aside_markDone c' _ false).spares
      · refine Ends.andThen (aside_fillPlaceholders s.policy jumpMark c' request.arguments r') fun r'' hr'' => ?_
        exact hp.trans (hr''.trans (aside_markDone c' _ false)).spares

theorem aside_insertContent_step (s : Services) (c : Command) (r : Run) :
    Ends (fun _ => True) (insertContent s c r) fun p => SameAside r.document p.2.document := by
  unfold insertContent
  split
  · exact aside_markDone c _ false
  next location contents _ =>
    have hplace : Ends (fun _ => True) (placeContent s location c { r with contents }) fun p =>
        SameAside r.document p.2.document := by
      unfold placeContent
      split
      · exact aside_fail { r with contents } c _
      · refine Ends.andThen (aside_insertBetweenMarks c r.document _) fun p hp => ?_
        obtain ⟨c', d', refusal⟩ := p
        cases refusal with
        | some e => exact (aside_fail { r with document := d', contents } c' _).mono fun p hp' => hp.trans hp'
        | none => exact hp
    exact Ends.andThen hplace fun p hp => hp.trans (aside_markDone p.1 _ false)

/-- Of the insertions only a fragment asked for its styles touches anything beside the text. -/
theorem spares_executeInsert (s : Services) (jumpMark : Option String) (c : Command) (r : Run) :
    Ends (fun _ => True) (executeInsert s jumpMark c r) fun p =>
      Spares [] (ImportsStyle s r c.kind) r.document p.2.document := by
  unfold executeInsert
  split
  next request hkind => exact spares_insertFragment jumpMark hkind r
  · exact (aside_insertContent_step s c r).mono fun p hp => hp.spares
  · exact .refl r.document

theorem aside_executeOverride (policy : Policy) (c : Command) (r : Run) :
    Ends (fun _ => True) (executeOverride policy c r) fun p => SameAside r.document p.2.document := by
  unfold executeOverride
  split
  · split
    · exact aside_markDone c _ _
    · exact aside_fail r c _
  · exact .refl r.document

/-! ### Fields and values -/

theorem aside_updateFields (policy : Policy) (c : Command) (r : Run) :
    Ends (fun _ => True) (updateFields policy c r) fun p => SameAside r.document p.2.document := by
  unfold updateFields
  split
  · dsimp only
    split
    · exact aside_markDone c r.document _
    next range _ =>
      have hupdate := Ends.refreshElements (I := SameAside r.document)
        (fun d e hd => (aside_refreshElement d e).mono fun o ho d' hd' => hd.trans (ho d' hd'))
        (.refl r.document) (r.document.elementsWithin range.toSpan)
      exact Ends.andThen hupdate fun d hd => hd.trans (aside_markDone c d _)
  · exact .refl r.document

/-- Of these commands only a form touches anything beside the text, the description of the form. -/
theorem spares_fillIn (s : Services) (c : Command) (r : Run) :
    Ends (fun _ => True) (fillIn s c r) fun p => Spares [formDescriptionKey] noStyle r.document p.2.document := by
  have hform : Ends (fun _ => True) (takeForm s.policy c r) fun p =>
      Spares [formDescriptionKey] noStyle r.document p.2.document := by
    unfold takeForm
    refine Ends.afterAny fun body => ?_
    split
    · exact (aside_fail r c _).mono fun p hp => hp.spares
    next nodes _ =>
      have hdescribe : Spares [formDescriptionKey] noStyle r.document (r.describeForm nodes).document := by
        unfold Run.describeForm
        split
        · exact .refl r.document
        · exact .setPersistentData (by simp) r.document _
      refine Ends.andThen (aside_setBookmarkText (r.describeForm nodes).document c.bookmark []) fun a ha => ?_
      cases a with
      | error e => exact (aside_fail _ c _).mono fun p hp => hdescribe.trans hp.spares
      | ok d => exact hdescribe.trans (SameAside.trans ha (aside_markDone c d _)).spares
  unfold fillIn
  split
  · exact hform
  · exact (aside_fail r c _).mono fun p hp => hp.spares
  · unfold insertValue
    split
    · exact (aside_fail r c _).mono fun p hp => hp.spares
    · exact Ends.andThen (aside_write r c _) fun r' hr' => (hr'.trans (aside_markDone c _ false)).spares
  · exact .refl r.document

/-! ### Marks -/

theorem aside_collect (policy : Policy) (cs : List Command) (d : Document) :
    Ends (fun _ => True) (collect policy cs d) fun p => SameAside d p.2.1 := by
  refine Ends.visitAll (I := fun _ (s : Document × List Cleaner) => SameAside d s.1) (.refl d)
    fun before c after s hs => ?_
  unfold collectFrom
  split
  · exact hs
  · have hdone := hs.trans (aside_markDone c.unmark s.1 (!policy.debug))
    dsimp only
    split
    · exact Ends.afterAny fun _ => hdone
    · exact hdone

theorem aside_restoreBookmark (place : TextRange) (d : Document) (name : String) :
    SameAside d (restoreBookmark place d name) := by
  unfold restoreBookmark
  split
  · exact .refl d
  · split
    next hinsert => exact aside_insertBookmark hinsert
    · exact .refl d

theorem aside_clearRange (d : Document) (r : TextRange) :
    Ends (fun _ => True) (clearRange d r) (EndsAside d) := by
  unfold clearRange
  split
  · trivial
  next d₁ killer hinsert =>
    refine Ends.andThen (aside_setBookmarkText d₁ killer []) fun a ha => ?_
    cases a with
    | error e => trivial
    | ok d₂ =>
      have hd₂ : SameAside d d₂ := (aside_insertBookmark hinsert).trans ha
      dsimp only
      split
      · trivial
      next cleared hremove =>
        have hcleared := hd₂.trans (Document.differInBookmarks_removeBookmark hremove).aside
        split
        · exact hcleared
        · let I : Document → Prop := SameAside d
          show I _
          exact Document.foldl_invariant (I := I)
            (fun d' name hd' => hd'.trans (aside_restoreBookmark _ d' name)) _ hcleared

theorem aside_sweep (d : Document) (cleaners : List Cleaner) :
    Ends (fun _ => True) (sweep d cleaners) (SameAside d) := by
  refine Ends.andThen (P := SameAside d.lock) ?_ fun d' hd' => ?_
  · refine Ends.foldlM (.refl d.lock) fun cleaner _ d' hd' => ?_
    unfold applyCleaner
    cases cleaner with
    | range r =>
      refine Ends.andThen (aside_clearRange d' r) fun a ha => ?_
      cases a with
      | error e => exact hd'
      | ok d'' => exact hd'.trans ha
    | paragraph r =>
      refine Ends.andThen (aside_deleteParagraph d' r) fun a ha => ?_
      cases a with
      | error e => exact hd'
      | ok d'' => exact hd'.trans ha
  · exact ⟨hd'.location, hd'.values, (congrArg (· - 1) hd'.locks :), hd'.metadata, hd'.styles⟩

/-! ### Phases -/

theorem spares_lockedPhase {keys : List String} {added : StyleFamily → String → Prop}
    {step : Command → Run → Except Fault (Command × Run)}
    (h : ∀ c r, Ends (fun _ => True) (step c r) fun p => Spares keys added r.document p.2.document)
    (cs : List Command) (r : Run) :
    Ends (fun _ => True) (lockedPhase (visitPending step) cs r) fun p =>
      Spares keys added r.document p.2.document := by
  have hvisit : Ends (fun _ => True) (visitPending step cs { r with document := r.document.lock }) fun p =>
      Spares keys added r.document.lock p.2.document := by
    refine Ends.visitPendingAll (I := fun _ (r' : Run) => Spares keys added r.document.lock r'.document)
      (.refl r.document.lock) fun before c after r' _ hr' => ?_
    exact (h c r').mono fun p hp => hr'.trans hp
  refine Ends.andThen hvisit fun p hp => ?_
  exact ⟨hp.location, hp.values, (congrArg (· - 1) hp.locks :), hp.metadata, hp.kept, hp.added⟩

/-- After the expansion only the description of a form is written beside the text. -/
theorem spares_completeRun (s : Services) (cs : List Command) (r : Run) :
    Ends (fun _ => True) (completeRun s cs r) fun p =>
      Spares [formDescriptionKey] noStyle r.document p.2.document := by
  have hupdate : Ends (fun _ => True) (lockedPhase (visitPending (updateFields s.policy)) cs r) fun p =>
      Spares [formDescriptionKey] noStyle r.document p.2.document :=
    spares_lockedPhase (fun c r => (aside_updateFields s.policy c r).mono fun p hp => hp.spares) cs r
  refine Ends.andThen hupdate fun p hp => ?_
  refine Ends.andThen (spares_lockedPhase (fun c r => spares_fillIn s c r) p.1 p.2) fun q hq => ?_
  have hcollect : Ends (fun _ => True) (collectGarbage s.policy q.1 q.2.document) fun t =>
      SameAside q.2.document t.2 :=
    Ends.andThen (aside_collect s.policy q.1 q.2.document) fun t ht =>
      Ends.andThen (aside_sweep t.2.1 t.2.2) fun d hd => ht.trans hd
  exact Ends.andThen hcollect fun t ht => hp.trans (hq.trans ht.spares)

theorem spares_scanCommand (hasLocation : Bool) (c : Command) (s : Scan) :
    Ends (fun _ => True) (scanCommand hasLocation c s) fun p =>
      Spares [printFunctionsKey] noStyle s.document p.2.document := by
  unfold scanCommand
  split
  · dsimp only
    split
    · exact .refl s.document
    · exact (aside_markDone c s.document true).spares
  next function _ =>
    have hadd : Spares [printFunctionsKey] noStyle s.document
        (s.settings.addPrintFunction s.document function).2 := by
      unfold Settings.addPrintFunction
      split
      · exact .refl s.document
      · exact .setPersistentData (by simp) s.document _
    exact hadd.trans (aside_markDone c _ true).spares
  · exact .refl s.document

/-- What a scan leaves of a model: beside the text it only lists print functions. -/
structure Model.ScannedAside (m m' : Model) : Prop where
  document : Spares [printFunctionsKey] noStyle m.document m'.document
  modified : m'.document.modified = m.document.modified
  overrides : m'.overrides = m.overrides
  contentLocations : m'.contentLocations = m.contentLocations

theorem scannedAside_scanSettings (m : Model) : Ends (fun _ => True) m.scanSettings m.ScannedAside := by
  have hvisit : Ends (fun _ => True)
      (visitPending (scanCommand m.enter.document.hasLocation) m.enter.commands ⟨m.enter.document, m.settings⟩)
      fun p => Spares [printFunctionsKey] noStyle m.enter.document p.2.document := by
    refine Ends.visitPendingAll
      (I := fun _ (s : Scan) => Spares [printFunctionsKey] noStyle m.enter.document s.document)
      (.refl m.enter.document) fun before c after s _ hs => ?_
    exact (spares_scanCommand _ c s).mono fun p hp => hs.trans hp
  refine Ends.andThen hvisit fun p hp => ?_
  exact ⟨⟨hp.location, hp.values, hp.locks, hp.metadata, hp.kept, hp.added⟩, rfl, rfl, rfl⟩

end TemplateEngine
