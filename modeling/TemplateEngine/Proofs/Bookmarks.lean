import TemplateEngine.Proofs.Ends
import TemplateEngine.Proofs.StateNames

/-!
# Bookmarks — what operations do to the names of a document

An edit drops bookmarks and adds none, an added or renamed bookmark gets a free name.  So the names of
a document stay distinct under every operation.  `Command.executed_markDone` says what becomes of the
name of a command that is done: it goes, or it is replaced by one that says so.
-/

namespace TemplateEngine

namespace Document

/-- The names of the bookmarks in storage order. -/
def names (d : Document) : List String := d.bookmarks.map (·.name)

theorem isSome_bookmark?_iff {d : Document} {name : String} :
    (d.bookmark? name).isSome = true ↔ name ∈ d.names := by
  simp [bookmark?, names]

end Document

/-- Whether two documents differ in their flags, styles and metadata only. -/
structure SameParts (d d' : Document) : Prop where
  text : d'.text = d.text
  bookmarks : d'.bookmarks = d.bookmarks
  fields : d'.fields = d.fields
  annotations : d'.annotations = d.annotations
  cursor : d'.cursor = d.cursor
  values : d'.values = d.values
  nextFieldId : d'.nextFieldId = d.nextFieldId

namespace SameParts

theorem refl (d : Document) : SameParts d d := ⟨rfl, rfl, rfl, rfl, rfl, rfl, rfl⟩

theorem lock (d : Document) : SameParts d d.lock := ⟨rfl, rfl, rfl, rfl, rfl, rfl, rfl⟩

theorem unlock (d : Document) : SameParts d d.unlock := ⟨rfl, rfl, rfl, rfl, rfl, rfl, rfl⟩

theorem importStyles (d content : Document) (families : List StyleFamily) :
    SameParts d (d.importStyles content families) :=
  ⟨rfl, rfl, rfl, rfl, rfl, rfl, rfl⟩

theorem setPersistentData (d : Document) (key value : String) :
    SameParts d (d.setPersistentData key value) :=
  ⟨rfl, rfl, rfl, rfl, rfl, rfl, rfl⟩

theorem names {d d' : Document} (h : SameParts d d') : d'.names = d.names := by
  rw [Document.names, h.bookmarks, Document.names]

end SameParts

namespace Document

/-! ### Edits -/

theorem name_of_bookmark? {e : Replacement} {b b' : Bookmark} (h : e.bookmark? b = some b') :
    b'.name = b.name := by
  unfold Replacement.bookmark? at h
  split at h
  · obtain rfl := Option.some.inj h
    rfl
  · obtain ⟨s, -, rfl⟩ := Option.map_eq_some_iff.1 h
    rfl

theorem map_name_filterMap_sublist (e : Replacement) (bs : List Bookmark) :
    ((bs.filterMap e.bookmark?).map (·.name)).Sublist (bs.map (·.name)) := by
  induction bs with
  | nil => exact .slnil
  | cons b bs ih =>
    cases h : e.bookmark? b with
    | none => simpa [h] using ih.cons _
    | some b' => simpa [h, name_of_bookmark? h] using ih

theorem names_edit {d : Document} {s : Span} {new : Text} {owner : Option Owner} :
    Ends (fun _ => True) (d.edit s new owner) fun d' => d'.names.Sublist d.names := by
  unfold edit
  split
  · trivial
  · exact map_name_filterMap_sublist _ _

/-- How an attempted operation ends that adds no bookmark. -/
def Narrows (d : Document) : Except Refusal Document → Prop
  | .ok d' => d'.names.Sublist d.names
  | .error _ => True

theorem narrows_setBookmarkText (d : Document) (name : String) (t : Text) :
    Ends (fun _ => True) (d.setBookmarkText name t) (Narrows d) := by
  unfold setBookmarkText
  split
  · trivial
  · exact Ends.andThen names_edit fun d' hd' => hd'

theorem narrows_deleteParagraph (d : Document) (r : TextRange) :
    Ends (fun _ => True) (d.deleteParagraph r) (Narrows d) := by
  unfold deleteParagraph
  split
  · trivial
  split
  · trivial
  · exact Ends.andThen names_edit fun d' hd' => hd'

theorem narrows_replacePlaceholder (d : Document) (id : Nat) (t : Text) :
    Ends (fun _ => True) (d.replacePlaceholder id t) (Narrows d) := by
  unfold replacePlaceholder
  split
  · trivial
  · exact Ends.andThen names_edit fun d' hd' => hd'

theorem narrows_refreshElement (d : Document) (e : Element) :
    Ends (fun _ => True) (d.refreshElement e) fun o => ∀ a, o = some a → Narrows d a := by
  unfold refreshElement
  split
  · simp
  split
  · simp
  split
  · simp
  split
  · rintro a ha
    cases ha
    trivial
  · refine Ends.andThen names_edit fun d' hd' => ?_
    rintro a ha
    cases ha
    exact hd'

/-! ### Adding -/

theorem check_ok {d : Document} {r : TextRange} {α : Type} {a b : α}
    (h : (do d.check r; return a : Except Refusal α) = .ok b) : a = b := by
  cases hcheck : d.check r with
  | error e => simp [hcheck, bind, Except.bind] at h
  | ok => simpa [hcheck, bind, Except.bind, pure, Except.pure] using h

theorem addBookmark_of_insertBookmark {d : Document} {name : String} {r : TextRange}
    {p : Document × String} (h : d.insertBookmark name r = .ok p) :
    d.addBookmark name r.toSpan = p :=
  check_ok h

theorem addAnnotation_of_insertAnnotation {d d' : Document} {r : TextRange} {text : String}
    (h : d.insertAnnotation r text = .ok d') : d.addAnnotation text r.toSpan = d' :=
  check_ok h

/-- A name that no bookmark has is given as it is asked for. -/
theorem uniqueName_of_notMem {d : Document} {name : String} (h : name ∉ d.names) :
    d.uniqueName name none = name := by
  have hfree : d.isTaken none name = false := by
    rw [Bool.eq_false_iff]
    exact fun ht => h (isTaken_iff.1 ht).1
  simp [uniqueName, candidates, hfree]

theorem names_addBookmark (d : Document) (name : String) (s : Span) :
    (d.addBookmark name s).1.names = d.names ++ [d.uniqueName name none] := by
  simp [addBookmark, names]

theorem nodup_addBookmark {d : Document} (hd : d.names.Nodup) (name : String) (s : Span) :
    (d.addBookmark name s).1.names.Nodup := by
  rw [names_addBookmark, List.nodup_append]
  refine ⟨hd, by simp, fun a ha b hb => ?_⟩
  rw [List.mem_singleton.1 hb]
  rintro rfl
  exact uniqueName_notMem d name ha

/-- What a fold keeps if each of its steps does. -/
theorem foldl_invariant_mem {α β : Type} {I : α → Prop} {f : α → β → α} {bs : List β}
    (h : ∀ a, ∀ b ∈ bs, I a → I (f a b)) {a : α} (ha : I a) : I (bs.foldl f a) := by
  induction bs generalizing a with
  | nil => exact ha
  | cons b bs ih => exact ih (fun a c hc => h a c (by simp [hc])) (h a b (by simp) ha)

theorem foldl_invariant {α β : Type} {I : α → Prop} {f : α → β → α} (h : ∀ a b, I a → I (f a b))
    (bs : List β) {a : α} (ha : I a) : I (bs.foldl f a) :=
  foldl_invariant_mem (fun a b _ => h a b) ha

theorem nodup_adopt {d : Document} (hd : d.names.Nodup) (content : Document) (offset : Nat) :
    (d.adopt content offset).names.Nodup := by
  let I : Document → Prop := fun d => d.names.Nodup
  show I (d.adopt content offset)
  refine foldl_invariant (I := I) ?_ _ (foldl_invariant (I := I) ?_ _ (foldl_invariant (I := I) ?_ _ hd))
  · exact fun d a h => h
  · exact fun d f h => h
  · exact fun d b h => nodup_addBookmark h _ _

/-- The names after adopting a content: old ones and variants of the content's. -/
theorem mem_names_adopt {d content : Document} {offset : Nat} {n : String}
    (h : n ∈ (d.adopt content offset).names) : n ∈ d.names ∨ ∃ m ∈ content.names, Variant m n := by
  let I : Document → Prop := fun d' => ∀ n ∈ d'.names, n ∈ d.names ∨ ∃ m ∈ content.names, Variant m n
  suffices hI : I (d.adopt content offset) from hI n h
  refine foldl_invariant (I := I) ?_ _ (foldl_invariant (I := I) ?_ _
    (foldl_invariant_mem (I := I) ?_ fun n hn => .inl hn))
  · exact fun d a h => h
  · exact fun d f h => h
  · intro d' b hb hd' n hn
    rw [names_addBookmark, List.mem_append, List.mem_singleton] at hn
    rcases hn with hn | rfl
    · exact hd' n hn
    · exact .inr ⟨b.name, List.mem_map_of_mem hb, variant_uniqueName d' b.name none⟩

/-- How inserting a content ends: the names stay distinct, and the new ones come from the content. -/
def Receives (d content : Document) : Except Refusal Document → Prop
  | .ok d' => (d.names.Nodup → d'.names.Nodup) ∧
      ∀ n ∈ d'.names, n ∈ d.names ∨ ∃ m ∈ content.names, Variant m n
  | .error _ => True

theorem receives_insertContent (d : Document) (r : TextRange) (content : Document) :
    Ends (fun _ => True) (d.insertContent r content) (Receives d content) := by
  unfold insertContent
  split
  · trivial
  · refine Ends.andThen names_edit fun d' hd' => ?_
    exact ⟨fun hd => nodup_adopt (hd.sublist hd') _ _,
      fun n hn => (mem_names_adopt hn).imp (fun h => hd'.subset h) id⟩

/-! ### Removing and renaming -/

/-- Whether two documents differ in their bookmarks at most. -/
def DifferInBookmarks (d d' : Document) : Prop := d' = { d with bookmarks := d'.bookmarks }

namespace DifferInBookmarks

variable {d d' : Document}

theorem refl (d : Document) : d.DifferInBookmarks d := rfl

/-- What does not depend on the bookmarks is the same. -/
theorem congr {α : Type} (h : d.DifferInBookmarks d') (f : Document → α)
    (hf : ∀ bookmarks, f { d with bookmarks } = f d) : f d' = f d :=
  (congrArg f (show d' = { d with bookmarks := d'.bookmarks } from h)).trans (hf _)

theorem text (h : d.DifferInBookmarks d') : d'.text = d.text := h.congr (·.text) fun _ => rfl

theorem fields (h : d.DifferInBookmarks d') : d'.fields = d.fields := h.congr (·.fields) fun _ => rfl

theorem nextFieldId (h : d.DifferInBookmarks d') : d'.nextFieldId = d.nextFieldId :=
  h.congr (·.nextFieldId) fun _ => rfl

theorem annotations (h : d.DifferInBookmarks d') : d'.annotations = d.annotations :=
  h.congr (·.annotations) fun _ => rfl

theorem values (h : d.DifferInBookmarks d') : d'.values = d.values := h.congr (·.values) fun _ => rfl

end DifferInBookmarks

theorem differInBookmarks_removeBookmark {d d' : Document} {name : String}
    (h : d.removeBookmark name = .ok d') : d.DifferInBookmarks d' := by
  unfold removeBookmark at h
  split at h <;> cases h
  rfl

theorem differInBookmarks_renameBookmark {d d' : Document} {name new unique : String}
    (h : d.renameBookmark name new = .ok (d', unique)) : d.DifferInBookmarks d' := by
  unfold renameBookmark at h
  split at h <;> cases h
  rfl

theorem names_removeBookmark {d d' : Document} {name : String}
    (h : d.removeBookmark name = .ok d') : d'.names = d.names.filter (· ≠ name) := by
  unfold removeBookmark at h
  split at h
  · cases h
    simp only [names, List.filter_map, Function.comp_def]
  · cases h

theorem mem_names_renameFirst {name new m : String} {bs : List Bookmark}
    (hbs : (bs.map (·.name)).Nodup) (h : m ∈ (renameFirst name new bs).map (·.name)) :
    m = new ∨ (m ∈ bs.map (·.name) ∧ m ≠ name) := by
  induction bs with
  | nil => simp [renameFirst] at h
  | cons b bs ih =>
    simp only [List.map_cons, List.nodup_cons] at hbs
    unfold renameFirst at h
    split at h
    next hb =>
      simp only [List.map_cons, List.mem_cons] at h
      rcases h with rfl | h
      · exact .inl rfl
      · refine .inr ⟨List.mem_cons_of_mem _ h, ?_⟩
        rintro rfl
        exact hbs.1 (hb ▸ h)
    next hb =>
      simp only [List.map_cons, List.mem_cons] at h
      rcases h with rfl | h
      · exact .inr ⟨by simp, hb⟩
      · exact (ih hbs.2 h).imp id fun h => ⟨List.mem_cons_of_mem _ h.1, h.2⟩

theorem nodup_renameFirst {name new : String} {bs : List Bookmark} (hbs : (bs.map (·.name)).Nodup)
    (hnew : new ∈ bs.map (·.name) → new = name) :
    ((renameFirst name new bs).map (·.name)).Nodup := by
  induction bs with
  | nil => simp [renameFirst]
  | cons b bs ih =>
    simp only [List.map_cons, List.nodup_cons] at hbs
    unfold renameFirst
    split
    next hb =>
      simp only [List.map_cons, List.nodup_cons]
      refine ⟨fun hmem => hbs.1 ?_, hbs.2⟩
      have := hnew (List.mem_cons_of_mem _ hmem)
      rwa [hb, ← this]
    next hb =>
      simp only [List.map_cons, List.nodup_cons]
      refine ⟨fun hmem => ?_, ih hbs.2 fun h => hnew (List.mem_cons_of_mem _ h)⟩
      rcases mem_names_renameFirst hbs.2 hmem with h | ⟨h, -⟩
      · exact hb (h.trans (hnew (by simp [h])))
      · exact hbs.1 h

theorem variant_renameBookmark {d d' : Document} {name new unique : String}
    (h : d.renameBookmark name new = .ok (d', unique)) : Variant new unique := by
  unfold renameBookmark at h
  split at h
  · cases h
    exact variant_uniqueName _ _ _
  · cases h

/-- Renaming takes the old name away and brings in one that is asked for. -/
theorem names_renameBookmark {d d' : Document} {name new unique : String} (hd : d.names.Nodup)
    (h : d.renameBookmark name new = .ok (d', unique)) :
    d'.names.Nodup ∧ Variant new unique ∧
      ∀ m ∈ d'.names, m = unique ∨ (m ∈ d.names ∧ m ≠ name) := by
  have hvariant := variant_renameBookmark h
  unfold renameBookmark at h
  split at h
  · cases h
    refine ⟨nodup_renameFirst hd fun hmem => ?_, hvariant, fun m hm => mem_names_renameFirst hd hm⟩
    have hfree := uniqueName_free d new (some name)
    rw [Bool.eq_false_iff] at hfree
    by_contra hne
    exact hfree (isTaken_iff.2 ⟨hmem, by simpa using hne⟩)
  · cases h

end Document

/-! ### Commands that are done -/

/-- Whether a name holds a command of some kind that is neither done nor failed. -/
def IsPendingName (name : String) (kind : CommandKind) : Prop :=
  ∃ c, Command.ofBookmark? name = some c ∧ c.isPending = true ∧ c.kind = kind

/-- How a step that executes the command `c` leaves it and the names of the document: its name is gone
or replaced by one that says that it is done. -/
structure Executed (c : Command) (d : Document) (c' : Command) (d' : Document) : Prop where
  kind : c'.kind = c.kind
  isCommand : c'.config.IsCommand
  bookmark : c'.bookmark = c.bookmark ∨ ∀ kind, ¬ IsPendingName c'.bookmark kind
  distinct : d'.names.Nodup
  names : ∀ n ∈ d'.names, (n ∈ d.names ∧ n ≠ c.bookmark) ∨ ∀ kind, ¬ IsPendingName n kind

namespace Command

theorem not_isPendingName_recorded {c : Command} (h : c.config.IsCommand) (hd : c.done = true)
    {name : String} (hname : Variant (toString c.recordState.config) name) (kind : CommandKind) :
    ¬ IsPendingName name kind := by
  rintro ⟨c', hc', hpending, -⟩
  rw [ofBookmark?_recorded h hd hname] at hc'
  obtain rfl := Option.some.inj hc'
  simp [isPending, ofNode, stateFlag_recordState h hd] at hpending

theorem bookmark_recordState (c : Command) : c.recordState.bookmark = c.bookmark := by
  rw [recordState]
  split <;> rfl

theorem kind_recordState (c : Command) : c.recordState.kind = c.kind := by
  rw [recordState]
  split <;> rfl

/-- Marking a command done touches bookmarks only. -/
theorem differInBookmarks_markDone (c : Command) (d : Document) (remove : Bool) :
    d.DifferInBookmarks (c.markDone d remove).2 := by
  unfold markDone
  dsimp only
  split
  · split
    next h => exact Document.differInBookmarks_removeBookmark h
    · exact .refl d
  · split
    next h => exact Document.differInBookmarks_renameBookmark h
    · exact .refl d

/-- A command marked done is executed. -/
theorem executed_markDone {c : Command} {d : Document} (hc : c.config.IsCommand)
    (hd : d.names.Nodup) (remove : Bool) :
    Executed c d (c.markDone d remove).1 (c.markDone d remove).2 := by
  have hgone : ∀ n ∈ d.names, (d.bookmark? c.bookmark).isSome = false → n ≠ c.bookmark := by
    rintro n hn hnone rfl
    rw [Document.isSome_bookmark?_iff.2 hn] at hnone
    cases hnone
  cases remove with
  | true =>
    unfold markDone
    simp only [if_true]
    split
    next d' hd' =>
      have hnames := Document.names_removeBookmark hd'
      refine ⟨rfl, hc, .inl rfl, hnames ▸ hd.filter _, fun n hn => .inl ?_⟩
      rw [hnames, List.mem_filter] at hn
      simpa using hn
    next e he =>
      refine ⟨rfl, hc, .inl rfl, hd, fun n hn => .inl ⟨hn, hgone n hn ?_⟩⟩
      unfold Document.removeBookmark at he
      split at he
      · cases he
      next h => simpa using h
  | false =>
    have hrec := isCommand_recordState (c := { c with done := true }) hc
    have hkind := kind_recordState { c with done := true }
    have hbookmark := bookmark_recordState { c with done := true }
    unfold markDone
    simp only [Bool.false_eq_true, if_false]
    split
    next d' name hren =>
      obtain ⟨hnodup, hvariant, hmem⟩ := Document.names_renameBookmark hd hren
      have hdone : ∀ kind, ¬ IsPendingName name kind := fun kind =>
        not_isPendingName_recorded (c := { c with done := true }) hc rfl hvariant kind
      refine ⟨hkind, hrec, .inr hdone, hnodup, fun n hn => ?_⟩
      rcases hmem n hn with rfl | h
      · exact .inr hdone
      · exact .inl (hbookmark ▸ h)
    next e he =>
      refine ⟨hkind, hrec, .inl hbookmark, hd, fun n hn => .inl ⟨hn, hgone n hn ?_⟩⟩
      unfold Document.renameBookmark at he
      rw [hbookmark] at he
      split at he
      · cases he
      next h => simpa using h

end Command

end TemplateEngine
