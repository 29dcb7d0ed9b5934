import TemplateEngine.Proofs.Enclosing
import TemplateEngine.Proofs.Inserters
import TemplateEngine.Proofs.Tree

/-!
# Tracking — the commands of a list and what lies under their bookmarks

A command is known by its bookmark's name.  Where contents have their commands apart, that is enough: the
commands of a list that insert have different bookmarks, and during expansion none of these is lost, so no
other bookmark takes its name (`Tracked`).  Each operation on the command at the head of the list keeps
that: replacing its text, putting a content between marks there, filling in the content's placeholders,
and marking the command done.  So does bringing the list up to date (`Tracked.refresh`).
-/

namespace TemplateEngine

open Document

/-! ### Lists of commands -/

/-- The bookmarks of the commands with marks. -/
def markedNames (cs : List Command) : List String := (cs.filter (·.marked)).map (·.bookmark)

/-- The bookmarks of the commands that insert. -/
def inserterNames (cs : List Command) : List String :=
  (cs.filter (·.kind.isInsertion)).map (·.bookmark)

theorem DifferAsInserters.symm {c c' : Command} (h : DifferAsInserters c c') : DifferAsInserters c' c :=
  fun hc' hc => (h hc hc').symm

theorem mem_markedNames {cs : List Command} {n : String} :
    n ∈ markedNames cs ↔ ∃ c ∈ cs, c.marked = true ∧ c.bookmark = n := by
  simp [markedNames, and_assoc]

theorem mem_inserterNames {cs : List Command} {n : String} :
    n ∈ inserterNames cs ↔ ∃ c ∈ cs, c.kind.isInsertion = true ∧ c.bookmark = n := by
  simp [inserterNames, and_assoc]

theorem markedNames_cons (c : Command) (cs : List Command) :
    markedNames (c :: cs) = if c.marked then c.bookmark :: markedNames cs else markedNames cs := by
  unfold markedNames
  rw [List.filter_cons]
  split <;> rfl

theorem Command.IsNamed.isCommandName {c : Command} (h : c.IsNamed) : IsCommandName c.bookmark := by
  obtain ⟨c₀, hc₀, -⟩ := h.name
  exact Option.isSome_iff_exists.2 ⟨c₀, hc₀⟩

/-! ### Tracked commands -/

theorem Document.Consistent.sameParts {d d' : Document} (h : d.Consistent) (hsame : SameParts d d') :
    d'.Consistent := by
  have hids := h.ids
  have hfresh := h.fresh
  rw [← hsame.fields] at hids hfresh
  rw [← hsame.nextFieldId] at hfresh
  exact ⟨h.toWellFormed.sameParts hsame, hids, hfresh⟩

/-- How the commands of a list lie in a document.  While the document is being expanded, all commands
that insert have their bookmarks. -/
structure Tracked (kept : List Text) (expanding : Prop) (cs : List Command) (d : Document) : Prop where
  layout : d.Layout kept (markedNames cs) []
  named : ∀ c ∈ cs, c.IsNamed
  inserts : ∀ c ∈ cs, c.marked = true → c.kind.isInsertion = true
  distinct : cs.Pairwise DifferAsInserters
  found : expanding → ∀ c ∈ cs, c.kind.isInsertion = true → c.bookmark ∈ d.names

namespace Tracked

variable {kept : List Text} {expanding : Prop} {c : Command} {cs cs' : List Command} {d d' : Document}

theorem perm (h : Tracked kept expanding cs d) (hp : cs.Perm cs') : Tracked kept expanding cs' d where
  layout := h.layout.relisted fun x => by simp only [mem_markedNames, hp.mem_iff]
  named c hc := h.named c (hp.mem_iff.2 hc)
  inserts c hc := h.inserts c (hp.mem_iff.2 hc)
  distinct := hp.pairwise h.distinct DifferAsInserters.symm
  found he c hc := h.found he c (hp.mem_iff.2 hc)

theorem weaken {expanding' : Prop} (h : Tracked kept expanding cs d) (himp : expanding' → expanding) :
    Tracked kept expanding' cs d :=
  { h with found := fun he => h.found (himp he) }

/-- The document changes and loses no command. -/
theorem withDocument (h : Tracked kept expanding cs d) (hlayout : d'.Layout kept (markedNames cs) [])
    (hnames : ∀ n, IsCommandName n → n ∈ d.names → n ∈ d'.names) : Tracked kept expanding cs d' :=
  { h with
    layout := hlayout
    found := fun he c hc hk => hnames _ (h.named c hc).isCommandName (h.found he c hc hk) }

/-- The document changes in what is no text, bookmark or field. -/
theorem sameLayout (h : Tracked kept expanding cs d) (hd' : d'.Consistent) (htext : d'.text = d.text)
    (hvalues : d'.values = d.values) (hfields : d'.fields = d.fields)
    (hbookmarks : d'.bookmarks = d.bookmarks) : Tracked kept expanding cs d' := by
  have hspan : ∀ n, d'.span? n = d.span? n := fun n => by
    rw [span?, span?, bookmark?, bookmark?, hbookmarks]
  refine h.withDocument (h.layout.narrowed hd' htext hvalues (hfields ▸ fun _ h => h) (fun _ h => h)
    fun n s hs => hspan n ▸ hs) fun n _ hn => ?_
  rw [names, hbookmarks]
  exact hn

/-- The document changes in its flags, styles or metadata only. -/
theorem sameParts (h : Tracked kept expanding cs d) (hsame : SameParts d d') :
    Tracked kept expanding cs d' :=
  h.sameLayout (h.layout.consistent.sameParts hsame) hsame.text hsame.values hsame.fields hsame.bookmarks

/-- What is noted about a command may change, but not its bookmark, its kind and its marks. -/
theorem withCommand {c' : Command} (h : Tracked kept expanding (c :: cs) d) (hb : c'.bookmark = c.bookmark)
    (hk : c'.kind = c.kind) (hm : c'.marked = c.marked) (hnamed : c'.IsNamed) :
    Tracked kept expanding (c' :: cs) d where
  layout := by
    have hlayout := h.layout
    rw [markedNames_cons] at hlayout ⊢
    rwa [hm, hb]
  named x hx := by
    rcases List.mem_cons.1 hx with rfl | hx
    · exact hnamed
    · exact h.named x (by simp [hx])
  inserts x hx := by
    rcases List.mem_cons.1 hx with rfl | hx
    · rw [hm, hk]
      exact h.inserts c (by simp)
    · exact h.inserts x (by simp [hx])
  distinct := by
    have hpairs := List.pairwise_cons.1 h.distinct
    refine List.pairwise_cons.2 ⟨fun x hx => ?_, hpairs.2⟩
    have hdiffer := hpairs.1 x hx
    unfold DifferAsInserters at hdiffer ⊢
    rwa [hk, hb]
  found he x hx := by
    rcases List.mem_cons.1 hx with rfl | hx
    · rw [hk, hb]
      exact h.found he c (by simp)
    · exact h.found he x (by simp [hx])

/-- No other command with marks has the bookmark of the first one. -/
theorem notMem_markedNames (h : Tracked kept expanding (c :: cs) d) : c.bookmark ∉ markedNames cs := by
  intro hmem
  obtain ⟨x, hx, hm, hb⟩ := mem_markedNames.1 hmem
  have hkind := h.inserts x (by simp [hx]) hm
  have hc := (h.named c (by simp)).isInsertion_eq (h.named x (by simp [hx])) hb.symm
  exact (List.pairwise_cons.1 h.distinct).1 x hx (hc.trans hkind) hkind hb.symm

theorem markedNames_eq (hm : c.marked = false) : markedNames (c :: cs) = markedNames cs := by
  simp [markedNames_cons, hm]

/-- Commands that do not insert have no marks. -/
theorem unmarked (h : Tracked kept expanding (c :: cs) d) (hk : c.kind.isInsertion = false) :
    c.marked = false := by
  by_contra hm
  have := h.inserts c (by simp) (by simpa using hm)
  rw [hk] at this
  cases this

/-! ### Texts -/

/-- The text of a command without marks is replaced. -/
theorem setText (h : Tracked kept expanding (c :: cs) d) (hm : c.marked = false) (t : Text) :
    Ends (fun _ => False) (c.setText d t) fun attempt => ∀ d', attempt = .ok d' →
      Tracked kept expanding (c :: cs) d' := by
  have hname := (h.named c (by simp)).isCommandName
  have hnot : c.bookmark ∉ markedNames (c :: cs) := by
    rw [markedNames_eq hm]
    exact h.notMem_markedNames
  refine (h.layout.setBookmarkText hname hnot t).mono fun attempt hattempt d' hd' => ?_
  obtain ⟨hlayout, hnames⟩ := hattempt d' hd'
  exact h.withDocument hlayout hnames

theorem fail {r : Run} (h : Tracked kept expanding (c :: cs) r.document) (hm : c.marked = false)
    (reason : String) : Ends (fun _ => False) (r.fail c reason) fun p =>
      Tracked kept expanding (p.1 :: cs) p.2.document := by
  have hmark : Ends (fun _ => False) (markFailure r.document c reason)
      (Tracked kept expanding (c :: cs)) := by
    refine Ends.andThen (h.setText hm failureText) fun attempt hattempt => ?_
    cases attempt with
    | error e => exact h
    | ok d' =>
      have hd' := hattempt d' rfl
      have hcons := hd'.layout.consistent
      dsimp only
      split
      · exact hd'
      next range hrange =>
        cases hnote : d'.insertAnnotation range (failureNote c reason) with
        | error e => exact hd'
        | ok d'' =>
          obtain rfl := addAnnotation_of_insertAnnotation hnote
          exact hd'.sameLayout ⟨wellFormed_annotated hcons.toWellFormed _
            (Run.fits_range? hcons.toWellFormed hrange), hcons.ids, hcons.fresh⟩ rfl rfl rfl rfl
  refine Ends.andThen hmark fun d' hd' => ?_
  exact hd'.withCommand rfl rfl rfl ((hd'.named c (by simp)).of_eq rfl rfl rfl)

/-! ### Commands that are done -/

/-- The bookmark of the first command goes. -/
theorem removed (h : Tracked kept expanding (c :: cs) d) (hk : c.kind.isInsertion = false)
    (hremove : d.removeBookmark c.bookmark = .ok d') : Tracked kept expanding (c :: cs) d' := by
  have hnames := names_removeBookmark hremove
  have hsame := differInBookmarks_removeBookmark hremove
  have hcons := h.layout.consistent
  refine ⟨h.layout.narrowed ?_ hsame.text hsame.values (hsame.fields ▸ fun _ h => h) (fun _ h => h)
    fun n s hs => span?_of_span?_removeBookmark hremove hs, h.named, h.inserts, h.distinct,
    fun he x hx hxk => ?_⟩
  · exact hcons.withBookmarks hsame (wellFormed_removeBookmark hcons.toWellFormed hremove)
  · rw [hnames, List.mem_filter]
    refine ⟨h.found he x hx hxk, ?_⟩
    have hne : x.bookmark ≠ c.bookmark := fun heq => by
      rw [(h.named x hx).isInsertion_eq (h.named c (by simp)) heq, hk] at hxk
      cases hxk
    simpa using hne

section Renamed

variable {unique : String} (h : Tracked kept expanding (c :: cs) d) (hdone : c.done = true)
  (hk : c.kind.isInsertion = true → expanding)
  (hrename : d.renameBookmark c.bookmark (toString c.recordState.config) = .ok (d', unique))

include h hdone hrename

theorem isNamed_renamed : Command.IsNamed { c.recordState with bookmark := unique } :=
  (h.named c (by simp)).recorded hdone (names_renameBookmark h.layout.consistent.names hrename).2.1

include hk

/-- No other command of the list that inserts has the new name. -/
theorem bookmark_ne_renamed {x : Command} (hx : x ∈ cs) (hxk : x.kind.isInsertion = true) :
    x.bookmark ≠ unique := by
  intro heq
  have hck : c.kind.isInsertion = true := by
    rw [← Command.kind_recordState c]
    exact ((h.isNamed_renamed hdone hrename).isInsertion_eq (h.named x (by simp [hx])) heq.symm).trans hxk
  have hne := ((List.pairwise_cons.1 h.distinct).1 x hx hck hxk).symm
  exact ((span?_renameBookmark hrename).2 x.bookmark (h.found (hk hck) x (by simp [hx]) hxk) hne).2 heq

/-- The commands with marks are those that were, under their names. -/
theorem mem_markedNames_renamed {n : String} (hn : n ∈ d'.names) :
    n ∈ markedNames ({ c.recordState with bookmark := unique } :: cs) ↔
      originOf c.bookmark unique n ∈ markedNames (c :: cs) := by
  have hmarked : unique ∉ markedNames cs := fun hmem => by
    obtain ⟨x, hx, hm, hb⟩ := mem_markedNames.1 hmem
    exact h.bookmark_ne_renamed hdone hk hrename hx (h.inserts x (by simp [hx]) hm) hb
  rw [markedNames_cons, markedNames_cons, Command.marked_recordState]
  rcases eq_or_ne n unique with rfl | hne
  · rw [originOf_new]
    cases c.marked <;> simp [hmarked, h.notMem_markedNames]
  · have hold : n ≠ c.bookmark :=
      (((names_renameBookmark h.layout.consistent.names hrename).2.2 n hn).resolve_left hne).2
    rw [originOf_of_ne hne]
    cases c.marked <;> simp [hne, hold]

/-- The bookmark of the first command gets a name that tells the command's state.  Of commands that
insert, only those that are there are renamed. -/
theorem renamed : Tracked kept expanding ({ c.recordState with bookmark := unique } :: cs) d' := by
  have hcons := h.layout.consistent
  have hc := h.named c (by simp)
  have hnamed := h.isNamed_renamed hdone hrename
  obtain ⟨hown, hothers⟩ := span?_renameBookmark hrename
  have hsame := differInBookmarks_renameBookmark hrename
  refine ⟨?_, fun x hx => ?_, fun x hx hm => ?_, ?_, fun he x hx hxk => ?_⟩
  · refine h.layout.transport (originOf c.bookmark unique) ?_ hsame.text hsame.values
      (hsame.fields ▸ fun _ h => h) (fun _ h => h) (fun _ _ => span?_originOf hcons.names hrename)
      (fun _ _ => hc.isCommandName.originOf unique)
      (fun _ hm _ hn => originOf_ne_originOf hcons.names hrename hm hn)
      (fun n hn => h.mem_markedNames_renamed hdone hk hrename hn) fun n hn => ?_
    · exact hcons.withBookmarks hsame (wellFormed_renameBookmark hcons.toWellFormed hrename)
    · obtain ⟨x, hx, -, rfl⟩ := mem_markedNames.1 hn
      rcases List.mem_cons.1 hx with rfl | hx
      · exact hnamed.isCommandName
      · exact (h.named x (by simp [hx])).isCommandName
  · rcases List.mem_cons.1 hx with rfl | hx
    · exact hnamed
    · exact h.named x (by simp [hx])
  · rcases List.mem_cons.1 hx with rfl | hx
    · show c.recordState.kind.isInsertion = true
      rw [Command.kind_recordState]
      refine h.inserts c (by simp) ?_
      rwa [← Command.marked_recordState]
    · exact h.inserts x (by simp [hx]) hm
  · refine List.pairwise_cons.2 ⟨fun x hx _ hxk heq => ?_, (List.pairwise_cons.1 h.distinct).2⟩
    exact h.bookmark_ne_renamed hdone hk hrename hx hxk heq.symm
  · have hspan : ∀ n, n ∈ d.names → n ≠ c.bookmark → n ∈ d'.names := fun n hn hne => by
      rwa [← isSome_span?_iff, (hothers n hn hne).1, isSome_span?_iff]
    rcases List.mem_cons.1 hx with rfl | hx
    · have hmem := h.found he c (by simp) (by rwa [← Command.kind_recordState])
      show unique ∈ d'.names
      rwa [← isSome_span?_iff, hown, isSome_span?_iff]
    · refine hspan _ (h.found he x (by simp [hx]) hxk) fun heq => ?_
      have hck := (h.named c (by simp)).isInsertion_eq (h.named x (by simp [hx])) heq.symm
      exact (List.pairwise_cons.1 h.distinct).1 x hx (hck.trans hxk) hxk heq.symm

end Renamed

/-- The first command is done.  A command that inserts keeps its bookmark. -/
theorem markDone (h : Tracked kept expanding (c :: cs) d) (remove : Bool)
    (hremove : remove = true → c.kind.isInsertion = false)
    (hk : c.kind.isInsertion = true → expanding) :
    Tracked kept expanding ((c.markDone d remove).1 :: cs) (c.markDone d remove).2 := by
  have hdone : Tracked kept expanding ({ c with done := true } :: cs) d :=
    h.withCommand rfl rfl rfl ((h.named c (by simp)).of_eq rfl rfl rfl)
  unfold Command.markDone
  cases remove with
  | true =>
    simp only [if_true]
    split
    next d' hd' => exact hdone.removed (hremove rfl) hd'
    · exact hdone
  | false =>
    simp only [Bool.false_eq_true, if_false]
    split
    next d' unique hd' =>
      rw [Command.bookmark_recordState] at hd'
      exact hdone.renamed rfl hk hd'
    · exact hdone.withCommand (Command.bookmark_recordState _) (Command.kind_recordState _)
        (Command.marked_recordState _) (hdone.named _ (by simp)).recordState

/-- A command that inserts nothing is done. -/
theorem finish {r : Run} (h : Tracked kept expanding (c :: cs) r.document)
    (hk : c.kind.isInsertion = false) (remove : Bool) :
    Tracked kept expanding ((r.finish c remove).1 :: cs) (r.finish c remove).2.document :=
  h.markDone remove (fun _ => hk) fun hk' => by
    rw [hk] at hk'
    cases hk'

/-- A command that inserts is done and keeps its bookmark. -/
theorem finishInsertion {r : Run} (h : Tracked kept True (c :: cs) r.document) :
    Tracked kept True ((r.finish c false).1 :: cs) (r.finish c false).2.document :=
  h.markDone false (fun h => by cases h) fun _ => trivial

/-! ### Contents -/

theorem markedNames_subset (h : Tracked kept expanding cs d) : markedNames cs ⊆ inserterNames cs := by
  intro n hn
  obtain ⟨x, hx, hm, rfl⟩ := mem_markedNames.1 hn
  exact mem_inserterNames.2 ⟨x, hx, h.inserts x hx hm, rfl⟩

/-- Whether the placeholders in the bookmark of a command can be filled in without losing a command of the
list that inserts. -/
def Fillable (kept : List Text) (cs : List Command) (c : Command) (d : Document) : Prop :=
  ∀ r, d.span? c.bookmark = some r → d.Layout kept (markedNames cs) (d.placeholdersWithin r) ∧
    d.FillsBeside (inserterNames cs) (d.placeholdersWithin r)

/-- A content between marks in the place of a command of the list: how the commands lie then, and beside
which of them the content's placeholders can be filled in. -/
theorem exists_withContent {content : Document} (h : Tracked kept True (c :: cs) d)
    (hk : c.kind.isInsertion = true) (hm : c.marked = false) (hcontent : content.WellFormed)
    (hapart : content.CommandsApart) :
    ∃ a m z, d.text = a ++ m ++ z ∧ d.span? c.bookmark = some (a.stretch m) ∧
      c.insertBetweenMarks d content =
        .ok ({ c with marked := true }, d.withContent a m z c.bookmark content, none) ∧
      (∀ n, IsCommandName n → n ∈ d.names → n ∈ (d.withContent a m z c.bookmark content).names) ∧
      (d.withContent a m z c.bookmark content).Layout kept
        (markedNames ({ c with marked := true } :: cs)) [] ∧
      ∀ names, (∀ n ∈ names, IsCommandName n ∧ n ∈ d.names) → ∀ r,
        (d.withContent a m z c.bookmark content).span? c.bookmark = some r →
        (d.withContent a m z c.bookmark content).Layout kept
            (markedNames ({ c with marked := true } :: cs))
            ((d.withContent a m z c.bookmark content).placeholdersWithin r) ∧
          (d.withContent a m z c.bookmark content).FillsBeside names
            ((d.withContent a m z c.bookmark content).placeholdersWithin r) := by
  have hname := (h.named c (by simp)).isCommandName
  have hcons := h.layout.consistent
  obtain ⟨span, hspan⟩ := Option.isSome_iff_exists.1
    (isSome_span?_iff.2 (h.found trivial c (by simp) hk))
  obtain ⟨a, m, z, htext, rfl, hinsert⟩ := insertBetweenMarks_eq hcons.toWellFormed hspan content
  have hnot : c.bookmark ∉ markedNames (c :: cs) := by
    rw [markedNames_eq hm]
    exact h.notMem_markedNames
  have hmarks : ∀ y ∈ markedNames (c :: cs), y ∈ d.names := fun y hy => by
    obtain ⟨x, hx, hxk, rfl⟩ := mem_inserterNames.1 (h.markedNames_subset hy)
    exact h.found trivial x hx hxk
  obtain ⟨hlayout, hnames, region, hregion, havoids⟩ :=
    h.layout.withContent hname hnot hmarks hcontent hapart htext hspan
  have hsingle : d.Arranged [c.bookmark] := ⟨by simp, by simp [hspan], by simp⟩
  have hyield := (withContent_spec hcons hcontent htext hspan hsingle).2.2
  have hlist : markedNames ({ c with marked := true } :: cs) = c.bookmark :: markedNames (c :: cs) := by
    rw [markedNames_cons, markedNames_eq hm]
    rfl
  refine ⟨a, m, z, htext, hspan, hinsert, hnames, hlist ▸ hlayout, fun names hall r hr => ?_⟩
  obtain rfl := Option.some.inj (hregion.symm.trans hr)
  rw [hlist]
  refine hlayout.fillsBeside hregion hyield (fun n hn => ?_) fun n hn hne t ht => ?_
  · exact hnames n (hall n hn).1 (hall n hn).2
  · exact havoids n (hall n hn).1 (hall n hn).2 hne t ht

/-- A content is put between marks in the place of a command. -/
theorem insertBetweenMarks {content : Document} (h : Tracked kept True (c :: cs) d)
    (hk : c.kind.isInsertion = true) (hm : c.marked = false) (hcontent : content.WellFormed)
    (hapart : content.CommandsApart) :
    ∃ d', c.insertBetweenMarks d content = .ok ({ c with marked := true }, d', none) ∧
      Tracked kept True ({ c with marked := true } :: cs) d' ∧
      Fillable kept ({ c with marked := true } :: cs) { c with marked := true } d' := by
  have hname := (h.named c (by simp)).isCommandName
  obtain ⟨a, m, z, -, -, hinsert, hnames, hlayout, hfill⟩ :=
    h.exists_withContent hk hm hcontent hapart
  refine ⟨_, hinsert, ⟨hlayout, fun x hx => ?_, fun x hx hxm => ?_, ?_, fun _ x hx hxk => ?_⟩,
    hfill _ fun n hn => ?_⟩
  · rcases List.mem_cons.1 hx with rfl | hx
    · exact (h.named c (by simp)).of_eq rfl rfl rfl
    · exact h.named x (by simp [hx])
  · rcases List.mem_cons.1 hx with rfl | hx
    · exact hk
    · exact h.inserts x (by simp [hx]) hxm
  · have hpairs := List.pairwise_cons.1 h.distinct
    exact List.pairwise_cons.2 ⟨fun x hx => hpairs.1 x hx, hpairs.2⟩
  · rcases List.mem_cons.1 hx with rfl | hx
    · exact hnames _ hname (h.found trivial c (by simp) hk)
    · exact hnames _ (h.named x (by simp [hx])).isCommandName (h.found trivial x (by simp [hx]) hxk)
  · obtain ⟨x, hx, hxk, rfl⟩ := mem_inserterNames.1 hn
    rcases List.mem_cons.1 hx with rfl | hx
    · exact ⟨hname, h.found trivial c (by simp) hk⟩
    · exact ⟨(h.named x (by simp [hx])).isCommandName, h.found trivial x (by simp [hx]) hxk⟩

/-- Filling in the placeholders of a content keeps something from which the commands of the list are tracked. -/
theorem exists_keptByFilling (h : Tracked kept True (c :: cs) d) (hfill : Fillable kept (c :: cs) c d)
    {range : TextRange} (hrange : c.range? d = some range) :
    ∃ I : Document → Prop, I d ∧ KeptByFilling (d.placeholdersWithin range.toSpan) I ∧
      ∀ d', I d' → Tracked kept True (c :: cs) d' := by
  obtain ⟨b, hb, rfl⟩ := Option.map_eq_some_iff.1 hrange
  have hspan : d.span? c.bookmark = some b.span := by rw [span?, hb]; rfl
  refine ⟨fun d' => d'.Layout kept (markedNames (c :: cs)) (d.placeholdersWithin b.span) ∧
    d'.FillsBeside (inserterNames (c :: cs)) (d.placeholdersWithin b.span), hfill b.span hspan,
    keptByFilling_layout h.markedNames_subset, ?_⟩
  rintro d' ⟨hlayout, hbeside⟩
  refine { h with layout := ?_, found := fun _ x hx hxk => ?_ }
  · exact hlayout.narrowed hlayout.consistent rfl rfl (fun _ h => h) (List.nil_subset _) fun _ _ h => h
  · obtain ⟨span, hspan, -⟩ := hbeside x.bookmark (mem_inserterNames.2 ⟨x, hx, hxk, rfl⟩)
    exact isSome_span?_iff.1 (Option.isSome_iff_exists.2 ⟨span, hspan⟩)

/-- Filling in the placeholders of a content loses no command of the list. -/
theorem fillPlaceholders {r : Run} (h : Tracked kept True (c :: cs) r.document)
    (hfill : Fillable kept (c :: cs) c r.document) (policy : Policy) (jumpMark : Option String)
    (arguments : List String) :
    Ends (fun _ => False) (fillPlaceholders policy jumpMark c arguments r) fun r' =>
      Tracked kept True (c :: cs) r'.document := by
  cases hrange : c.range? r.document with
  | none =>
    unfold TemplateEngine.fillPlaceholders
    rw [hrange]
    exact h
  | some range =>
    obtain ⟨I, hstart, hkept, htracked⟩ := h.exists_keptByFilling hfill hrange
    refine (KeptByFilling.fillPlaceholders hstart ?_ policy jumpMark arguments).mono fun r' hr' => htracked _ hr'
    intro range' hrange'
    obtain rfl := Option.some.inj (hrange.symm.trans hrange')
    exact hkept

/-! ### Lists brought up to date -/

/-- A document whose commands are apart, before any of them is listed. -/
theorem nil (hd : d.Consistent) (hapart : d.CommandsApart) (hframed : Framed kept d.text (d.Pinned []))
    (hstill : kept = [[], []] ∨ d.values = .empty) : Tracked kept True [] d where
  layout :=
    { consistent := hd
      named := by simp [markedNames]
      enclosed := by simp [markedNames]
      commands := by
        intro m n hm hn hne s t hs ht
        obtain ⟨b, hb, rfl⟩ := Option.map_eq_some_iff.1 hs
        obtain ⟨c, hc, rfl⟩ := Option.map_eq_some_iff.1 ht
        have hbn : b.name = m := by simpa using List.find?_some hb
        have hcn : c.name = n := by simpa using List.find?_some hc
        exact .inl (hapart.forall (List.mem_of_find?_eq_some hb) (List.mem_of_find?_eq_some hc)
          (fun heq => hne (by rw [← hbn, ← hcn, heq])) (hbn ▸ hm) (hcn ▸ hn))
      fields := by simp [markedNames]
      framed := hframed
      still := hstill }
  named := by simp
  inserts := by simp
  distinct := .nil
  found := by simp

/-- A list brought up to date with a document in which no command was lost. -/
theorem refresh (h : Tracked kept True cs d) : Tracked kept True (Command.refresh d cs).1 d := by
  let new := (Command.unknownNames d (Command.surviving d cs)).filterMap Command.ofBookmark?
  have hnew : ∀ x ∈ new, x.bookmark ∈ Command.unknownNames d (Command.surviving d cs) ∧
      Command.ofBookmark? x.bookmark = some x := by
    intro x hx
    obtain ⟨n, hn, hnx⟩ := List.mem_filterMap.1 hx
    rw [Command.bookmark_of_ofBookmark? hnx]
    exact ⟨hn, hnx⟩
  suffices hlist : Tracked kept True (new ++ Command.surviving d cs) d from
    hlist.perm (Command.perm_discover _).symm
  refine ⟨h.layout.relisted fun x => ?_, fun x hx => ?_, fun x hx hm => ?_, ?_, fun _ x hx hk => ?_⟩
  · rw [mem_markedNames, mem_markedNames]
    constructor
    · rintro ⟨y, hy, hm, rfl⟩
      rcases List.mem_append.1 hy with hy | hy
      · rw [Command.marked_of_ofBookmark? (hnew y hy).2] at hm
        cases hm
      · exact ⟨y, (Command.mem_surviving.1 hy).1, hm, rfl⟩
    · rintro ⟨y, hy, hm, rfl⟩
      refine ⟨y, List.mem_append_right _ (Command.mem_surviving.2 ⟨hy, ?_⟩), hm, rfl⟩
      exact h.found trivial y hy (h.inserts y hy hm)
  · rcases List.mem_append.1 hx with hx | hx
    · exact Command.isNamed_of_ofBookmark? (hnew x hx).2
    · exact h.named x (Command.mem_surviving.1 hx).1
  · rcases List.mem_append.1 hx with hx | hx
    · rw [Command.marked_of_ofBookmark? (hnew x hx).2] at hm
      cases hm
    · exact h.inserts x (Command.mem_surviving.1 hx).1 hm
  · refine List.pairwise_append.2 ⟨?_, h.distinct.sublist List.filter_sublist, fun x hx y hy _ _ => ?_⟩
    · have hnodup : (Command.unknownNames d (Command.surviving d cs)).Nodup :=
        List.Nodup.filter _ (((List.mergeSort_perm _ _).map _).nodup_iff.2 h.layout.consistent.names)
      refine List.Pairwise.filterMap _ (fun m n hne x hx y hy _ _ => ?_) hnodup
      rwa [Command.bookmark_of_ofBookmark? hx, Command.bookmark_of_ofBookmark? hy]
    · exact ((Command.mem_unknownNames.1 (hnew x hx).1).2 y hy).symm
  · rcases List.mem_append.1 hx with hx | hx
    · exact (Command.mem_unknownNames.1 (hnew x hx).1).1
    · exact (Command.mem_surviving.1 hx).2

end Tracked

end TemplateEngine
