import TemplateEngine.Process.Expansion
import TemplateEngine.Proofs.Tree

/-!
# Expanding — what one step of expansion can do

Between its steps a run is followed by names only: `Expanded` says everything that executing an override
or an insertion does to the command, to the names of the document, to the overrides and to the contents
still to be used.  What a run of steps does follows from it by induction over the list of commands.
-/

namespace TemplateEngine

/-! ### Parts of a step -/

namespace Run

/-- A part of a step that adds no name, counts no failure and touches neither overrides nor contents. -/
structure Keeps (r r' : Run) : Prop where
  names : r'.document.names.Sublist r.document.names
  failures : r'.failures = r.failures
  overrides : r'.overrides = r.overrides
  contents : r'.contents = r.contents

theorem Keeps.refl (r : Run) : r.Keeps r := ⟨List.Sublist.refl _, rfl, rfl, rfl⟩

theorem Keeps.trans {r r' r'' : Run} (h : r.Keeps r') (h' : r'.Keeps r'') : r.Keeps r'' :=
  ⟨h'.names.trans h.names, h'.failures.trans h.failures, h'.overrides.trans h.overrides,
    h'.contents.trans h.contents⟩

/-- Another document with no more names. -/
theorem Keeps.document {r : Run} {d : Document} (h : d.names.Sublist r.document.names) :
    r.Keeps { r with document := d } :=
  ⟨h, rfl, rfl, rfl⟩

theorem keeps_write (r : Run) (c : Command) (t : Text) :
    Ends (fun _ => True) (r.write c t) r.Keeps := by
  refine Ends.andThen (Document.narrows_setBookmarkText r.document c.bookmark t) fun a ha => ?_
  cases a with
  | error e => exact .refl r
  | ok d => exact .document ha

theorem names_insertAnnotation {d d' : Document} {range : TextRange} {text : String}
    (h : d.insertAnnotation range text = .ok d') : d'.names = d.names := by
  rw [← Document.addAnnotation_of_insertAnnotation h]
  rfl

theorem names_markFailure (d : Document) (c : Command) (reason : String) :
    Ends (fun _ => True) (markFailure d c reason) fun d' => d'.names.Sublist d.names := by
  refine Ends.andThen (Document.narrows_setBookmarkText d c.bookmark failureText) fun a ha => ?_
  cases a with
  | error e => exact List.Sublist.refl _
  | ok d' =>
    dsimp only
    split
    · exact ha
    next range _ =>
      cases hnote : d'.insertAnnotation range (failureNote c reason) with
      | error e => exact ha
      | ok d'' =>
        show d''.names.Sublist d.names
        exact names_insertAnnotation hnote ▸ ha

/-- A command that fails is flagged and counted. -/
theorem fail_spec (r : Run) (c : Command) (reason : String) :
    Ends (fun _ => True) (r.fail c reason) fun p =>
      ∃ d : Document, d.names.Sublist r.document.names ∧
        p = (c.setFailed true, { r with document := d }.count) :=
  Ends.andThen (names_markFailure r.document c reason) fun d hd => ⟨d, hd, rfl⟩

theorem keeps_placeCursor (r : Run) (id : Nat) : r.Keeps (r.placeCursor id) := by
  unfold placeCursor
  split
  · exact .refl r
  · exact ⟨List.Sublist.refl _, rfl, rfl, rfl⟩

theorem keeps_offerCursor (r : Run) (id : Nat) : r.Keeps (r.offerCursor id) := by
  unfold offerCursor
  split
  · exact .refl r
  · exact keeps_placeCursor r id

end Run

theorem keeps_fillPlaceholder (r : Run) (id : Nat) (argument : String) :
    Ends (fun _ => True) (fillPlaceholder r id argument) r.Keeps := by
  unfold fillPlaceholder
  split
  · exact r.keeps_offerCursor id
  · refine Ends.andThen (Document.narrows_replacePlaceholder r.document id argument.toList)
      fun a ha => ?_
    cases a with
    | error e => exact .refl r
    | ok d => exact .document ha

theorem keeps_fillEach (r : Run) (ids : List Nat) (arguments : List String) :
    Ends (fun _ => True) (fillEach r ids arguments) r.Keeps := by
  induction ids generalizing r arguments with
  | nil => exact .refl r
  | cons id ids ih =>
    cases arguments with
    | nil => exact .refl r
    | cons argument arguments =>
      refine Ends.andThen (keeps_fillPlaceholder r id argument) fun r' hr' => ?_
      exact (ih r' arguments).mono fun r'' hr'' => hr'.trans hr''

theorem keeps_settleCursor (r : Run) (jumpMark : Option String) (ids : List Nat) :
    r.Keeps (settleCursor r jumpMark ids) := by
  unfold settleCursor
  split
  · exact r.keeps_offerCursor _
  · split
    · exact .document (List.Sublist.refl _)
    · exact .refl r

theorem keeps_fillPlaceholders (policy : Policy) (jumpMark : Option String) (c : Command)
    (arguments : List String) (r : Run) :
    Ends (fun _ => True) (fillPlaceholders policy jumpMark c arguments r) r.Keeps := by
  unfold fillPlaceholders
  split
  · exact .refl r
  next range _ =>
    refine Ends.andThen (keeps_fillEach r (r.document.placeholdersWithin range.toSpan) arguments)
      fun r' hr' => ?_
    have hkeeps := hr'.trans (keeps_settleCursor r' jumpMark
      ((r.document.placeholdersWithin range.toSpan).drop arguments.length))
    dsimp only
    split
    · exact ⟨hkeeps.names, hkeeps.failures, hkeeps.overrides, hkeeps.contents⟩
    · exact hkeeps

/-! ### Whole steps -/

section Steps

variable (s : Services)

/-- The locations that executing a command of a kind may load. -/
def Loads (r : Run) : CommandKind → String → Prop
  | .insertFragment request, l => l ∈ s.locations (r.overrides.get request.id)
  | .insertContent, l => l ∈ r.contents
  | _, _ => False

/-- The names that executing a command of a kind may bring in. -/
def Imports (r : Run) (kind : CommandKind) (n : String) : Prop :=
  ∃ l content, Loads s r kind l ∧ s.load l = .ok content ∧ ∃ m ∈ content.names, Variant m n

/-- Everything that happens until a command is done: its bookmark stays, and the names that come in are
those of imported bookmarks. -/
structure Grows (kind : CommandKind) (r r' : Run) : Prop where
  distinct : r.document.names.Nodup → r'.document.names.Nodup
  names : ∀ n ∈ r'.document.names, n ∈ r.document.names ∨ Imports s r kind n
  overrides : r'.overrides = r.overrides
  contents : r'.contents <:+ r.contents

/-- What executing the command `c` does. -/
structure Expanded (c : Command) (r : Run) (c' : Command) (r' : Run) : Prop where
  kind : c'.kind = c.kind
  idle : c'.isPending = false
  isCommand : c'.config.IsCommand
  bookmark : c'.bookmark = c.bookmark ∨ ∀ kind, ¬ IsPendingName c'.bookmark kind
  distinct : r'.document.names.Nodup
  names : ∀ n ∈ r'.document.names, (n ∈ r.document.names ∧ (n = c.bookmark → c'.bookmark = n)) ∨
    Imports s r c.kind n ∨ ∀ kind, ¬ IsPendingName n kind
  overrides : r'.overrides = r.overrides ∨
    ∃ id newId, c.kind = .overrideFragment id newId ∧ r.overrides.set id newId = .ok r'.overrides
  contents : r'.contents <:+ r.contents

variable {s} {c c₁ : Command} {r r₁ : Run} {kind : CommandKind}

theorem Grows.refl (s : Services) (kind : CommandKind) (r : Run) : Grows s kind r r :=
  ⟨id, fun _ h => .inl h, rfl, List.suffix_refl _⟩

theorem Grows.keeps (h : Grows s kind r r₁) {r₂ : Run} (hk : r₁.Keeps r₂) : Grows s kind r r₂ :=
  ⟨fun hr => (h.distinct hr).sublist hk.names, fun n hn => h.names n (hk.names.subset hn),
    hk.overrides.trans h.overrides, hk.contents ▸ h.contents⟩

theorem Run.Keeps.grows (h : r.Keeps r₁) (s : Services) (kind : CommandKind) :
    Grows s kind r r₁ :=
  (Grows.refl s kind r).keeps h

/-- A command under the same bookmark and of the same kind, whatever else changed. -/
structure SameCommand (c c₁ : Command) : Prop where
  kind : c₁.kind = c.kind
  bookmark : c₁.bookmark = c.bookmark
  config : c₁.config = c.config

theorem done_markDone (c : Command) (d : Document) (remove : Bool) :
    (c.markDone d remove).1.done = true := by
  have hrec : ∀ c : Command, c.recordState.done = c.done := fun c => by
    rw [Command.recordState]
    split <;> rfl
  cases remove with
  | true =>
    simp only [Command.markDone, if_true]
    split <;> rfl
  | false =>
    simp only [Command.markDone, Bool.false_eq_true, if_false]
    split <;> exact hrec _

/-- A command that is done at the end of its step. -/
theorem Grows.finish (h : Grows s c.kind r r₁) (hc : c.config.IsCommand)
    (hr : r.document.names.Nodup) (hsame : SameCommand c c₁) (remove : Bool) :
    Expanded s c r (r₁.finish c₁ remove).1 (r₁.finish c₁ remove).2 := by
  have hc₁ : c₁.config.IsCommand := hsame.config ▸ hc
  have hexec := Command.executed_markDone hc₁ (h.distinct hr) remove
  have hbookmark := hexec.bookmark
  refine ⟨hexec.kind.trans hsame.kind, ?_, hexec.isCommand, ?_, hexec.distinct, fun n hn => ?_,
    .inl h.overrides, h.contents⟩
  · rw [Command.isPending]
    simp [show (r₁.finish c₁ remove).1.done = true from done_markDone c₁ _ remove]
  · rw [← hsame.bookmark]
    exact hbookmark
  · rcases hexec.names n hn with ⟨hold, hne⟩ | hdone
    · rw [hsame.bookmark] at hne
      exact (h.names n hold).imp (fun h => ⟨h, fun heq => absurd heq hne⟩) .inl
    · exact .inr (.inr hdone)

/-- A command that failed in its step. -/
theorem Grows.failed (h : Grows s c.kind r r₁) (hc : c.config.IsCommand)
    (hr : r.document.names.Nodup) (hsame : SameCommand c c₁) :
    Expanded s c r (c₁.setFailed true) r₁ where
  kind := hsame.kind
  idle := by simp [Command.isPending, Command.setFailed]
  isCommand := hsame.config ▸ hc
  bookmark := .inl hsame.bookmark
  distinct := h.distinct hr
  names := fun n hn => (h.names n hn).imp
    (fun h => ⟨h, fun heq => hsame.bookmark.trans heq.symm⟩) .inl
  overrides := .inl h.overrides
  contents := h.contents

theorem Grows.fail (h : Grows s c.kind r r₁) (hc : c.config.IsCommand)
    (hr : r.document.names.Nodup) (hsame : SameCommand c c₁) (reason : String) :
    Ends (fun _ => True) (r₁.fail c₁ reason) fun p => Expanded s c r p.1 p.2 := by
  refine (r₁.fail_spec c₁ reason).mono ?_
  rintro p ⟨d, hd, rfl⟩
  exact Grows.failed ⟨fun hr => (h.distinct hr).sublist hd, fun n hn => h.names n (hd.subset hn),
    h.overrides, h.contents⟩ hc hr hsame

theorem SameCommand.refl (c : Command) : SameCommand c c := ⟨rfl, rfl, rfl⟩

/-! ### Overrides -/

/-- Commands that enter overrides. -/
def CommandKind.isOverride : CommandKind → Bool
  | .overrideFragment _ _ => true
  | _ => false

/-- Commands executed in expansion and done when their marks are removed. -/
def CommandKind.isInsertion : CommandKind → Bool
  | .insertFragment _ | .insertContent => true
  | _ => false

/-- A step executes the commands of its own kinds and leaves all others alone. -/
def Executes (s : Services) (own : CommandKind → Bool) (c : Command) (r : Run)
    (p : Command × Run) : Prop :=
  own c.kind = true ∧ Expanded s c r p.1 p.2 ∨ own c.kind = false ∧ p = (c, r)

theorem executeOverride_spec (s : Services) (hc : c.config.IsCommand)
    (hr : r.document.names.Nodup) :
    Ends (fun _ => True) (executeOverride s.policy c r) (Executes s CommandKind.isOverride c r) := by
  unfold executeOverride
  split
  next id newId hkind =>
    have hown : c.kind.isOverride = true := by rw [hkind]; rfl
    split
    next overrides hset =>
      have h := Grows.finish (Grows.refl s c.kind { r with overrides }) hc hr (.refl c)
        (!s.policy.debug)
      refine .inl ⟨hown, h.kind, h.idle, h.isCommand, h.bookmark, h.distinct, fun n hn => ?_,
        .inr ⟨id, newId, hkind, hset⟩, h.contents⟩
      refine (h.names n hn).imp_right (Or.imp_left ?_)
      rintro ⟨l, _, hl, _⟩
      rw [hkind] at hl
      exact hl.elim
    · exact ((Grows.refl s c.kind r).fail hc hr (.refl c) _).mono fun p hp => .inl ⟨hown, hp⟩
  next hkind =>
    refine .inr ⟨?_, rfl⟩
    cases hk : c.kind <;> simp_all [CommandKind.isOverride]

/-! ### Insertions -/

theorem insertBetweenMarks_spec (c : Command) (r : Run) {content : Document} {l : String}
    (hl : Loads s r c.kind l) (hload : s.load l = .ok content) :
    Ends (fun _ => True) (c.insertBetweenMarks r.document content) fun p =>
      SameCommand c p.1 ∧ Grows s c.kind r { r with document := p.2.1 } := by
  unfold Command.insertBetweenMarks
  refine Ends.andThen (Document.narrows_setBookmarkText r.document c.bookmark Command.marks)
    fun a ha => ?_
  cases a with
  | error e => exact ⟨.refl c, .refl s c.kind r⟩
  | ok d =>
    have hd : Grows s c.kind r { r with document := d } := (Run.Keeps.document ha).grows s c.kind
    have hsame : SameCommand c { c with marked := true } := ⟨rfl, rfl, rfl⟩
    dsimp only
    split
    · exact ⟨hsame, hd⟩
    split
    · exact ⟨hsame, hd⟩
    refine Ends.andThen (Document.receives_insertContent d _ content) fun a ha => ?_
    cases a with
    | error e => exact ⟨hsame, hd⟩
    | ok d' =>
      refine ⟨hsame, fun hr => ha.1 (hd.distinct hr), fun n hn => ?_, rfl, List.suffix_refl _⟩
      rcases ha.2 n hn with h | h
      · exact hd.names n h
      · exact .inr ⟨l, content, hl, hload, h⟩

theorem exists_of_loadFirst {load : String → Except LoadError Document} {ls : List String}
    {content : Document} (h : loadFirst load ls = .ok content) :
    ∃ l ∈ ls, load l = .ok content := by
  induction ls with
  | nil => cases h
  | cons l ls ih =>
    unfold loadFirst at h
    split at h
    next hl => exact ⟨l, by simp, by rw [hl, Except.ok.inj h]⟩
    · split at h
      next hls =>
        obtain ⟨l', hl', hload⟩ := ih (by rw [hls, Except.ok.inj h])
        exact ⟨l', by simp [hl'], hload⟩
      · cases h

theorem exists_of_loadFragment {requested id : String} {content : Document}
    (h : loadFragment s requested id = .ok content) :
    ∃ l ∈ s.locations id, s.load l = .ok content := by
  unfold loadFragment at h
  split at h
  · cases h
  next locations hne =>
    split at h
    next hload => exact exists_of_loadFirst (by rw [hload, Except.ok.inj h])
    · cases h

theorem placeFragment_spec (request : FragmentRequest) (c : Command) (r : Run)
    {content : Document} {l : String} (hl : Loads s r c.kind l) (hload : s.load l = .ok content) :
    Ends (fun _ => True) (placeFragment request content c r) fun p =>
      SameCommand c p.1 ∧ Grows s c.kind r p.2.1 := by
  unfold placeFragment
  split
  · refine Ends.andThen (Document.narrows_setBookmarkText
      (r.document.importStyles content request.styles) c.bookmark []) fun a ha => ?_
    cases a with
    | error e =>
      have hkeeps : r.Keeps { r with document := r.document.importStyles content request.styles } :=
        .document (List.Sublist.refl _)
      exact ⟨.refl c, hkeeps.grows s c.kind⟩
    | ok d => exact ⟨.refl c, (Run.Keeps.document ha).grows s c.kind⟩
  · exact Ends.andThen (insertBetweenMarks_spec c r hl hload) fun p hp => hp

theorem failFragment_spec (h : Grows s c.kind r r₁) (hc : c.config.IsCommand)
    (hr : r.document.names.Nodup) (hsame : SameCommand c c₁) (request : FragmentRequest)
    (id : String) (e : InsertionError) :
    Ends (fun _ => True) (failFragment request id e c₁ r₁) fun p => Expanded s c r p.1 p.2 := by
  unfold failFragment
  split
  · exact Grows.failed ⟨h.distinct, h.names, h.overrides, h.contents⟩ hc hr hsame
  · exact h.fail hc hr hsame _

theorem insertFragment_spec (jumpMark : Option String) {request : FragmentRequest}
    (hkind : c.kind = .insertFragment request) (hc : c.config.IsCommand)
    (hr : r.document.names.Nodup) :
    Ends (fun _ => True) (insertFragment s jumpMark request c r) fun p =>
      Expanded s c r p.1 p.2 := by
  unfold insertFragment
  dsimp only
  split
  · exact Ends.andThen (r.keeps_write c []) fun r' hr' =>
      (hr'.grows s c.kind).finish hc hr (.refl c) false
  split
  · exact failFragment_spec (.refl s c.kind r) hc hr (.refl c) request _ _
  next content hfragment =>
    obtain ⟨l, hl, hload⟩ := exists_of_loadFragment hfragment
    have hloads : Loads s r c.kind l := by
      rw [hkind]
      exact hl
    refine Ends.andThen (placeFragment_spec request c r hloads hload) fun p hp => ?_
    obtain ⟨c', r', refusal⟩ := p
    obtain ⟨hsame, hgrows⟩ := hp
    cases refusal with
    | some refusal => exact failFragment_spec hgrows hc hr hsame request _ _
    | none =>
      dsimp only
      split
      · exact hgrows.finish hc hr hsame false
      · exact Ends.andThen (keeps_fillPlaceholders s.policy jumpMark c' request.arguments r')
          fun r'' hr'' => (hgrows.keeps hr'').finish hc hr hsame false

/-- A failed command that is done all the same. -/
theorem Expanded.finish (h : Expanded s c r c₁ r₁) (remove : Bool) :
    Expanded s c r (r₁.finish c₁ remove).1 (r₁.finish c₁ remove).2 := by
  have hexec := Command.executed_markDone h.isCommand h.distinct remove
  have hbookmark := hexec.bookmark
  refine ⟨hexec.kind.trans h.kind, ?_, hexec.isCommand, ?_, hexec.distinct, fun n hn => ?_,
    h.overrides, h.contents⟩
  · rw [Command.isPending]
    simp [show (r₁.finish c₁ remove).1.done = true from done_markDone c₁ _ remove]
  · rcases hbookmark with hb | hb
    · rw [show (r₁.finish c₁ remove).1.bookmark = c₁.bookmark from hb]
      exact h.bookmark
    · exact .inr hb
  · rcases hexec.names n hn with ⟨hold, hne⟩ | hdone
    · rcases h.names n hold with ⟨hn', heq⟩ | h'
      · exact .inl ⟨hn', fun hb => absurd (heq hb).symm hne⟩
      · exact .inr h'
    · exact .inr (.inr hdone)

theorem insertContent_spec (hkind : c.kind = .insertContent) (hc : c.config.IsCommand)
    (hr : r.document.names.Nodup) :
    Ends (fun _ => True) (insertContent s c r) fun p => Expanded s c r p.1 p.2 := by
  unfold insertContent
  split
  · exact (Grows.refl s c.kind r).finish hc hr (.refl c) false
  next location contents hcontents =>
    have hused : Grows s c.kind r { r with contents } :=
      ⟨id, fun _ h => .inl h, rfl, hcontents ▸ List.suffix_cons _ _⟩
    unfold placeContent
    split
    · refine Ends.bind ((hused.fail hc hr (.refl c) _).mono fun p hp => ?_)
      exact Expanded.finish hp false
    next content hload =>
      have hloads : Loads s r c.kind location := by
        rw [hkind]
        show location ∈ r.contents
        simp [hcontents]
      refine Ends.bind (Ends.andThen (insertBetweenMarks_spec c r hloads hload) fun p hp => ?_)
      obtain ⟨c', d', refusal⟩ := p
      obtain ⟨hsame, hgrows⟩ := hp
      have hgrows' : Grows s c.kind r { r with document := d', contents } :=
        ⟨hgrows.distinct, hgrows.names, rfl, hused.contents⟩
      cases refusal with
      | none => exact hgrows'.finish hc hr hsame false
      | some e =>
        exact (hgrows'.fail hc hr hsame _).mono fun p hp => Expanded.finish hp false

theorem executeInsert_spec (jumpMark : Option String) (hc : c.config.IsCommand)
    (hr : r.document.names.Nodup) :
    Ends (fun _ => True) (executeInsert s jumpMark c r)
      (Executes s CommandKind.isInsertion c r) := by
  unfold executeInsert
  split
  next request hkind =>
    exact (insertFragment_spec jumpMark hkind hc hr).mono fun p hp =>
      .inl ⟨by rw [hkind]; rfl, hp⟩
  next hkind =>
    exact (insertContent_spec hkind hc hr).mono fun p hp => .inl ⟨by rw [hkind]; rfl, hp⟩
  next h₁ h₂ =>
    refine .inr ⟨?_, rfl⟩
    cases hk : c.kind <;> simp_all [CommandKind.isInsertion]

end Steps

end TemplateEngine
