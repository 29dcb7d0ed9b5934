import TemplateEngine.Proofs.Chronicle
import TemplateEngine.Proofs.Intact
import TemplateEngine.Proofs.Parallel

/-!
# Sightings — the marks at every moment of a run

Until the marks are removed a run goes from one command to the next, phase by phase and round by round
(`Model.Passes`).  What the documents are like while a command is executed, the chronicle tells.  Together these are
the moments of a run (`Model.Shows`), and nothing that the chronicle tells is missed
(`Model.showsOnly_tellUntilCleanup`).  Where the commands are apart, each step keeps them tracked, so the marks of all
commands are where they were put at every moment (`marksHeld_shows`).
-/

namespace TemplateEngine

open Document Told

/-! ### What is told while a command is executed -/

namespace Event

/-- The document that an event shows. -/
def document? : Event → Option Document
  | .stood d | .inserted d _ _ | .offered d _ => some d
  | .placed _ | .jumped => none

/-- The command that is executed, behind an event: it has marks once its fragment is inserted. -/
def command (c : Command) : Event → Command
  | .inserted _ c' _ => c'
  | _ => c

end Event

/-- The documents that are shown while a command is executed, each with the command as it is by then. -/
def sightings (c : Command) : List Event → List (Command × Document)
  | [] => []
  | e :: log => (e.document?.map (e.command c, ·)).toList ++ sightings (e.command c) log

theorem sightings_append (c : Command) (log log' : List Event) :
    sightings c (log ++ log') = sightings c log ++ sightings (log.foldl Event.command c) log' := by
  induction log generalizing c with
  | nil => rfl
  | cons e log ih => rw [List.cons_append, sightings, sightings, ih, List.append_assoc, List.foldl_cons]

theorem exists_sighting {log : List Event} {e : Event} (he : e ∈ log) {d : Document} (hd : e.document? = some d)
    (c : Command) : ∃ c', (c', d) ∈ sightings c log := by
  induction log generalizing c with
  | nil => cases he
  | cons e' log ih =>
    rcases List.mem_cons.1 he with rfl | he
    · exact ⟨e.command c, List.mem_append_left _ (by simp [hd])⟩
    · obtain ⟨c', hc'⟩ := ih he (e'.command c)
      exact ⟨c', List.mem_append_right _ hc'⟩

namespace Told

/-- Whether a computation ends, with the command and a result as `Q` has them, and shows only documents that `E` has
with the command as it is by then. -/
structure Keeps {α : Type} (E : Command → Document → Prop) (c : Command) (x : Told α) (Q : Command → α → Prop) :
    Prop where
  shown : ∀ p ∈ sightings c x.events, E p.1 p.2
  ends : Ends (fun _ => False) x.result (Q (x.events.foldl Event.command c))

namespace Keeps

variable {α β : Type} {E : Command → Document → Prop} {c : Command}

theorem pure {a : α} {Q : Command → α → Prop} (h : Q c a) : Keeps E c (Pure.pure a) Q :=
  ⟨fun _ hp => (nomatch hp), h⟩

theorem tell {e : Event} {Q : Command → Unit → Prop} (hE : ∀ d, e.document? = some d → E (e.command c) d)
    (h : Q (e.command c) ()) : Keeps E c (tell e) Q := by
  refine ⟨fun p hp => ?_, h⟩
  rw [Told.tell, sightings, sightings, List.append_nil] at hp
  obtain ⟨d, hd, rfl⟩ := Option.map_eq_some_iff.1 (Option.mem_toList.1 hp)
  exact hE d hd

theorem seen {document : α → Document} {x : Except Fault α} {Q : Command → α → Prop}
    (h : Ends (fun _ => False) x fun a => E c (document a) ∧ Q c a) : Keeps E c (seen document x) Q := by
  obtain ⟨a, rfl, hE, hQ⟩ := h.exists_ok
  exact ⟨fun p hp => List.mem_singleton.1 hp ▸ hE, hQ⟩

theorem attempted {x : Attempt} {Q : Command → Except Refusal Document → Prop}
    (h : Ends (fun _ => False) x fun a => (∀ d, a = .ok d → E c d) ∧ Q c a) : Keeps E c (attempted x) Q := by
  obtain ⟨a, rfl, hE, hQ⟩ := h.exists_ok
  cases a with
  | error e => exact ⟨fun _ hp => (nomatch hp), hQ⟩
  | ok d => exact ⟨fun p hp => List.mem_singleton.1 hp ▸ hE d rfl, hQ⟩

theorem mono {x : Told α} {P Q : Command → α → Prop} (h : Keeps E c x P) (hPQ : ∀ c a, P c a → Q c a) :
    Keeps E c x Q :=
  ⟨h.shown, h.ends.mono (hPQ _)⟩

theorem andThen {x : Told α} {f : α → Told β} {P : Command → α → Prop} {Q : Command → β → Prop}
    (h : Keeps E c x P) (hf : ∀ c a, P c a → Keeps E c (f a) Q) : Keeps E c (x >>= f) Q := by
  obtain ⟨events, result⟩ := x
  cases result with
  | error e => exact h.ends.elim
  | ok a =>
    have hrest := hf _ a h.ends
    refine ⟨fun p hp => ?_, ?_⟩
    · have hp : p ∈ sightings c (events ++ (f a).events) := hp
      rw [sightings_append] at hp
      exact (List.mem_append.1 hp).elim (h.shown p) (hrest.shown p)
    · show Ends _ (f a).result (Q ((events ++ (f a).events).foldl Event.command c))
      rw [List.foldl_append]
      exact hrest.ends

/-- A fold keeps what each of its steps keeps. -/
theorem foldlM {f : α → β → Told α} {I : Command → α → Prop} {bs : List β} {a : α} (ha : I c a)
    (h : ∀ c a b, I c a → Keeps E c (f a b) I) : Keeps E c (bs.foldlM f a) I := by
  induction bs generalizing a c with
  | nil => exact pure ha
  | cons b bs ih =>
    rw [List.foldlM_cons]
    exact andThen (h c a b ha) fun c a ha => ih ha

end Keeps

end Told

/-! ### Placeholders -/

namespace KeptByFilling

variable {all : List Nat} {I : Document → Prop} {E : Command → Document → Prop} {c : Command} {r : Run}

theorem tellOffer (h : KeptByFilling all I) (hE : ∀ d, I d → E c d) (hr : I r.document) (id : Nat) :
    Keeps E c (r.tellOffer id) fun c' r' => c' = c ∧ I r'.document := by
  unfold Run.tellOffer
  refine .andThen (P := fun c' _ => c' = c) (.tell (fun d hd => ?_) rfl) ?_
  · obtain rfl := Option.some.inj hd
    exact hE _ hr
  rintro c _ rfl
  split
  · exact .pure ⟨rfl, hr⟩
  unfold Run.tellPlace
  split
  · exact .pure ⟨rfl, hr⟩
  next range hrange =>
    have hset := h.setCursor_field hr hrange
    refine .andThen (P := fun c' _ => c' = c) (.tell (fun d hd => nomatch hd) rfl) ?_
    rintro c _ rfl
    refine .andThen (P := fun c' _ => c' = c) (.tell (fun d hd => ?_) rfl) ?_
    · obtain rfl := Option.some.inj hd
      exact hE _ hset
    · rintro c _ rfl
      exact .pure ⟨rfl, hset⟩

theorem tellFill (h : KeptByFilling all I) (hE : ∀ d, I d → E c d) (hr : I r.document) {id : Nat} (hid : id ∈ all)
    (argument : String) : Keeps E c (tellFill r id argument) fun c' r' => c' = c ∧ I r'.document := by
  unfold TemplateEngine.tellFill
  split
  · exact h.tellOffer hE hr id
  next hargument =>
    have hsome : argument.toList ≠ [] := by simpa using hargument
    refine .andThen (P := fun c' a => c' = c ∧ ∀ d, a = .ok d → I d)
      (.attempted ((h.replacePlaceholder hr hid _ hsome).mono fun a ha => ⟨fun d hd => hE d (ha d hd), rfl, ha⟩)) ?_
    rintro c a ⟨rfl, ha⟩
    cases a with
    | error e => exact .pure ⟨rfl, hr⟩
    | ok d => exact .pure ⟨rfl, ha d rfl⟩

theorem tellFillEach (h : KeptByFilling all I) (hE : ∀ d, I d → E c d) (hr : I r.document) {ids : List Nat}
    (hids : ids ⊆ all) (arguments : List String) :
    Keeps E c (tellFillEach r ids arguments) fun c' r' => c' = c ∧ I r'.document := by
  induction ids generalizing r arguments with
  | nil => exact .pure ⟨rfl, hr⟩
  | cons id ids ih =>
    cases arguments with
    | nil => exact .pure ⟨rfl, hr⟩
    | cons argument arguments =>
      refine .andThen (h.tellFill hE hr (hids (by simp)) argument) ?_
      rintro c r' ⟨rfl, hr'⟩
      exact ih hr' (fun i hi => hids (by simp [hi])) arguments

theorem tellSettle (h : KeptByFilling all I) (hE : ∀ d, I d → E c d) (hr : I r.document) (jumpMark : Option String)
    (ids : List Nat) : Keeps E c (tellSettle r jumpMark ids) fun c' r' => c' = c ∧ I r'.document := by
  unfold TemplateEngine.tellSettle
  split
  · exact h.tellOffer hE hr _
  split
  next range hrange =>
    have hset := h.setCursor_jumpMark hr hrange
    refine .andThen (P := fun c' _ => c' = c) (.tell (fun d hd => nomatch hd) rfl) ?_
    rintro c _ rfl
    refine .andThen (P := fun c' _ => c' = c) (.tell (fun d hd => ?_) rfl) ?_
    · obtain rfl := Option.some.inj hd
      exact hE _ hset
    · rintro c _ rfl
      exact .pure ⟨rfl, hset⟩
  · exact .pure ⟨rfl, hr⟩

/-- Filling the placeholders of a fragment that `c` inserted. -/
theorem tellFillPlaceholders {c₀ : Command} (hE : ∀ d, I d → E c d) (hr : I r.document)
    (h : ∀ range, c.range? r.document = some range →
      KeptByFilling (r.document.placeholdersWithin range.toSpan) I)
    (policy : Policy) (jumpMark : Option String) (arguments : List String) :
    Keeps E c₀ (tellFillPlaceholders policy jumpMark c arguments r) fun c' r' => c' = c ∧ I r'.document := by
  unfold TemplateEngine.tellFillPlaceholders
  refine .andThen (P := fun c' _ => c' = c) (.tell (fun d hd => ?_) rfl) ?_
  · obtain rfl := Option.some.inj hd
    exact hE _ hr
  rintro c _ rfl
  split
  · exact .pure ⟨rfl, hr⟩
  next range hrange =>
    refine .andThen ((h range hrange).tellFillEach hE hr (fun _ h => h) arguments) ?_
    rintro c r' ⟨rfl, hr'⟩
    refine .andThen ((h range hrange).tellSettle hE hr' jumpMark _) ?_
    rintro c r'' ⟨rfl, hr''⟩
    split
    · exact .pure ⟨rfl, hr''⟩
    · exact .pure ⟨rfl, hr''⟩

end KeptByFilling

/-! ### Marks of a list -/

/-- Whether a command inserts and has marks only if another one with its bookmark does. -/
def Command.MarkedUnder (c c' : Command) : Prop :=
  c.kind.isInsertion = true → c'.kind.isInsertion = true ∧ c'.bookmark = c.bookmark ∧ (c.marked = true → c'.marked = true)

theorem Command.MarkedUnder.enclosed? {c c' : Command} (h : c.MarkedUnder c') {d : Document} {r : TextRange}
    (hr : c.enclosed? d = some r) : c'.enclosed? d = some r := by
  obtain ⟨hk, hm, span, hspan, rfl⟩ := exists_of_enclosed? hr
  obtain ⟨hk', hb, hm'⟩ := h hk
  unfold Command.enclosed?
  rw [if_pos (by simp [hk', hm' hm]), c'.range?_eq, hb, hspan]
  rfl

namespace MarksHeld

variable {c c' : Command} {cs cs' rest : List Command} {d : Document}

theorem perm (h : MarksHeld d cs) (hp : cs.Perm cs') : MarksHeld d cs' where
  distinct := hp.pairwise h.distinct DifferAsInserters.symm
  enclosed c hc := h.enclosed c (hp.mem_iff.2 hc)
  apart := (hp.flatMap_right _).nodup_iff.1 h.apart

/-- The first command is taken with fewer marks. -/
theorem under (h : MarksHeld d (c' :: rest)) (hc : c.MarkedUnder c') : MarksHeld d (c :: rest) where
  distinct := by
    obtain ⟨hfirst, hrest⟩ := List.pairwise_cons.1 h.distinct
    refine List.pairwise_cons.2 ⟨fun x hx hk hxk => ?_, hrest⟩
    obtain ⟨hk', hb, -⟩ := hc hk
    exact hb ▸ hfirst x hx hk' hxk
  enclosed x hx r hr := by
    rcases List.mem_cons.1 hx with rfl | hx
    · exact h.enclosed c' (by simp) r (hc.enclosed? hr)
    · exact h.enclosed x (by simp [hx]) r hr
  apart := by
    have hsub : (c.markBytes d).Sublist (c'.markBytes d) := by
      unfold Command.markBytes
      cases hr : c.enclosed? d with
      | none => exact List.nil_sublist _
      | some r => rw [hc.enclosed? hr]
    exact h.apart.sublist (hsub.append (List.Sublist.refl _))

end MarksHeld

/-! ### Executing one command -/

section Executing

variable {kept : List Text} {s : Services} {c : Command} {rest : List Command} {r : Run}

/-- Whether the marks of a command and of the others are where they were put. -/
def HeldBeside (rest : List Command) (c : Command) (d : Document) : Prop := MarksHeld d (c :: rest)

/-- An operation of which only the end is told. -/
theorem keeps_seenRun {x : Except Fault (Command × Run)}
    (h : Ends (fun _ => False) x fun p => MarksHeld p.2.document (p.1 :: rest) ∧ c.MarkedUnder p.1) :
    Keeps (HeldBeside rest) c (seenRun x) fun _ _ => True :=
  .seen (h.mono fun _ hp => ⟨hp.1.under hp.2, trivial⟩)

/-- An operation that leaves commands alone that insert, of which only the end is told. -/
theorem keeps_seenRun_of_alone {x : Except Fault (Command × Run)}
    (h : Ends (fun _ => False) x fun p => MarksHeld p.2.document (p.1 :: rest))
    (halone : c.kind.isInsertion = true → x = .ok (c, r)) :
    Keeps (HeldBeside rest) c (seenRun x) fun _ _ => True := by
  obtain ⟨p, rfl, hp⟩ := h.exists_ok
  refine keeps_seenRun ⟨hp, fun hk => ?_⟩
  obtain rfl := Except.ok.inj (halone hk)
  exact ⟨hk, rfl, id⟩

theorem markedUnder_fail (r : Run) (c : Command) (reason : String) :
    Ends (fun _ => True) (r.fail c reason) fun p => c.MarkedUnder p.1 :=
  Ends.bind (Ends.of_forall fun _ _ hk => ⟨hk, rfl, id⟩)

theorem markedUnder_failFragment (request : FragmentRequest) (id : String) (e : InsertionError) (c : Command)
    (r : Run) : Ends (fun _ => True) (failFragment request id e c r) fun p => c.MarkedUnder p.1 := by
  unfold failFragment
  split
  · exact fun hk => ⟨hk, rfl, fun hm => hm⟩
  · exact markedUnder_fail r c _

/-- What is told of an insertion that is not refused: the marks, and the content between them. -/
theorem Command.events_tellBetweenMarks {c c' : Command} {d d' content : Document}
    (h : c.insertBetweenMarks d content = .ok (c', d', none)) :
    ∃ d₁, c.setText d marks = .ok (.ok d₁) ∧ (c.tellBetweenMarks d content).events = [.stood d₁, .stood d'] := by
  unfold insertBetweenMarks at h
  unfold tellBetweenMarks
  cases hset : c.setText d marks with
  | error f =>
    rw [hset] at h
    cases h
  | ok attempt =>
  rw [hset] at h
  cases attempt with
  | error e => cases h
  | ok d₁ =>
  refine ⟨d₁, rfl, ?_⟩
  dsimp only [bind, Except.bind, Told.attempted] at h ⊢
  generalize ({ c with marked := true } : Command) = c₁ at h ⊢
  cases hrange : c₁.range? d₁ with
  | none =>
    rw [hrange] at h
    cases h
  | some range =>
  cases hshift : d₁.shift? range.collapseToStart 1 1 with
  | none =>
    simp only [hrange, hshift] at h
    cases h
  | some between =>
  cases hput : d₁.insertContent between content with
  | error f =>
    simp only [hrange, hshift, hput] at h
    cases h
  | ok attempt =>
  simp only [hrange, hshift, hput] at h ⊢
  cases attempt with
  | error e => cases h
  | ok d₂ =>
    cases h
    rfl

/-- A content is put between marks in the place of a command. -/
theorem Tracked.keeps_tellBetweenMarks {d content : Document} (h : Tracked kept True (c :: rest) d)
    (hk : c.kind.isInsertion = true) (hm : c.marked = false) (hcontent : content.WellFormed)
    (hapart : content.CommandsApart) :
    Keeps (HeldBeside rest) c (c.tellBetweenMarks d content) fun _ p => p.2.2 = none ∧
      Tracked kept True (p.1 :: rest) p.2.1 ∧ Fillable kept (p.1 :: rest) p.1 p.2.1 := by
  obtain ⟨d', hinsert, hd', hfill⟩ := h.insertBetweenMarks hk hm hcontent hapart
  obtain ⟨d₁, hset, hevents⟩ := Command.events_tellBetweenMarks hinsert
  refine ⟨fun p hp => ?_, ?_⟩
  · rw [hevents] at hp
    rcases List.mem_pair.1 hp with rfl | rfl
    · exact ((h.setText hm Command.marks).of_eq_ok hset d₁ rfl).marksHeld
    · exact hd'.marksHeld.under fun hk => ⟨hk, rfl, fun _ => rfl⟩
  · rw [Command.result_tellBetweenMarks, hinsert]
    exact ⟨rfl, hd', hfill⟩

/-- The placeholders of a content are filled in. -/
theorem Tracked.keeps_tellFillPlaceholders {c₀ : Command} (h : Tracked kept True (c :: rest) r.document)
    (hfill : Fillable kept (c :: rest) c r.document) (policy : Policy) (jumpMark : Option String)
    (arguments : List String) :
    Keeps (HeldBeside rest) c₀ (tellFillPlaceholders policy jumpMark c arguments r) fun _ _ => True := by
  cases hrange : c.range? r.document with
  | none =>
    unfold tellFillPlaceholders
    rw [hrange]
    refine .andThen (P := fun _ _ => True) (.tell (fun d hd => ?_) trivial) fun _ _ _ => .pure trivial
    obtain rfl := Option.some.inj hd
    exact h.marksHeld
  | some range =>
    obtain ⟨I, hstart, hkept, htracked⟩ := h.exists_keptByFilling hfill hrange
    refine (KeptByFilling.tellFillPlaceholders (I := I) (fun d hd => (htracked d hd).marksHeld) hstart ?_
      policy jumpMark arguments).mono fun _ _ _ => trivial
    intro range' hrange'
    obtain rfl := Option.some.inj (hrange.symm.trans hrange')
    exact hkept

/-- A fragment, or its styles only, is put in the place of a command. -/
theorem Tracked.keeps_tellPlaceFragment {content : Document} (h : Tracked kept True (c :: rest) r.document)
    (hk : c.kind.isInsertion = true) (hm : c.marked = false) (hcontent : content.WellFormed)
    (hapart : content.CommandsApart) (request : FragmentRequest) :
    Keeps (HeldBeside rest) c (tellPlaceFragment request content c r) fun c' p =>
      (request.stylesOnly = true ∧ c' = c ∧ p.1 = c ∧ Tracked kept True (c :: rest) p.2.1.document) ∨
        (request.stylesOnly = false ∧ p.2.2 = none ∧ Tracked kept True (p.1 :: rest) p.2.1.document ∧
          Fillable kept (p.1 :: rest) p.1 p.2.1.document) := by
  unfold tellPlaceFragment
  cases hstyles : request.stylesOnly with
  | true =>
    have himport := h.sameParts (.importStyles r.document content request.styles)
    unfold placeFragment
    rw [hstyles]
    refine .seen (Ends.andThen (himport.setText hm []) fun attempt hattempt => ?_)
    cases attempt with
    | error e => exact ⟨himport.marksHeld, .inl ⟨rfl, rfl, rfl, himport⟩⟩
    | ok d' => exact ⟨(hattempt d' rfl).marksHeld, .inl ⟨rfl, rfl, rfl, hattempt d' rfl⟩⟩
  | false =>
    exact .andThen (h.keeps_tellBetweenMarks hk hm hcontent hapart) fun _ p hp => .pure (.inr ⟨rfl, hp⟩)

theorem Tracked.keeps_tellInsertFragment (hs : s.LoadsApart) (h : Tracked kept True (c :: rest) r.document)
    (hk : c.kind.isInsertion = true) (hm : c.marked = false) (jumpMark : Option String) (request : FragmentRequest) :
    Keeps (HeldBeside rest) c (tellInsertFragment s jumpMark request c r) fun _ _ => True := by
  have hfail : ∀ (r : Run) id e, Tracked kept True (c :: rest) r.document →
      Keeps (HeldBeside rest) c (seenRun (failFragment request id e c r)) fun _ _ => True := fun r id e hr => by
    have hkept : KeptByRunning s (kept ≠ [[], []]) (Tracked kept) := keptByRunning_tracked hs
    have htracked := (hkept.inserting rest).failFragment hr hm request id e
    exact keeps_seenRun ((htracked.and (markedUnder_failFragment request id e c r)).mono fun _ hp =>
      ⟨hp.1.marksHeld, hp.2⟩)
  unfold tellInsertFragment
  dsimp only
  split
  · refine .andThen (P := fun _ _ => True) (.seen ?_) fun _ _ _ => .pure trivial
    refine Ends.andThen (h.setText hm []) fun attempt hattempt => ?_
    cases attempt with
    | error e => exact ⟨h.marksHeld, trivial⟩
    | ok d' => exact ⟨(hattempt d' rfl).marksHeld, trivial⟩
  split
  · exact hfail r _ _ h
  next content hload =>
    obtain ⟨l, -, hl⟩ := exists_of_loadFragment hload
    refine .andThen (h.keeps_tellPlaceFragment hk hm (hs l content hl).1 (hs l content hl).2 request) ?_
    rintro c₀ ⟨c', r', refusal⟩ (⟨hstyles, rfl, rfl, hr'⟩ | ⟨hstyles, rfl, hr', hfill⟩)
    · cases refusal with
      | none =>
        dsimp only
        rw [hstyles]
        exact .pure trivial
      | some e => exact hfail r' _ _ hr'
    · dsimp only
      rw [hstyles]
      refine .andThen (P := fun _ _ => True) ?_ fun _ _ _ => .pure trivial
      exact hr'.keeps_tellFillPlaceholders hfill s.policy jumpMark request.arguments

theorem Tracked.keeps_tellInsertContent (hs : s.LoadsApart) (h : Tracked kept True (c :: rest) r.document)
    (hk : c.kind.isInsertion = true) (hm : c.marked = false) :
    Keeps (HeldBeside rest) c (tellInsertContent s c r) fun _ _ => True := by
  unfold tellInsertContent
  split
  · exact .pure trivial
  next location contents _ =>
    refine .andThen (P := fun _ _ => True) ?_ fun _ _ _ => .pure trivial
    unfold tellPlaceContent
    split
    · exact keeps_seenRun (((h.fail (r := { r with contents }) hm _).and (markedUnder_fail _ c _)).mono
        fun _ hp => ⟨hp.1.marksHeld, hp.2⟩)
    next content hload =>
      refine .andThen (h.keeps_tellBetweenMarks hk hm (hs _ content hload).1 (hs _ content hload).2) ?_
      rintro _ ⟨c', d', refusal⟩ ⟨rfl, -⟩
      exact .pure trivial

/-- Executing a command that inserts. -/
theorem Tracked.keeps_tellInsert (hs : s.LoadsApart) (h : Tracked kept True (c :: rest) r.document)
    (hm : c.marked = false) (jumpMark : Option String) :
    Keeps (HeldBeside rest) c (tellInsert s jumpMark c r) fun _ _ => True := by
  unfold tellInsert
  split
  next request hkind => exact h.keeps_tellInsertFragment hs (by rw [hkind]; rfl) hm jumpMark request
  next hkind => exact h.keeps_tellInsertContent hs (by rw [hkind]; rfl) hm
  · exact .pure trivial

/-- Updating the fields that a command asks for. -/
theorem Tracked.keeps_tellUpdateFields (h : Tracked kept (kept ≠ [[], []]) (c :: rest) r.document) (policy : Policy) :
    Keeps (HeldBeside rest) c (tellUpdateFields policy c r) fun _ _ => True := by
  let I : Command → Document → Prop := fun c' d => c' = c ∧ Tracked kept (kept ≠ [[], []]) (c :: rest) d
  have hone : ∀ c' d e, I c' d → Keeps (HeldBeside rest) c' (seen id (refreshOne d e)) I := by
    rintro _ d e ⟨rfl, hd⟩
    exact .seen ((Ends.refreshOne hd (hd.refreshElement e)).mono fun d' hd' => ⟨hd'.marksHeld, rfl, hd'⟩)
  unfold tellUpdateFields
  split
  · dsimp only
    split
    · exact .andThen (P := I) (.pure ⟨rfl, h⟩) fun _ _ _ => .pure trivial
    · refine .andThen (P := I) (.foldlM ⟨rfl, h⟩ fun c' d e hd => ?_) fun _ _ _ => .pure trivial
      exact .andThen (.foldlM hd hone) fun c' d hd => hone c' d e hd
  · exact .pure trivial

end Executing

/-! ### Stages -/

/-- What a run is doing, until the marks are removed. -/
inductive Stage where
  | overrides
  | insertions (jumpMark : Option String)
  | fields
  | values

namespace Stage

/-- What is done for a pending command. -/
def step (s : Services) : Stage → Command → Run → Except Fault (Command × Run)
  | overrides => executeOverride s.policy
  | insertions jumpMark => executeInsert s jumpMark
  | fields => updateFields s.policy
  | values => fillIn s

/-- What is told of that. -/
def tell (s : Services) : Stage → Command → Run → Told (Command × Run)
  | overrides => fun c r => seenRun (executeOverride s.policy c r)
  | insertions jumpMark => tellInsert s jumpMark
  | fields => tellUpdateFields s.policy
  | values => fun c r => seenRun (fillIn s c r)

theorem result_tell (s : Services) (stage : Stage) (c : Command) (r : Run) :
    (stage.tell s c r).result = stage.step s c r := by
  cases stage with
  | overrides => rfl
  | insertions jumpMark => exact result_tellInsert s jumpMark c r
  | fields => exact result_tellUpdateFields s.policy c r
  | values => rfl

/-- How commands are tracked. -/
def Tracks (kept : List Text) : Stage → List Command → Document → Prop
  | overrides | insertions _ => Expanding kept
  | fields | values => Tracked kept (kept ≠ [[], []])

variable {kept : List Text} {s : Services} {stage : Stage} {c : Command} {cs cs' rest : List Command} {d : Document}
  {r : Run}

theorem Tracks.perm (h : stage.Tracks kept cs d) (hp : cs.Perm cs') : stage.Tracks kept cs' d := by
  cases stage with
  | overrides | insertions => exact ⟨h.1.perm hp, fun c hc => h.2 c (hp.mem_iff.2 hc)⟩
  | fields | values => exact Tracked.perm h hp

theorem Tracks.marksHeld (h : stage.Tracks kept cs d) : MarksHeld d cs := by
  cases stage with
  | overrides | insertions => exact h.1.marksHeld
  | fields | values => exact Tracked.marksHeld h

/-- Executing a command keeps the commands tracked. -/
theorem Tracks.step (hs : s.LoadsApart) (hpending : c.isPending = true)
    (h : stage.Tracks kept (c :: rest) r.document) :
    Ends (fun _ => False) (stage.step s c r) fun p => stage.Tracks kept (p.1 :: rest) p.2.document := by
  have hkept : KeptByRunning s (kept ≠ [[], []]) (Tracked kept) := keptByRunning_tracked hs
  have hexpand : ∀ {x : Except Fault (Command × Run)}, Expanding kept (c :: rest) r.document →
      (Ends (fun _ => False) x fun p => Tracked kept True (p.1 :: rest) p.2.document ∧ p.1.IdleIfMarked) →
      Ends (fun _ => False) x fun p => Expanding kept (p.1 :: rest) p.2.document := fun h hx =>
    hx.mono fun p hp => ⟨hp.1, List.forall_mem_cons.2 ⟨hp.2, (List.forall_mem_cons.1 h.2).2⟩⟩
  cases stage with
  | overrides => exact hexpand h (hkept.executeOverride (h.2 c (by simp)) h.1)
  | insertions jumpMark => exact hexpand h (hkept.executeInsert jumpMark hpending (h.2 c (by simp)) h.1)
  | fields => exact hkept.updateFields h
  | values => exact hkept.fillIn h

/-- Meanwhile the marks are held. -/
theorem Tracks.keeps_tell (hs : s.LoadsApart) (hpending : c.isPending = true)
    (h : stage.Tracks kept (c :: rest) r.document) :
    Keeps (HeldBeside rest) c (stage.tell s c r) fun _ _ => True := by
  have hstep := (h.step hs hpending).mono fun p hp => hp.marksHeld
  cases stage with
  | overrides =>
    refine keeps_seenRun_of_alone (r := r) hstep fun hk => ?_
    show executeOverride s.policy c r = _
    unfold executeOverride
    split
    next hkind => simp [hkind, CommandKind.isInsertion] at hk
    · rfl
  | insertions jumpMark => exact h.1.keeps_tellInsert hs (unmarked_of_isPending (h.2 c (by simp)) hpending) jumpMark
  | fields => exact Tracked.keeps_tellUpdateFields h s.policy
  | values =>
    refine keeps_seenRun_of_alone (r := r) hstep fun hk => ?_
    show fillIn s c r = _
    unfold fillIn
    split
    next hkind => simp [hkind, CommandKind.isInsertion] at hk
    next hkind => simp [hkind, CommandKind.isInsertion] at hk
    next hkind => simp [hkind, CommandKind.isInsertion] at hk
    · rfl

end Stage

/-! ### Moments -/

/-- The states of a run between two commands: those before it are visited, those behind it are still to come.  How
many rounds there are is left open. -/
inductive Model.Passes (m : Model) (s : Services) : Stage → List Command → List Command → Run → Prop
  | start : Passes m s .overrides [] m.enter.commands m.enter.startRun
  /-- A command that is not pending is left alone. -/
  | skip {stage before c after r} : Passes m s stage before (c :: after) r → c.isPending = false →
      Passes m s stage (before ++ [c]) after r
  | execute {stage before c after r c' r'} : Passes m s stage before (c :: after) r → c.isPending = true →
      stage.step s c r = .ok (c', r') → Passes m s stage (before ++ [c']) after r'
  | insert {cs r} : Passes m s .overrides cs [] r →
      Passes m s (.insertions (Command.firstJumpMark? cs)) [] cs r
  | round {jumpMark cs r} : Passes m s (.insertions jumpMark) cs [] r →
      Passes m s .overrides [] (Command.refresh r.document cs).1 r
  | update {cs r} : Passes m s .overrides [] cs r →
      Passes m s .fields [] cs { r with document := r.document.lock }
  | fill {cs r} : Passes m s .fields cs [] r →
      Passes m s .values [] cs { r with document := r.document.unlock.lock }

/-- Whether at some moment, until the marks are removed, the commands and the document are these: between two
commands, while a command is executed, or right after a content was put between the marks of a command. -/
inductive Model.Shows (m : Model) (s : Services) : List Command → Document → Prop
  | between {stage before after r} : m.Passes s stage before after r → Shows m s (before ++ after) r.document
  | within {stage before c after r c' d} : m.Passes s stage before (c :: after) r → c.isPending = true →
      (c', d) ∈ sightings c (stage.tell s c r).events → Shows m s (before ++ c' :: after) d
  | inserted {jumpMark before c after r l content c' d refusal} :
      m.Passes s (.insertions jumpMark) before (c :: after) r → c.isPending = true →
      c.kind.isInsertion = true → s.load l = .ok content →
      c.insertBetweenMarks r.document content = .ok (c', d, refusal) → Shows m s (before ++ c' :: after) d

section Moments

variable {kept : List Text} {s : Services} {m : Model} {stage : Stage} {before after cs : List Command}
  {d : Document} {r : Run}

/-- What one step keeps of tracked commands, a run does. -/
theorem Model.Passes.tracks (hs : s.LoadsApart) (hm : Expanding kept m.commands m.document)
    (h : m.Passes s stage before after r) : stage.Tracks kept (before ++ after) r.document := by
  induction h with
  | start => exact ⟨hm.1.sameParts ⟨rfl, rfl, rfl, rfl, rfl, rfl, rfl⟩, hm.2⟩
  | skip _ _ ih => simpa using ih
  | execute _ hpending hstep ih =>
    have hnext := ((ih.perm List.perm_middle).step hs hpending).of_eq_ok hstep
    simpa using hnext.perm List.perm_middle.symm
  | insert _ ih =>
    rw [List.append_nil] at ih
    exact ih
  | round _ ih =>
    rw [List.append_nil] at ih
    exact Expanding.refresh ih
  | update _ ih => exact ((keptByRunning_tracked hs).leave ih.1).sameParts (.lock _)
  | fill _ ih =>
    rw [List.append_nil] at ih
    exact (Tracked.sameParts ih (.unlock _)).sameParts (.lock _)

/-- At every moment of a run of tracked commands the marks are held. -/
theorem Model.Shows.marksHeld (hs : s.LoadsApart) (hm : Expanding kept m.commands m.document)
    (h : m.Shows s cs d) : MarksHeld d cs := by
  cases h with
  | between hpasses => exact (hpasses.tracks hs hm).marksHeld
  | within hpasses hpending hshown =>
    have hkeeps := ((hpasses.tracks hs hm).perm List.perm_middle).keeps_tell hs hpending
    exact (hkeeps.shown _ hshown).perm List.perm_middle.symm
  | inserted hpasses hpending hk hload hinsert =>
    have htracked : Expanding kept _ _ := (hpasses.tracks hs hm).perm List.perm_middle
    have hmarked := unmarked_of_isPending (htracked.2 _ (by simp)) hpending
    obtain ⟨d', hinsert', hd', -⟩ := htracked.1.insertBetweenMarks hk hmarked (hs _ _ hload).1 (hs _ _ hload).2
    obtain ⟨rfl, rfl, rfl⟩ : _ ∧ _ ∧ _ := by simpa using hinsert.symm.trans hinsert'
    exact hd'.marksHeld.perm List.perm_middle.symm

/-! #### Nothing is missed -/

/-- What is told of a run until the marks are removed. -/
def Model.tellUntilCleanup (m : Model) (s : Services) : Told (Fixpoint × List Command × Run) := do
  let (fixpoint, cs, r) ← tellRounds s 0 maxRounds m.enter.commands m.enter.startRun
  let (cs, r) ← tellLocked (tellUpdateFields s.policy) cs r
  let (cs, r) ← tellLocked (fun c r => seenRun (fillIn s c r)) cs r
  return (fixpoint, cs, r)

theorem Model.result_tellUntilCleanup (m : Model) (s : Services) :
    (m.tellUntilCleanup s).result = m.runUntilCleanup s := by
  unfold tellUntilCleanup runUntilCleanup expand
  rw [result_bind, result_tellRounds]
  refine bind_congr fun p => ?_
  rw [result_bind, result_tellLocked (result_tellUpdateFields s.policy)]
  refine bind_congr fun p => ?_
  rw [result_bind, result_tellLocked fun c r => result_seenRun (fillIn s c r)]
  rfl

/-- Whether what is told shows moments of a run only, and its result is as `Q` has it. -/
structure Told.ShowsOnly {α : Type} (m : Model) (s : Services) (x : Told α) (Q : α → Prop) : Prop where
  shown : ∀ e ∈ x.events, ∀ d, e.document? = some d → ∃ cs, m.Shows s cs d
  ends : ∀ a, x.result = .ok a → Q a

theorem Told.ShowsOnly.andThen {α β : Type} {x : Told α} {f : α → Told β} {P : α → Prop} {Q : β → Prop}
    (h : ShowsOnly m s x P) (hf : ∀ a, P a → ShowsOnly m s (f a) Q) : ShowsOnly m s (x >>= f) Q := by
  obtain ⟨events, result⟩ := x
  cases result with
  | error e => exact ⟨h.shown, fun a ha => nomatch ha⟩
  | ok a =>
    have hrest := hf a (h.ends a rfl)
    exact ⟨fun e he => (List.mem_append.1 he).elim (h.shown e) (hrest.shown e), hrest.ends⟩

theorem Told.ShowsOnly.pure {α : Type} {a : α} {Q : α → Prop} (h : Q a) :
    ShowsOnly m s (Pure.pure a : Told α) Q :=
  ⟨fun _ he => (nomatch he), fun _ ha => Except.ok.inj ha ▸ h⟩

/-- Executing the pending commands of a list. -/
theorem Model.Passes.showsOnly_tellPending (h : m.Passes s stage before cs r) :
    ShowsOnly m s (tellPending (stage.tell s) cs r) fun p => m.Passes s stage (before ++ p.1) [] p.2 := by
  induction cs generalizing before r with
  | nil =>
    refine .pure ?_
    rwa [List.append_nil]
  | cons c cs ih =>
    have hone : ShowsOnly m s (if c.isPending then stage.tell s c r else Pure.pure (c, r)) fun p =>
        m.Passes s stage (before ++ [p.1]) cs p.2 := by
      split
      next hpending =>
        refine ⟨fun e he d hd => ?_, fun p hp => h.execute hpending ((stage.result_tell s c r).symm.trans hp)⟩
        obtain ⟨c', hc'⟩ := exists_sighting he hd c
        exact ⟨_, .within h hpending hc'⟩
      next hpending => exact .pure (h.skip (by simpa using hpending))
    refine hone.andThen fun p hp => (ih hp).andThen fun q hq => .pure ?_
    rwa [List.append_assoc] at hq

/-- Executing them while views of the document wait. -/
theorem Model.Passes.showsOnly_tellLocked
    (h : m.Passes s stage [] cs { r with document := r.document.lock }) :
    ShowsOnly m s (tellLocked (stage.tell s) cs r) fun p =>
      ∃ r', m.Passes s stage p.1 [] r' ∧ p.2 = { r' with document := r'.document.unlock } :=
  h.showsOnly_tellPending.andThen fun p hp => .pure ⟨p.2, hp, rfl⟩

/-- All rounds. -/
theorem Model.Passes.showsOnly_tellRounds (done left : Nat) (h : m.Passes s .overrides [] cs r) :
    ShowsOnly m s (tellRounds s done left cs r) fun p => m.Passes s .overrides [] p.2.1 p.2.2 := by
  induction left generalizing done cs r with
  | zero => exact .pure h
  | succ left ih =>
    have hround : ShowsOnly m s (tellRound s cs r) fun p => m.Passes s .overrides [] p.1 p.2.1 := by
      refine h.showsOnly_tellPending.andThen fun p hp => ?_
      refine hp.insert.showsOnly_tellPending.andThen fun q hq => ?_
      exact .pure hq.round
    refine hround.andThen fun p hp => ?_
    dsimp only
    split
    · exact ih (done + 1) hp
    · exact .pure hp

/-- What the chronicle tells until the marks are removed shows moments of the run only. -/
theorem Model.showsOnly_tellUntilCleanup (m : Model) (s : Services) :
    ShowsOnly m s (m.tellUntilCleanup s) fun p =>
      ∃ r, m.Passes s .values p.2.1 [] r ∧ p.2.2 = { r with document := r.document.unlock } := by
  refine (Passes.showsOnly_tellRounds 0 maxRounds .start).andThen fun p hp => ?_
  refine hp.update.showsOnly_tellLocked.andThen ?_
  rintro ⟨cs, _⟩ ⟨r, hr, rfl⟩
  refine (Passes.showsOnly_tellLocked (r := { r with document := r.document.unlock }) hr.fill).andThen ?_
  rintro ⟨cs, _⟩ ⟨r', hr', rfl⟩
  exact .pure ⟨r', hr', rfl⟩

/-- **Marks stay where they were put until they are removed.**  Where the commands of the document and those of each
content are apart, at every moment from then on the range of each command that inserted a content starts and ends with
its marks, if its bookmark is still there, and no mark belongs to two commands.  Every document of the run that
the chronicle tells of is that of such a moment. -/
theorem marksHeld_shows (hs : s.LoadsApart) (hd : d.Consistent) (hapart : d.CommandsApart) (locations : List String)
    (mustProcess : Bool) :
    (∀ cs d', (Model.fresh d locations mustProcess).Shows s cs d' → MarksHeld d' cs) ∧
    (∀ e ∈ ((Model.fresh d locations mustProcess).tellUntilCleanup s).events, ∀ d', e.document? = some d' →
      ∃ cs, (Model.fresh d locations mustProcess).Shows s cs d') ∧
    ((Model.fresh d locations mustProcess).tellUntilCleanup s).result =
      (Model.fresh d locations mustProcess).runUntilCleanup s :=
  ⟨fun _ _ h => h.marksHeld hs (expanding_fresh hd hapart locations mustProcess),
    (Model.showsOnly_tellUntilCleanup _ s).shown, Model.result_tellUntilCleanup _ s⟩

end Moments

/-- Surroundings in debug mode with a fragment that holds a place for another one. -/
def holder : Services := { echo.inMode true with
  load := fun l => .ok (if l = "p" then { Document.ofText "?".toList with
    bookmarks := [⟨"DOC(CMD 'insertFrag' FRAG_ID 'Xx')", ⟨0, 1⟩⟩] } else Document.ofText l.toList) }

/-- A document with a place in a computed field for the fragment that the one before brings too. -/
def placeInField : Document :=
  { Document.ofText "?(?)!".toList with
    bookmarks := [⟨"DOC(CMD 'insertFrag' FRAG_ID 'p')", ⟨0, 1⟩⟩, ⟨"DOC(CMD 'insertFrag' FRAG_ID 'Xx')", ⟨2, 3⟩⟩,
      ⟨"DOC(CMD 'updateFields')", ⟨4, 5⟩⟩]
    fields := [⟨0, .computed "v", ⟨1, 4⟩⟩]
    values := Dictionary.empty.insert "v" "V"
    nextFieldId := 1 }

/-- The texts at the moments of a run: the first fragment brings a place for the second one, and a value takes the
place of what was inserted in the field. -/
theorem marksHeld_shows_placeInField :
    holder.LoadsApart ∧ placeInField.Consistent ∧ placeInField.CommandsApart ∧
      (∀ cs d', (Model.fresh placeInField [] false).Shows holder cs d' → MarksHeld d' cs) ∧
      ((((Model.fresh placeInField [] false).tellUntilCleanup holder).events.filterMap Event.document?).map fun d =>
        String.ofList d.text) =
          ["?(?)!", "?(?)!", "?(?)!", "<>(?)!", "<?>(?)!", "<?>(?)!", "<?>(<>)!", "<?>(<Xx>)!", "<?>(<Xx>)!",
            "<?>(<Xx>)!", "<?>(<Xx>)!", "<<>>(<Xx>)!", "<<Xx>>(<Xx>)!", "<<Xx>>(<Xx>)!", "<<Xx>>V!", "<<Xx>>V!"] := by
  have happart : holder.LoadsApart := by
    intro l content h
    obtain rfl := Except.ok.inj h
    split
    · exact ⟨⟨by decide, by decide, by decide, by decide, by decide⟩, List.pairwise_singleton _ _⟩
    · exact ⟨⟨.nil, by simp [Document.ofText], by simp [Document.ofText], by simp [Document.ofText],
        by simp [Document.ofText]⟩, .nil⟩
  have hd : placeInField.Consistent :=
    ⟨⟨by decide, by decide, by decide, by decide, by decide⟩, by decide, by decide⟩
  have hplaces : placeInField.CommandsApart := by
    refine .cons (fun b hb => ?_) (List.pairwise_pair.2 fun _ _ => .inl (by decide))
    rcases List.mem_pair.1 hb with rfl | rfl <;> exact fun _ _ => .inl (by decide)
  exact ⟨happart, hd, hplaces, (marksHeld_shows happart hd hplaces [] false).1, by cbv⟩

end TemplateEngine
