import TemplateEngine.Proofs.Chronicle
import TemplateEngine.Proofs.KeepingCursor

/-!
# Cursor — the view cursor follows the first unfilled placeholder

The placeholders that lack a text are offered to the view cursor one after the other; the first one that is still
there gets it, and no other one.  From then on the cursor is where the placeholder is, until the cursor is put on the
jump mark.

What happened so far is a list of events; `Kept` relates it to the state of the run, and every step of the run
keeps it (`Follows`).
-/

namespace TemplateEngine

/-! ### What a history says -/

/-- The placeholders that lack a text when arguments are filled in: each one with an empty argument, and the first
one beyond the arguments. -/
def unfilled : List Nat → List String → List Nat
  | [], _ => []
  | id :: _, [] => [id]
  | id :: ids, argument :: arguments => if argument.isEmpty then id :: unfilled ids arguments else unfilled ids arguments

theorem mem_of_mem_unfilled {id : Nat} {ids : List Nat} {arguments : List String} (h : id ∈ unfilled ids arguments) :
    id ∈ ids := by
  induction ids generalizing arguments with
  | nil => cases h
  | cons i ids ih =>
    cases arguments with
    | nil => exact List.mem_singleton.1 h ▸ List.mem_cons_self
    | cons argument arguments =>
      rw [unfilled] at h
      split at h
      · rcases List.mem_cons.1 h with rfl | h
        · exact List.mem_cons_self
        · exact List.mem_cons_of_mem i (ih h)
      · exact List.mem_cons_of_mem i (ih h)

/-- The placeholders of a span are placeholders. -/
theorem Document.reserves_of_mem_placeholdersWithin {d : Document} (hd : d.Numbered) {s : Span} {id : Nat}
    (h : id ∈ d.placeholdersWithin s) : d.Reserves id := by
  obtain ⟨f, hf, rfl⟩ := List.mem_map.1 h
  have hmem : f ∈ d.fields.filter fun f => f.isPlaceholder && f.span.within s := (List.mergeSort_perm _ _).mem_iff.1 hf
  obtain ⟨hfield, hinside⟩ := List.mem_filter.1 hmem
  refine ⟨hd.fresh f hfield, fun g hg => ?_⟩
  obtain rfl := Option.some.inj ((hd.field?_eq_some hfield).symm.trans hg)
  exact (Bool.and_eq_true _ _ ▸ hinside).1

namespace Event

/-- The placeholder that the cursor was put on, and not on the jump mark since. -/
def watch : Option Nat → Event → Option Nat
  | _, .placed id => some id
  | _, .jumped => none
  | w, _ => w

/-- Whether the cursor is on the placeholder that it was put on. -/
def Agrees (w : Option Nat) : Event → Prop
  | .stood d => ∀ id, w = some id → d.CursorOn id
  | _ => True

def placement? : Event → Option Nat
  | .placed id => some id
  | _ => none

def offer? : Event → Option (Document × Nat)
  | .offered d id => some (d, id)
  | _ => none

/-- The placeholders that an inserted fragment leaves without a text, in text order. -/
def unfilled : Event → List Nat
  | .inserted d c arguments =>
    match c.range? d with
    | none => []
    | some range => TemplateEngine.unfilled (d.placeholdersWithin range.toSpan) arguments
  | _ => []

end Event

section History

variable (log : List Event)

/-- The placeholders that the cursor was put on. -/
def placements : List Nat := log.filterMap Event.placement?

/-- The placeholders that were left without a text, with the documents at these moments. -/
def offers : List (Document × Nat) := log.filterMap Event.offer?

/-- The first of them that existed at its moment. -/
def firstOffer? : Option Nat := ((offers log).find? fun p => (p.1.field? p.2).isSome).map (·.2)

/-- The placeholders that the inserted fragments leave without a text, one fragment after the other. -/
def allUnfilled : List Nat := log.flatMap Event.unfilled

/-- The placeholder that the cursor is on at the end. -/
def watched : Option Nat := log.foldl Event.watch none

variable (log' : List Event)

@[simp] theorem placements_append : placements (log ++ log') = placements log ++ placements log' :=
  List.filterMap_append

@[simp] theorem offers_append : offers (log ++ log') = offers log ++ offers log' := List.filterMap_append

@[simp] theorem allUnfilled_append : allUnfilled (log ++ log') = allUnfilled log ++ allUnfilled log' :=
  List.flatMap_append

theorem firstOffer?_append : firstOffer? (log ++ log') = (firstOffer? log).or (firstOffer? log') := by
  rw [firstOffer?, offers_append, List.find?_append, Option.map_or]
  rfl

theorem firstOffer?_offered (d : Document) (id : Nat) :
    firstOffer? [.offered d id] = if (d.field? id).isSome then some id else none := by
  show (List.find? _ [(d, id)]).map _ = _
  rw [List.find?_singleton]
  split <;> rfl

theorem watched_append : watched (log ++ log') = log'.foldl Event.watch (watched log) := List.foldl_append ..

end History

/-- Whether the cursor is on the placeholder that it was put on whenever a document is told of. -/
def Faithful : Option Nat → List Event → Prop
  | _, [] => True
  | w, e :: log => e.Agrees w ∧ Faithful (e.watch w) log

theorem faithful_append {w : Option Nat} {log log' : List Event} :
    Faithful w (log ++ log') ↔ Faithful w log ∧ Faithful (log.foldl Event.watch w) log' := by
  induction log generalizing w with
  | nil => simp [Faithful]
  | cons e log ih => simp only [List.cons_append, Faithful, List.foldl_cons, ih, and_assoc]

/-- A placeholder that the cursor was put on is watched until the cursor is put elsewhere. -/
theorem foldl_watch_eq {id : Nat} {log : List Event} (hjump : ∀ e ∈ log, e ≠ .jumped) (hplaced : placements log = []) :
    log.foldl Event.watch (some id) = some id := by
  induction log with
  | nil => rfl
  | cons e log ih =>
    have hrest : placements log = [] := by
      rw [placements, List.filterMap_cons] at hplaced
      split at hplaced
      · exact hplaced
      · cases hplaced
    have hwatch : e.watch (some id) = some id := by
      cases e with
      | placed j => cases hplaced
      | jumped => exact absurd rfl (hjump .jumped List.mem_cons_self)
      | _ => rfl
    rw [List.foldl_cons, hwatch]
    exact ih (fun e' he' => hjump e' (List.mem_cons_of_mem e he')) hrest

/-! ### What holds of a history -/

/-- What holds of every history, that of a run that faulted too. -/
structure SoundHistory (log : List Event) : Prop where
  faithful : Faithful none log
  first : placements log = (firstOffer? log).toList
  order : (offers log).map (·.2) <+: allUnfilled log

/-- What holds of a history and the state of the run then; the placeholders `owed` are still to be offered. -/
structure Kept (log : List Event) (owed : List Nat) (r : Run) : Prop where
  numbered : r.document.Numbered
  faithful : Faithful none log
  watched : ∀ id, watched log = some id → r.document.Reserves id ∧ r.document.CursorOn id
  reserved : ∀ id ∈ owed, r.document.Reserves id
  flag : r.cursorPlaced = true ↔ placements log ≠ []
  first : placements log = (firstOffer? log).toList
  order : (offers log).map (·.2) ++ owed = allUnfilled log

namespace Kept

variable {log : List Event} {owed : List Nat} {r r' : Run}

theorem sound (h : Kept log owed r) : SoundHistory log := ⟨h.faithful, h.first, h.order ▸ List.prefix_append _ _⟩

theorem keepsCursor (h : Kept log owed r) (hr : r.KeepsCursor r') : Kept log owed r' where
  numbered := hr.document.numbered h.numbered
  faithful := h.faithful
  watched id hid :=
    have ⟨hreserved, hon⟩ := h.watched id hid
    ⟨hr.document.reserves h.numbered id hreserved, hr.document.cursorOn h.numbered id hreserved hon⟩
  reserved id hid := hr.document.reserves h.numbered id (h.reserved id hid)
  flag := hr.flag ▸ h.flag
  first := h.first
  order := h.order

/-- What is neither an offer nor a placement changes what is watched at most. -/
theorem append {e : Event} {owed' : List Nat} (h : Kept log owed r) (hplacement : e.placement? = none)
    (hoffer : e.offer? = none) (hagrees : e.Agrees (TemplateEngine.watched log)) (hdocument : r'.document.Numbered)
    (hflag : r'.cursorPlaced = r.cursorPlaced)
    (hwatched : ∀ id, e.watch (TemplateEngine.watched log) = some id →
      r'.document.Reserves id ∧ r'.document.CursorOn id)
    (hreserved : ∀ id ∈ owed', r'.document.Reserves id) (horder : owed' = owed ++ e.unfilled) :
    Kept (log ++ [e]) owed' r' := by
  have hplacements : placements (log ++ [e]) = placements log := by simp [placements, hplacement]
  have hoffers : offers (log ++ [e]) = offers log := by simp [offers, hoffer]
  refine ⟨hdocument, faithful_append.2 ⟨h.faithful, hagrees, trivial⟩, fun id hid => hwatched id ?_, hreserved,
    ?_, ?_, ?_⟩
  · rwa [watched_append] at hid
  · rw [hflag, hplacements]
    exact h.flag
  · rw [hplacements, firstOffer?, hoffers]
    exact h.first
  · rw [hoffers, horder, ← List.append_assoc, h.order, allUnfilled_append]
    simp [allUnfilled]

/-- A document is told of. -/
theorem stood (h : Kept log owed r) : Kept (log ++ [.stood r.document]) owed r :=
  h.append rfl rfl (fun id hid => (h.watched id hid).2) h.numbered rfl h.watched h.reserved (List.append_nil _).symm

/-- The cursor is put on the jump mark. -/
theorem jumped (h : Kept log owed r) (target : TextRange) :
    Kept (log ++ [.jumped]) owed { r with document := r.document.setCursor target } :=
  h.append rfl rfl trivial ⟨h.numbered.ids, h.numbered.fresh⟩ rfl (fun _ hid => nomatch hid)
    (fun id hid => ⟨(h.reserved id hid).known, (h.reserved id hid).placeholder⟩) (List.append_nil _).symm

/-- A fragment is inserted. -/
theorem inserted (h : Kept log [] r) (c : Command) (arguments : List String) :
    Kept (log ++ [.inserted r.document c arguments]) (Event.unfilled (.inserted r.document c arguments)) r := by
  refine h.append rfl rfl trivial h.numbered rfl h.watched (fun id hid => ?_) (List.nil_append _).symm
  rw [Event.unfilled] at hid
  split at hid
  · cases hid
  · exact Document.reserves_of_mem_placeholdersWithin h.numbered (mem_of_mem_unfilled hid)

/-- A placeholder is offered that is gone, or after the cursor was put on one. -/
theorem offered {id : Nat} (h : Kept log (id :: owed) r)
    (hidle : r.cursorPlaced = true ∨ r.document.field? id = none) :
    Kept (log ++ [.offered r.document id]) owed r := by
  refine ⟨h.numbered, faithful_append.2 ⟨h.faithful, trivial, trivial⟩, fun j hj => h.watched j ?_,
    fun j hj => h.reserved j (List.mem_cons_of_mem id hj), ?_, ?_, ?_⟩
  · rwa [watched_append] at hj
  · simpa [placements, Event.placement?] using h.flag
  · have hplacements : placements (log ++ [.offered r.document id]) = placements log := by
      simp [placements, Event.placement?]
    rw [hplacements, firstOffer?_append, h.first]
    rcases hidle with hplaced | hgone
    · -- an offer before this one was taken
      have hfirst : firstOffer? log ≠ none := fun hnone => h.flag.1 hplaced (by rw [h.first, hnone]; rfl)
      obtain ⟨j, hj⟩ := Option.ne_none_iff_exists'.1 hfirst
      rw [hj, Option.some_or]
    · rw [firstOffer?_offered, hgone, Option.isSome_none, if_neg Bool.false_ne_true, Option.or_none]
  · simpa [offers, allUnfilled, Event.offer?, Event.unfilled] using h.order

/-- The cursor is put on the first placeholder offered that is there. -/
theorem placed {id : Nat} {range : TextRange} (h : Kept log (id :: owed) r) (hflag : r.cursorPlaced = false)
    (hrange : r.document.fieldRange? id = some range) :
    Kept (log ++ [.offered r.document id] ++ [.placed id]) owed
      { r with document := r.document.setCursor range, cursorPlaced := true } := by
  obtain ⟨f, hf, rfl⟩ := Option.map_eq_some_iff.1 hrange
  have hnone : placements log = [] := by
    by_contra hne
    rw [h.flag.2 hne] at hflag
    cases hflag
  have hreserved := h.reserved id List.mem_cons_self
  have hfirst : firstOffer? log = none := by
    rw [h.first] at hnone
    simpa using hnone
  have hplacements : placements (log ++ [.offered r.document id] ++ [.placed id]) = [id] := by
    rw [placements_append, placements_append, hnone]
    rfl
  refine ⟨⟨h.numbered.ids, h.numbered.fresh⟩, ?_, fun j hj => ?_, fun j hj => ?_, ?_, ?_, ?_⟩
  · exact faithful_append.2 ⟨faithful_append.2 ⟨h.faithful, trivial, trivial⟩, trivial, trivial⟩
  · rw [watched_append] at hj
    obtain rfl : id = j := Option.some.inj hj
    refine ⟨⟨hreserved.known, hreserved.placeholder⟩, fun g hg => ?_⟩
    rw [Option.some.inj ((hg : r.document.field? id = some g).symm.trans hf)]
    rfl
  · have hj := h.reserved j (List.mem_cons_of_mem id hj)
    exact ⟨hj.known, hj.placeholder⟩
  · rw [hplacements]
    simp
  · rw [hplacements, firstOffer?_append, firstOffer?_append, hfirst, firstOffer?_offered, hf]
    rfl
  · have hunfilled : allUnfilled (log ++ [.offered r.document id] ++ [.placed id]) = allUnfilled log := by
      simp [allUnfilled, Event.unfilled]
    rw [hunfilled, ← h.order, offers_append, offers_append]
    simp [offers, Event.offer?]

end Kept

/-! ### Runs that are told -/

/-- What is told, after a history, ends in a fault or in a result with the property `Q`, of it and all that happened
until then. -/
def Follows {α : Type} (log : List Event) (x : Told α) (Q : α → List Event → Prop) : Prop :=
  match x.result with
  | .ok a => Q a (log ++ x.events)
  | .error _ => SoundHistory (log ++ x.events)

namespace Follows

variable {α β : Type} {log : List Event} {owed : List Nat} {r : Run}

theorem pure {a : α} {Q : α → List Event → Prop} (h : Q a log) : Follows log (Pure.pure a : Told α) Q := by
  show Q a (log ++ [])
  rwa [List.append_nil]

/-- A fault of which nothing is told. -/
theorem fault {e : Fault} {Q : α → List Event → Prop} (h : SoundHistory log) : Follows log ⟨[], .error e⟩ Q := by
  show SoundHistory (log ++ [])
  rwa [List.append_nil]

/-- One step after another, with what holds in between. -/
theorem andThen {x : Told α} {f : α → Told β} {P : α → List Event → Prop} {Q : β → List Event → Prop}
    (h : Follows log x P) (hf : ∀ a log, P a log → Follows log (f a) Q) : Follows log (x >>= f) Q := by
  obtain ⟨events, result⟩ := x
  cases result with
  | error e => exact h
  | ok a =>
    have hrest := hf a (log ++ events) h
    unfold Follows at hrest
    rwa [List.append_assoc] at hrest

theorem tell {e : Event} {Q : Unit → List Event → Prop} (h : Q () (log ++ [e])) : Follows log (Told.tell e) Q := h

/-- A fold keeps what each of its steps keeps. -/
theorem foldlM {f : α → β → Told α} {I : α → List Event → Prop} {bs : List β} {a : α} (ha : I a log)
    (h : ∀ b a log, I a log → Follows log (f a b) I) : Follows log (bs.foldlM f a) I := by
  induction bs generalizing a log with
  | nil => exact pure ha
  | cons b bs ih =>
    rw [List.foldlM_cons]
    exact andThen (h b a log ha) fun a log ha => ih ha

/-- Visiting the pending commands of a list keeps what each step keeps. -/
theorem tellPending {σ : Type} {step : Command → σ → Told (Command × σ)} {I : σ → List Event → Prop}
    {cs : List Command} {s : σ} (hs : I s log)
    (h : ∀ c s log, I s log → Follows log (step c s) fun p => I p.2) :
    Follows log (tellPending step cs s) fun p => I p.2 := by
  unfold TemplateEngine.tellPending
  induction cs generalizing s log with
  | nil => exact pure hs
  | cons c cs ih =>
    have hone : Follows log (if c.isPending then step c s else Pure.pure (c, s)) fun p => I p.2 := by
      split
      · exact h c s log hs
      · exact pure hs
    exact andThen hone fun p log hp => andThen (ih hp) fun q log hq => pure hq

/-! The rules for operations that keep the cursor where it is. -/

theorem silent {x : Except Fault α} {g : α → Run} (h : Kept log owed r)
    (hx : Ends (fun _ => True) x fun a => r.KeepsCursor (g a)) :
    Follows log (Told.silent x) fun a log => Kept log owed (g a) := by
  cases x with
  | error e => exact fault h.sound
  | ok a => exact pure (h.keepsCursor hx)

theorem seen {x : Except Fault α} {document : α → Document} {g : α → Run} (h : Kept log owed r)
    (hdocument : ∀ a, (g a).document = document a)
    (hx : Ends (fun _ => True) x fun a => r.KeepsCursor (g a)) :
    Follows log (Told.seen document x) fun a log => Kept log owed (g a) := by
  cases x with
  | error e => exact fault h.sound
  | ok a =>
    have hstood := (h.keepsCursor hx).stood
    rwa [hdocument] at hstood

theorem seenRun {x : Except Fault (Command × Run)} (h : Kept log owed r)
    (hx : Ends (fun _ => True) x fun p => r.KeepsCursor p.2) :
    Follows log (seenRun x) fun p log => Kept log owed p.2 :=
  seen (g := Prod.snd) h (fun _ => rfl) hx

/-- An operation that was refused changes nothing. -/
theorem attempted {x : Attempt} (h : Kept log owed r)
    (hx : Ends (fun _ => True) x fun a => ∀ d, a = .ok d → r.document.KeepsCursor d) :
    Follows log (Told.attempted x) fun a log => Kept log owed { r with document := a.toOption.getD r.document } := by
  match x with
  | .error e => exact fault h.sound
  | .ok (.error e) => exact pure h
  | .ok (.ok d) =>
    have hkept : Kept log owed { r with document := d } := h.keepsCursor ⟨hx d rfl, rfl⟩
    exact hkept.stood

end Follows

/-! ### Placeholders -/

section Placeholders

variable {log : List Event} {owed : List Nat} {r : Run}

theorem follows_tellOffer {id : Nat} (h : Kept log (id :: owed) r) :
    Follows log (r.tellOffer id) fun r log => Kept log owed r := by
  unfold Run.tellOffer Run.tellPlace
  cases hflag : r.cursorPlaced with
  | true => exact h.offered (.inl hflag)
  | false =>
    cases hrange : r.document.fieldRange? id with
    | none => exact h.offered (.inr (Option.map_eq_none_iff.1 hrange))
    | some range =>
      have hplaced := (h.placed hflag hrange).stood
      rwa [List.append_assoc, List.append_assoc] at hplaced

theorem follows_tellFill {id : Nat} {ids : List Nat} {argument : String} {arguments : List String}
    (h : Kept log (unfilled (id :: ids) (argument :: arguments)) r) :
    Follows log (tellFill r id argument) fun r log => Kept log (unfilled ids arguments) r := by
  rw [unfilled] at h
  unfold tellFill
  split
  next hempty =>
    rw [if_pos hempty] at h
    exact follows_tellOffer h
  next hfull =>
    rw [if_neg hfull] at h
    refine .andThen (.attempted h (Document.keepsCursor_replacePlaceholder r.document id _)) fun a log h => ?_
    cases a with
    | error e => exact .pure h
    | ok d => exact .pure h

theorem follows_tellFillEach {ids : List Nat} {arguments : List String} (h : Kept log (unfilled ids arguments) r) :
    Follows log (tellFillEach r ids arguments) fun r log => Kept log ((ids.drop arguments.length).take 1) r := by
  induction ids generalizing r arguments log with
  | nil => exact .pure (by simpa [unfilled] using h)
  | cons id ids ih =>
    cases arguments with
    | nil => exact .pure h
    | cons argument arguments => exact .andThen (follows_tellFill h) fun r log h => ih h

theorem follows_tellSettle {jumpMark : Option String} {ids : List Nat} (h : Kept log (ids.take 1) r) :
    Follows log (tellSettle r jumpMark ids) fun r log => Kept log [] r := by
  unfold tellSettle
  cases ids with
  | cons id ids => exact follows_tellOffer h
  | nil =>
    dsimp only
    split
    next target _ =>
      have hjumped := (h.jumped target).stood
      rwa [List.append_assoc] at hjumped
    · exact .pure h

theorem follows_tellFillPlaceholders (policy : Policy) (jumpMark : Option String) (c : Command)
    (arguments : List String) (h : Kept log [] r) :
    Follows log (tellFillPlaceholders policy jumpMark c arguments r) fun r log => Kept log [] r := by
  unfold tellFillPlaceholders
  refine .andThen (P := fun _ log => Kept log (Event.unfilled (.inserted r.document c arguments)) r)
    (.tell (h.inserted c arguments)) fun _ log h => ?_
  rw [Event.unfilled] at h
  split
  next hnone =>
    rw [hnone] at h
    exact .pure h
  next range hrange =>
    rw [hrange] at h
    refine .andThen (follows_tellFillEach h) fun r log h => .andThen (follows_tellSettle h) fun r log h => ?_
    split
    · exact .pure (h.keepsCursor ⟨.refl _, rfl⟩)
    · exact .pure h

end Placeholders

/-! ### Commands -/

section Commands

variable {log : List Event} {r : Run}

theorem follows_tellBetweenMarks (c : Command) (content : Document) (h : Kept log [] r) :
    Follows log (c.tellBetweenMarks r.document content) fun p log => Kept log [] { r with document := p.2.1 } := by
  unfold Command.tellBetweenMarks
  refine .andThen (.attempted h (Document.keepsCursor_setBookmarkText r.document c.bookmark Command.marks))
    fun a log h => ?_
  cases a with
  | error e => exact .pure h
  | ok d =>
    dsimp only
    generalize ({ c with marked := true } : Command) = c
    split
    · exact .pure h
    split
    · exact .pure h
    next between _ =>
      refine .andThen (.attempted h (Document.keepsCursor_insertContent d between content)) fun a log h => ?_
      cases a with
      | error e => exact .pure h
      | ok d => exact .pure h

theorem follows_tellPlaceFragment (request : FragmentRequest) (content : Document) (c : Command) (h : Kept log [] r) :
    Follows log (tellPlaceFragment request content c r) fun p log => Kept log [] p.2.1 := by
  unfold tellPlaceFragment
  split
  next hstyles =>
    exact .seen (g := fun p : Command × Run × Option Refusal => p.2.1) h (fun _ => rfl)
      (Run.KeepsCursor.placeStyles hstyles content c r)
  · exact .andThen (follows_tellBetweenMarks c content h) fun p log h => .pure h

theorem follows_tellInsertFragment (s : Services) (jumpMark : Option String) (request : FragmentRequest)
    (c : Command) (h : Kept log [] r) :
    Follows log (tellInsertFragment s jumpMark request c r) fun p log => Kept log [] p.2 := by
  unfold tellInsertFragment
  dsimp only
  split
  · refine .andThen (.seen (g := id) h (fun _ => rfl) (Run.KeepsCursor.write r c [])) fun r log h => ?_
    exact .pure (h.keepsCursor (.finish r c false))
  split
  next e _ => exact .seenRun h (Run.KeepsCursor.failFragment request _ e c r)
  next content _ =>
    refine .andThen (follows_tellPlaceFragment request content c h) fun p log h => ?_
    obtain ⟨c, r, refusal⟩ := p
    cases refusal with
    | some refusal => exact .seenRun h (Run.KeepsCursor.failFragment request _ _ c r)
    | none =>
      have hfilled : ∀ r log, Kept log [] r → Follows log (pure (r.finish c false)) fun p log => Kept log [] p.2 :=
        fun r log h => .pure (h.keepsCursor (.finish r c false))
      dsimp only
      split
      · exact .andThen (.pure h) hfilled
      · exact .andThen (follows_tellFillPlaceholders s.policy jumpMark c request.arguments h) hfilled

theorem follows_tellPlaceContent (s : Services) (location : String) (c : Command) (h : Kept log [] r) :
    Follows log (tellPlaceContent s location c r) fun p log => Kept log [] p.2 := by
  unfold tellPlaceContent
  split
  · exact .seenRun h (Run.KeepsCursor.fail r c _)
  next content _ =>
    refine .andThen (follows_tellBetweenMarks c content h) fun p log h => ?_
    obtain ⟨c, d, refusal⟩ := p
    cases refusal with
    | some e => exact .seenRun h (Run.KeepsCursor.fail _ c _)
    | none => exact .pure h

theorem follows_tellInsert (s : Services) (jumpMark : Option String) (c : Command) (h : Kept log [] r) :
    Follows log (tellInsert s jumpMark c r) fun p log => Kept log [] p.2 := by
  unfold tellInsert
  split
  · exact follows_tellInsertFragment s jumpMark _ c h
  · unfold tellInsertContent
    split
    · exact .pure (h.keepsCursor (.finish r c false))
    next location contents _ =>
      have hnext : Kept log [] { r with contents } := h.keepsCursor ⟨.refl _, rfl⟩
      refine .andThen (follows_tellPlaceContent s location c hnext) fun p log h => ?_
      exact .pure (h.keepsCursor (.finish p.2 p.1 false))
  · exact .pure h

theorem follows_tellRefresh {d : Document} (e : Element) (h : Kept log [] { r with document := d }) :
    Follows log (tellRefresh d e) fun d log => Kept log [] { r with document := d } := by
  have hone : ∀ e d log, Kept log [] { r with document := d } →
      Follows log (Told.seen id (refreshOne d e)) fun d log => Kept log [] { r with document := d } :=
    fun e d log h => .seen h (fun _ => rfl) ((keepsCursor_refreshOne d e).mono fun d hd => ⟨hd, rfl⟩)
  exact .andThen (.foldlM h hone) fun d log h => hone e d log h

theorem follows_tellUpdateFields (policy : Policy) (c : Command) (h : Kept log [] r) :
    Follows log (tellUpdateFields policy c r) fun p log => Kept log [] p.2 := by
  unfold tellUpdateFields
  split
  · have hupdated : ∀ d log, Kept log [] { r with document := d } →
        Follows log (pure (Run.finish { r with document := d } c (!policy.debug))) fun p log => Kept log [] p.2 :=
      fun d log h => .pure (h.keepsCursor (.finish _ c _))
    dsimp only
    split
    · exact .andThen (.pure h) hupdated
    · exact .andThen (.foldlM h fun e d log h => follows_tellRefresh e h) hupdated
  · exact .pure h

/-! ### Phases -/

theorem follows_tellRound (s : Services) (cs : List Command) (h : Kept log [] r) :
    Follows log (tellRound s cs r) fun p log => Kept log [] p.2.1 := by
  unfold tellRound
  refine .andThen (.tellPending (I := fun r log => Kept log [] r) h
    fun c r log h => .seenRun h (Run.KeepsCursor.executeOverride s.policy c r)) fun p log h => ?_
  refine .andThen (.tellPending (I := fun r log => Kept log [] r) h
    fun c r log h => follows_tellInsert s _ c h) fun p log h => ?_
  exact .pure h

theorem follows_tellRounds (s : Services) (done left : Nat) (cs : List Command) (h : Kept log [] r) :
    Follows log (tellRounds s done left cs r) fun p log => Kept log [] p.2.2 := by
  induction left generalizing done cs r log with
  | zero => exact .pure h
  | succ left ih =>
    refine .andThen (follows_tellRound s cs h) fun p log h => ?_
    obtain ⟨cs, r, changed⟩ := p
    cases changed with
    | false => exact .pure h
    | true => exact ih (done + 1) cs h

theorem follows_tellLocked {step : Command → Run → Told (Command × Run)} (cs : List Command) (h : Kept log [] r)
    (hstep : ∀ c r log, Kept log [] r → Follows log (step c r) fun p log => Kept log [] p.2) :
    Follows log (tellLocked step cs r) fun p log => Kept log [] p.2 := by
  have hlocked : Kept log [] { r with document := r.document.lock } := h.keepsCursor ⟨.of_eq rfl rfl rfl, rfl⟩
  refine .andThen (.tellPending (I := fun r log => Kept log [] r) hlocked hstep) fun p log h => ?_
  exact .pure (h.keepsCursor ⟨.of_eq rfl rfl rfl, rfl⟩)

theorem follows_tellCollectGarbage (policy : Policy) (cs : List Command) (h : Kept log [] r) :
    Follows log (tellCollectGarbage policy cs r.document) fun p log => Kept log [] { r with document := p.2 } := by
  unfold tellCollectGarbage
  refine .andThen (.silent (g := fun p => { r with document := p.2.1 }) h
    ((keepsCursor_collect policy cs r.document).mono fun p hp => ⟨hp, rfl⟩)) fun p log h => ?_
  obtain ⟨cs, d, cleaners⟩ := p
  have hlocked : Kept log [] { r with document := d.lock } := h.keepsCursor ⟨.of_eq rfl rfl rfl, rfl⟩
  refine .andThen (.foldlM (I := fun d log => Kept log [] { r with document := d }) hlocked fun c d log h =>
    .seen h (fun _ => rfl) ((keepsCursor_applyCleaner d c).mono fun d hd => ⟨hd, rfl⟩)) fun d log h => ?_
  exact .pure (h.keepsCursor ⟨.of_eq rfl rfl rfl, rfl⟩)

theorem follows_tellComplete (s : Services) (cs : List Command) (h : Kept log [] r) :
    Follows log (tellComplete s cs r) fun p log => Kept log [] p.2 := by
  unfold tellComplete
  refine .andThen (follows_tellLocked cs h fun c r log h => follows_tellUpdateFields s.policy c h)
    fun p log h => ?_
  refine .andThen (follows_tellLocked p.1 h fun c r log h => .seenRun h (Run.KeepsCursor.fillIn s c r)) fun p log h => ?_
  exact .andThen (follows_tellCollectGarbage s.policy p.1 h) fun p log h => .pure h

/-! ### Whole runs -/

theorem kept_start {r : Run} (hr : r.document.Numbered) (hflag : r.cursorPlaced = false) : Kept [] [] r where
  numbered := hr
  faithful := trivial
  watched _ hid := nomatch hid
  reserved _ hid := nomatch hid
  flag := by simp [hflag, placements]
  first := rfl
  order := rfl

theorem follows_tellTemplate (m : Model) (s : Services) (hm : m.document.Numbered) :
    Follows [] (m.tellTemplate s) fun o log => SoundHistory log ∧ (offers log).map (·.2) = allUnfilled log ∧
      log.getLast? = some (.stood o.model.document) := by
  have hstart : Kept [] [] m.enter.startRun := kept_start ⟨hm.ids, hm.fresh⟩ rfl
  unfold Model.tellTemplate
  refine .andThen (follows_tellRounds s 0 maxRounds m.enter.commands hstart) fun p log h => ?_
  refine .andThen (follows_tellComplete s p.2.1 h) fun q log h => ?_
  obtain ⟨commands, r⟩ := q
  let d := (r.document.setModified m.document.modified).setModifiable true
  have hleft : Kept log [] { r with document := d } := h.keepsCursor ⟨.of_eq rfl rfl rfl, rfl⟩
  refine .andThen (P := fun _ log => Kept log [] { r with document := d } ∧ log.getLast? = some (.stood d))
    (.tell ⟨hleft.stood, List.getLast?_concat⟩) fun _ log h => ?_
  exact .pure ⟨h.1.sound, by simpa using h.1.order, h.2⟩

end Commands

/-- A history in which the cursor was put on a placeholder has it there until it goes to the jump mark. -/
theorem SoundHistory.cursorOn {pre mid post : List Event} {id : Nat} {d : Document}
    (h : SoundHistory (pre ++ .placed id :: mid ++ .stood d :: post)) (hjump : .jumped ∉ mid) : d.CursorOn id := by
  have hmid : placements mid = [] := by
    have hlength := congrArg List.length h.first
    have hone : (firstOffer? (pre ++ .placed id :: mid ++ .stood d :: post)).toList.length ≤ 1 := by
      cases firstOffer? (pre ++ .placed id :: mid ++ .stood d :: post) <;> simp
    have hplaced : placements (.placed id :: mid) = id :: placements mid := rfl
    rw [placements_append, placements_append, hplaced] at hlength
    simp only [List.length_append, List.length_cons] at hlength
    exact List.length_eq_zero_iff.1 (by omega)
  have hon := (faithful_append.1 h.faithful).2.1
  rw [List.foldl_append, List.foldl_cons, Event.watch,
    foldl_watch_eq (fun e he hjumped => hjump (hjumped ▸ he)) hmid] at hon
  exact hon id rfl

/-- The cursor is put on a placeholder at most once, on the first one left without a text that is still there, and
from then on it covers what the placeholder covers, until it is put on the jump mark. -/
theorem executeTemplate_cursor (m : Model) (s : Services) (hm : m.document.Numbered) :
    let log := (m.tellTemplate s).events
    (m.tellTemplate s).result = m.executeTemplate s ∧
      placements log = (firstOffer? log).toList ∧
      (offers log).map (·.2) <+: allUnfilled log ∧
      (∀ o, m.executeTemplate s = .ok o →
        (offers log).map (·.2) = allUnfilled log ∧ log.getLast? = some (.stood o.model.document)) ∧
      ∀ pre id mid d post, log = pre ++ .placed id :: mid ++ .stood d :: post → .jumped ∉ mid →
        ∀ f, d.field? id = some f → d.cursor = some f.span := by
  intro log
  have hresult := result_tellTemplate m s
  have hfollows : Follows [] (m.tellTemplate s) _ := follows_tellTemplate m s hm
  have hsound : SoundHistory log := by
    unfold Follows at hfollows
    split at hfollows
    · exact hfollows.1
    · exact hfollows
  refine ⟨hresult, hsound.first, hsound.order, fun o ho => ?_, fun pre id mid d post hlog hjump => ?_⟩
  · unfold Follows at hfollows
    rw [hresult, ho] at hfollows
    exact hfollows.2
  · exact (hlog ▸ hsound).cursorOn hjump

/-- Surroundings where every fragment is a form of address without the name. -/
def addressForm : Services where
  locations := fun id => [id]
  load := fun _ => .ok { Document.ofText "To N".toList with
    fields := [⟨0, .placeholder "N", ⟨3, 4⟩⟩]
    nextFieldId := 1 }
  value := fun column => .ok column
  transform := fun name _ => .error (.unknown name)
  policy := ⟨true, false⟩

/-- A document that asks for it. -/
def unaddressed : Document :=
  { Document.ofText ['?'] with bookmarks := [⟨"DOC(CMD 'insertFrag' FRAG_ID 'f')", ⟨0, 1⟩⟩] }

/-- What happens when it is executed. -/
def addressLog : List Event := ((Model.ofDocument unaddressed).tellTemplate addressForm).events

/-- Once placed, the cursor is on the name to the end, when the marks in front of it are gone. -/
theorem executeTemplate_cursor_addressForm :
    ∃ o, (Model.ofDocument unaddressed).executeTemplate addressForm = .ok o ∧
      placements addressLog = [0] ∧ firstOffer? addressLog = some 0 ∧ .jumped ∉ addressLog ∧
      o.model.document.field? 0 = some ⟨0, .placeholder "N", ⟨3, 4⟩⟩ ∧
      o.model.document.cursor = some ⟨3, 4⟩ := by
  have hevents : ((Model.ofDocument unaddressed).tellTemplate addressForm).events = addressLog := rfl
  obtain ⟨-, hfirst, -, hok, hcursor⟩ := executeTemplate_cursor (.ofDocument unaddressed) addressForm
    ⟨by decide, by decide⟩
  rw [hevents] at hfirst hok hcursor
  have hplaced : placements addressLog = [0] := by cbv
  have hcontains : addressLog.contains .jumped = false := by cbv
  have hfield : ((Model.ofDocument unaddressed).executeTemplate addressForm).toOption.bind
      (·.model.document.field? 0) = some ⟨0, .placeholder "N", ⟨3, 4⟩⟩ := by cbv
  clear hevents
  -- from here on nothing is to be evaluated
  generalize addressLog = log, (Model.ofDocument unaddressed).executeTemplate addressForm = ended at *
  have hjump : .jumped ∉ log := by simpa using hcontains
  cases ended with
  | error e => cases hfield
  | ok o =>
    obtain ⟨events, hlog⟩ := List.getLast?_eq_some_iff.1 (hok o rfl).2
    have hmem : .placed 0 ∈ events := by
      obtain ⟨e, he, hplacement⟩ := List.mem_filterMap.1 (show 0 ∈ placements log by simp [hplaced])
      cases e with
      | placed id =>
        obtain rfl : id = 0 := Option.some.inj hplacement
        simpa [hlog] using he
      | _ => cases hplacement
    obtain ⟨pre, mid, hevents⟩ := List.append_of_mem hmem
    have hon := hcursor pre 0 mid o.model.document [] (by rw [hlog, hevents])
      (fun hmid => hjump (by simp [hlog, hevents, hmid])) _ hfield
    exact ⟨o, rfl, hplaced, Option.toList_eq_singleton_iff.1 (hfirst.symm.trans hplaced), hjump, hfield, hon⟩

end TemplateEngine
