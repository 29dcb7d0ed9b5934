import TemplateEngine.Process.Pipeline
import TemplateEngine.Proofs.Tree

/-!
# Declarations — what a scan of the settings does

A scan never fails, and what it does can be read off the list of commands: which bookmarks go
(`consumed`) and which type the document has afterwards (`declaredType?`).  `Heeds` says so for any list;
it holds of one command and is put together along the list.  A document just scanned holds no more
command that a scan would consume (`isConsumed_of_mem_ofDocument`).
-/

namespace TemplateEngine

/-! ### What the commands of a list declare -/

namespace CommandKind

/-- The type that a command of this kind declares. -/
def declaredType? : CommandKind → Option DocumentType
  | .setType t => some t
  | _ => none

/-- Whether a scan takes the bookmark of a pending command of this kind away. -/
def isConsumed (hasLocation : Bool) : CommandKind → Bool
  | .setType t => !(hasLocation && t == .templateTemplate)
  | .setPrintFunction _ => true
  | _ => false

end CommandKind

namespace Command

/-- Whether a scan takes the bookmark of a command away. -/
def isConsumed (hasLocation : Bool) (c : Command) : Bool := c.isPending && c.kind.isConsumed hasLocation

/-- What a scan makes of a command. -/
def scanned (hasLocation : Bool) (c : Command) : Command :=
  if c.isConsumed hasLocation then { c with done := true } else c

/-- The bookmarks that a scan takes away. -/
def consumed (hasLocation : Bool) (cs : List Command) : List String :=
  (cs.filter (·.isConsumed hasLocation)).map (·.bookmark)

/-- The first type that pending commands declare. -/
def declaredType? (cs : List Command) : Option DocumentType :=
  cs.findSome? fun c => if c.isPending then c.kind.declaredType? else none

variable {hasLocation : Bool} {c : Command} {cs ds : List Command}

theorem mem_consumed_iff {n : String} :
    n ∈ consumed hasLocation cs ↔ ∃ c ∈ cs, c.isConsumed hasLocation = true ∧ c.bookmark = n := by
  simp [consumed, and_assoc]

theorem consumed_append :
    consumed hasLocation (cs ++ ds) = consumed hasLocation cs ++ consumed hasLocation ds := by
  simp [consumed]

theorem declaredType?_append :
    declaredType? (cs ++ ds) = (declaredType? cs).or (declaredType? ds) :=
  List.findSome?_append

@[simp] theorem bookmark_scanned : (c.scanned hasLocation).bookmark = c.bookmark := by
  unfold scanned
  split <;> rfl

@[simp] theorem config_scanned : (c.scanned hasLocation).config = c.config := by
  unfold scanned
  split <;> rfl

/-- A command that is done and whose bookmark goes, if it is there. -/
theorem markDone_remove (c : Command) (d : Document) :
    c.markDone d true =
      ({ c with done := true }, { d with bookmarks := d.bookmarks.filter (·.name ≠ c.bookmark) }) := by
  unfold markDone Document.removeBookmark
  simp only [if_true]
  by_cases hb : c.bookmark ∈ d.names
  · rw [if_pos (Document.isSome_bookmark?_iff.2 hb)]
  · have hall : d.bookmarks.filter (·.name ≠ c.bookmark) = d.bookmarks := by
      rw [List.filter_eq_self]
      intro b hb'
      have hne : b.name ≠ c.bookmark := fun h => hb (h ▸ List.mem_map_of_mem hb')
      simpa using hne
    rw [if_neg fun h => hb (Document.isSome_bookmark?_iff.1 h), hall]

end Command

theorem names_markDone_remove (c : Command) (d : Document) :
    (c.markDone d true).2.names.Sublist d.names := by
  rw [Command.markDone_remove]
  exact List.filter_sublist.map _

theorem sameParts_addPrintFunction (settings : Settings) (d : Document) (function : String) :
    SameParts d (settings.addPrintFunction d function).2 := by
  unfold Settings.addPrintFunction
  split
  · exact .refl d
  · exact .setPersistentData d _ _

/-- The type that the metadata keep is not touched by a print function. -/
theorem keptType_addPrintFunction (settings : Settings) (d : Document) (function : String) :
    (settings.addPrintFunction d function).2.persistentData? documentTypeKey =
      d.persistentData? documentTypeKey := by
  unfold Settings.addPrintFunction
  split
  · rfl
  · exact (Dictionary.get?_insert _ _ _ _).trans (if_neg (by decide))

/-! ### A scan along its list -/

/-- What a scan does with the commands of a list. -/
structure Heeds (hasLocation : Bool) (cs : List Command) (s : Scan) (cs' : List Command) (s' : Scan) :
    Prop where
  commands : cs' = cs.map (·.scanned hasLocation)
  parts : SameParts
    { s.document with
      bookmarks := s.document.bookmarks.filter (·.name ∉ Command.consumed hasLocation cs) }
    s'.document
  location : s'.document.location = s.document.location
  /-- The type kept in the metadata is neither written nor taken away. -/
  keptType : s'.document.persistentData? documentTypeKey = s.document.persistentData? documentTypeKey
  type? : s'.settings.type? = s.settings.type?.or (Command.declaredType? cs)

namespace Heeds

variable {hasLocation : Bool} {c : Command} {cs cs' ds ds' : List Command} {s : Scan}

theorem nil (hasLocation : Bool) (s : Scan) : Heeds hasLocation [] s [] s :=
  ⟨rfl, ⟨rfl, by simp [Command.consumed], rfl, rfl, rfl, rfl, rfl⟩, rfl, rfl,
    by simp [Command.declaredType?]⟩

/-- Two lists one after the other. -/
theorem append {s' s'' : Scan} (h : Heeds hasLocation cs s cs' s')
    (h' : Heeds hasLocation ds s' ds' s'') : Heeds hasLocation (cs ++ ds) s (cs' ++ ds') s'' where
  commands := by rw [h.commands, h'.commands, List.map_append]
  parts := by
    refine ⟨h'.parts.text.trans h.parts.text, ?_, h'.parts.fields.trans h.parts.fields,
      h'.parts.annotations.trans h.parts.annotations, h'.parts.cursor.trans h.parts.cursor,
      h'.parts.values.trans h.parts.values, h'.parts.nextFieldId.trans h.parts.nextFieldId⟩
    rw [h'.parts.bookmarks, h.parts.bookmarks, List.filter_filter, Command.consumed_append]
    exact List.filter_congr fun b _ => by simp [Bool.and_comm]
  location := h'.location.trans h.location
  keptType := h'.keptType.trans h.keptType
  type? := by rw [h'.type?, h.type?, Command.declaredType?_append, Option.or_assoc]

/-- A command whose bookmark stays, though it may declare a type. -/
theorem pass (hc : c.isConsumed hasLocation = false) {settings : Settings}
    (ht : settings.type? = s.settings.type?.or (Command.declaredType? [c])) :
    Heeds hasLocation [c] s [c] { s with settings } where
  commands := by simp [Command.scanned, hc]
  parts := ⟨rfl, by simp [Command.consumed, hc], rfl, rfl, rfl, rfl, rfl⟩
  location := rfl
  keptType := rfl
  type? := ht

/-- A command whose bookmark goes, whatever else became of the metadata. -/
theorem consume (s' : Scan) (hc : c.isConsumed hasLocation = true)
    (hparts : SameParts s.document s'.document) (hlocation : s'.document.location = s.document.location)
    (hkept : s'.document.persistentData? documentTypeKey =
      s.document.persistentData? documentTypeKey)
    (ht : s'.settings.type? = s.settings.type?.or (Command.declaredType? [c])) :
    Heeds hasLocation [c] s [(s'.consume c).1] (s'.consume c).2 := by
  rw [Scan.consume, Command.markDone_remove]
  exact
    { commands := by simp [Command.scanned, hc]
      parts := ⟨hparts.text, by simp [Command.consumed, hc, hparts.bookmarks], hparts.fields,
        hparts.annotations, hparts.cursor, hparts.values, hparts.nextFieldId⟩
      location := hlocation
      keptType := hkept
      type? := ht }

end Heeds

/-- A command that no scan executes. -/
theorem Heeds.skip {hasLocation : Bool} {c : Command} (hidle : c.isPending = false) (s : Scan) :
    Heeds hasLocation [c] s [c] s :=
  .pass (by simp [Command.isConsumed, hidle]) (by simp [Command.declaredType?, hidle])

theorem heeds_scanCommand {hasLocation : Bool} {c : Command} (hpending : c.isPending = true) (s : Scan) :
    Ends (fun _ => False) (scanCommand hasLocation c s) fun p => Heeds hasLocation [c] s [p.1] p.2 := by
  have hconsumed : c.isConsumed hasLocation = c.kind.isConsumed hasLocation := by
    simp [Command.isConsumed, hpending]
  have htype : Command.declaredType? [c] = c.kind.declaredType? := by
    simp [Command.declaredType?, hpending]
  unfold scanCommand
  split
  next t hkind =>
    have ht : (s.settings.declareType t).type? = s.settings.type?.or (Command.declaredType? [c]) := by
      rw [htype, hkind]
      cases hs : s.settings.type? <;> simp [Settings.declareType, CommandKind.declaredType?, hs]
    rw [hkind, CommandKind.isConsumed] at hconsumed
    dsimp only
    split
    next hstays => exact .pass (by simp [hconsumed, hstays]) ht
    next hgoes =>
      rw [Bool.not_eq_true] at hgoes
      exact .consume { s with settings := s.settings.declareType t } (by simp [hconsumed, hgoes])
        (.refl s.document) rfl rfl ht
  next function hkind =>
    have ht : (s.settings.addPrintFunction s.document function).1.type? =
        s.settings.type?.or (Command.declaredType? [c]) := by
      have hnone : Command.declaredType? [c] = none := by
        rw [htype, hkind]
        rfl
      rw [hnone, Option.or_none]
      unfold Settings.addPrintFunction
      split <;> rfl
    have hlocation : (s.settings.addPrintFunction s.document function).2.location =
        s.document.location := by
      unfold Settings.addPrintFunction
      split <;> rfl
    exact .consume ⟨_, _⟩ (by rw [hconsumed, hkind]; rfl) (sameParts_addPrintFunction _ _ _) hlocation
      (keptType_addPrintFunction _ _ _) ht
  next hother₁ hother₂ =>
    refine .pass ?_ ?_
    · rw [hconsumed]
      unfold CommandKind.isConsumed
      split
      next hkind => exact absurd hkind (hother₁ _)
      next hkind => exact absurd hkind (hother₂ _)
      next => rfl
    · rw [htype]
      unfold CommandKind.declaredType?
      split
      next hkind => exact absurd hkind (hother₁ _)
      next => exact (Option.or_none).symm

/-- A scan always ends, and it heeds every command of its list. -/
theorem heeds_visitPending {hasLocation : Bool} {cs : List Command} (s : Scan) :
    Ends (fun _ => False) (visitPending (scanCommand hasLocation) cs s) fun p =>
      Heeds hasLocation cs s p.1 p.2 := by
  have hvisit : Ends (fun _ => False) (visitPending (scanCommand hasLocation) cs s) fun p =>
      ∃ seen, cs = seen ++ [] ∧ Heeds hasLocation seen s p.1 p.2 := Ends.visitPending
    (I := fun before after s' => ∃ seen, cs = seen ++ after ∧ Heeds hasLocation seen s before s')
    ⟨[], rfl, .nil hasLocation s⟩
    (fun before c after s' hidle ⟨seen, hcs, h⟩ =>
      ⟨seen ++ [c], by simp [hcs], h.append (.skip hidle s')⟩)
    (fun before c after s' hpending ⟨seen, hcs, h⟩ =>
      (heeds_scanCommand hpending s').mono fun p hp => ⟨seen ++ [c], by simp [hcs], h.append hp⟩)
  refine hvisit.mono ?_
  rintro p ⟨seen, hcs, h⟩
  rwa [hcs, List.append_nil]

/-! ### Scanned models -/

/-- What a scan does with a model. -/
structure Model.Scanned (m m' : Model) : Prop where
  heeds : Heeds m.document.hasLocation m.commands ⟨m.document, m.settings⟩ m'.commands
    ⟨m'.document, m'.settings⟩
  mustProcess : m'.mustProcess = m.mustProcess

theorem scanned_scanSettings (m : Model) :
    Ends (fun _ => False) m.scanSettings m.Scanned := by
  unfold Model.scanSettings
  refine Ends.andThen (heeds_visitPending ⟨m.enter.document, m.settings⟩) fun p hp => ?_
  exact ⟨⟨hp.commands, ⟨hp.parts.text, hp.parts.bookmarks, hp.parts.fields, hp.parts.annotations,
    hp.parts.cursor, hp.parts.values, hp.parts.nextFieldId⟩, hp.location, hp.keptType, hp.type?⟩, rfl⟩

namespace Model.Scanned

variable {m m' : Model}

theorem names (h : m.Scanned m') : m'.document.names =
    m.document.names.filter (· ∉ Command.consumed m.document.hasLocation m.commands) := by
  have hbookmarks : m'.document.bookmarks = _ := h.heeds.parts.bookmarks
  simp [Document.names, hbookmarks, List.filter_map, Function.comp_def]

theorem hasLocation (h : m.Scanned m') : m'.document.hasLocation = m.document.hasLocation :=
  congrArg Option.isSome h.heeds.location

/-- A bookmark that is still there after a scan is none of those that go. -/
theorem isConsumed_of_bookmark_mem (h : m.Scanned m') {c : Command} (hc : c ∈ m.commands)
    (hn : c.bookmark ∈ m'.document.names) : c.isConsumed m.document.hasLocation = false := by
  rw [h.names, List.mem_filter] at hn
  by_contra hcons
  simp only [Bool.not_eq_false] at hcons
  exact (of_decide_eq_true hn.2) (Command.mem_consumed_iff.2 ⟨c, hc, hcons, rfl⟩)

/-- A document whose own commands were scanned holds none that a scan would consume. -/
theorem isConsumed_of_mem_ofDocument (h : m.Scanned m')
    (hm : m.commands = Command.ofDocument m.document) {c : Command}
    (hc : c ∈ Command.ofDocument m'.document) : c.isConsumed m.document.hasLocation = false := by
  obtain ⟨n, hn, hc⟩ := Command.mem_ofDocument_iff.1 hc
  have hold : n ∈ m.document.names := by
    rw [h.names] at hn
    exact (List.mem_filter.1 hn).1
  refine h.isConsumed_of_bookmark_mem (hm ▸ Command.mem_ofDocument_iff.2 ⟨n, hold, hc⟩) ?_
  rwa [Command.bookmark_of_ofBookmark? hc]

end Model.Scanned

end TemplateEngine
