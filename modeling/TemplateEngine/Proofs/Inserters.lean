import TemplateEngine.Proofs.Expanding

/-!
# Inserters — whether a command inserts, by its name

Whether a command inserts contents is told by its name, and recording its state does not change that
(`isInsertion_setState`).  So a command that inserts and one that does not never have one name
(`Command.IsNamed`), whatever happens to their bookmarks.
-/

namespace TemplateEngine

open CommandKind

/-! ### The state in a node -/

theorem childValue?_setState {n state : Node} (h : state.name = "STATE") {key : String}
    (hkey : key ≠ "STATE") : (n.setChild state).childValue? key = n.childValue? key := by
  rw [Node.childValue?, Node.child?_setChild_of_ne (h ▸ hkey), Node.childValue?]

theorem fragmentRequest_setState {n state : Node} (h : state.name = "STATE") :
    fragmentRequest (n.setChild state) = fragmentRequest n := by
  have hlisted : ∀ key, key ≠ "STATE" → listed (n.setChild state) key = listed n key := fun key hkey => by
    rw [listed, Node.child?_setChild_of_ne (h ▸ hkey), listed]
  unfold fragmentRequest required
  rw [childValue?_setState h (by decide), childValue?_setState h (by decide), hlisted _ (by decide),
    hlisted _ (by decide)]

/-- The state of a command does not tell whether it inserts. -/
theorem isInsertion_setState {n state : Node} (h : state.name = "STATE") :
    (CommandKind.ofNode (n.setChild state)).isInsertion = (CommandKind.ofNode n).isInsertion := by
  let inserts : Except Defect CommandKind → Bool := fun x =>
    (x.map CommandKind.isInsertion).toOption.getD false
  have hread : ∀ n, (CommandKind.ofNode n).isInsertion = inserts (CommandKind.read n) := fun n => by
    unfold CommandKind.ofNode
    cases CommandKind.read n <;> rfl
  rw [hread, hread]
  unfold CommandKind.read
  rw [childValue?_setState h (by decide), fragmentRequest_setState h]
  cases n.childValue? "CMD" with
  | none => rfl
  | some cmd =>
    dsimp only
    generalize cmd.toLower = word
    -- only the kinds that do not insert are read from what can change
    split <;> try rfl
    case h_3 => cases valueRequest (n.setChild state) <;> cases valueRequest n <;> rfl
    case h_4 => cases required (n.setChild state) "ID" <;> cases required n "ID" <;> rfl
    case h_5 => cases required (n.setChild state) "FRAG_ID" <;> cases required n "FRAG_ID" <;> rfl
    case h_7 => cases declaredType (n.setChild state) <;> cases declaredType n <;> rfl
    case h_8 => cases required (n.setChild state) "FUNCTION" <;> cases required n "FUNCTION" <;> rfl
    case h_12 => cases PrintBlock.ofName? word <;> rfl

/-! ### Named commands -/

namespace Command

/-- What is noted about a command and the name of its bookmark agree on whether it inserts. -/
structure IsNamed (c : Command) : Prop where
  isCommand : c.config.IsCommand
  config : (CommandKind.ofNode c.config).isInsertion = c.kind.isInsertion
  name : ∃ c₀, ofBookmark? c.bookmark = some c₀ ∧ c₀.kind.isInsertion = c.kind.isInsertion

theorem isNamed_of_ofBookmark? {name : String} {c : Command} (h : ofBookmark? name = some c) :
    c.IsNamed where
  isCommand := isCommand_of_ofBookmark? h
  config := by
    unfold ofBookmark? at h
    obtain ⟨t, -, rfl⟩ := Option.map_eq_some_iff.1 h
    cases parseNode t <;> rfl
  name := ⟨c, by rw [bookmark_of_ofBookmark? h, h], rfl⟩

theorem IsNamed.isInsertion_eq {c c' : Command} (h : c.IsNamed) (h' : c'.IsNamed)
    (hb : c.bookmark = c'.bookmark) : c.kind.isInsertion = c'.kind.isInsertion := by
  obtain ⟨c₀, hc₀, hk⟩ := h.name
  obtain ⟨c₁, hc₁, hk'⟩ := h'.name
  rw [hb, hc₁] at hc₀
  obtain rfl := Option.some.inj hc₀
  rw [← hk, hk']

/-- The flags and the recorded state of a named command may change. -/
theorem IsNamed.of_eq {c c' : Command} (h : c.IsNamed) (hb : c'.bookmark = c.bookmark)
    (hk : c'.kind = c.kind) (hconfig : c'.config = c.config) : c'.IsNamed :=
  ⟨hconfig ▸ h.isCommand, by rw [hconfig, hk, h.config], by rw [hb, hk]; exact h.name⟩

theorem marked_recordState (c : Command) : c.recordState.marked = c.marked := by
  rw [recordState]
  split <;> rfl

theorem kind_markDone (c : Command) (d : Document) (remove : Bool) :
    (c.markDone d remove).1.kind = c.kind := by
  unfold markDone
  dsimp only
  split
  · split <;> rfl
  · split <;> exact kind_recordState _

theorem marked_markDone (c : Command) (d : Document) (remove : Bool) :
    (c.markDone d remove).1.marked = c.marked := by
  unfold markDone
  dsimp only
  split
  · split <;> rfl
  · split <;> exact marked_recordState _

theorem IsNamed.recordState {c : Command} (h : c.IsNamed) : c.recordState.IsNamed := by
  have hconfig : (CommandKind.ofNode c.recordState.config).isInsertion = c.kind.isInsertion := by
    unfold Command.recordState
    dsimp only
    split
    · exact h.config
    · rw [isInsertion_setState (isState_stateNode h.isCommand).name]
      exact h.config
  refine ⟨isCommand_recordState h.isCommand, ?_, ?_⟩
  · rw [kind_recordState, hconfig]
  · rw [bookmark_recordState, kind_recordState]
    exact h.name

/-- A done command with its state in the name of its bookmark. -/
theorem IsNamed.recorded {c : Command} (h : c.IsNamed) (hdone : c.done = true) {name : String}
    (hname : Variant (toString c.recordState.config) name) :
    ({ c.recordState with bookmark := name } : Command).IsNamed := by
  have hrec := h.recordState
  refine ⟨hrec.isCommand, hrec.config, _, ofBookmark?_recorded h.isCommand hdone hname, ?_⟩
  exact hrec.config

theorem IsNamed.markDone {c : Command} (h : c.IsNamed) (d : Document) (remove : Bool) :
    (c.markDone d remove).1.IsNamed := by
  have hdone : IsNamed { c with done := true } := h.of_eq rfl rfl rfl
  cases remove with
  | true =>
    simp only [Command.markDone, if_true]
    split <;> exact hdone
  | false =>
    simp only [Command.markDone, Bool.false_eq_true, if_false]
    split
    next d' name hrename => exact hdone.recorded rfl (Document.variant_renameBookmark hrename)
    · exact hdone.recordState

end Command

/-! ### Insertions -/

section Steps

variable {s : Services} {c : Command} {r : Run}

theorem isNamed_fail (h : c.IsNamed) (r : Run) (reason : String) :
    Ends (fun _ => True) (r.fail c reason) fun p => p.1.IsNamed := by
  refine (r.fail_spec c reason).mono ?_
  rintro p ⟨d, -, rfl⟩
  exact h.of_eq rfl rfl rfl

theorem isNamed_failFragment (h : c.IsNamed) (request : FragmentRequest) (id : String)
    (e : InsertionError) (r : Run) :
    Ends (fun _ => True) (failFragment request id e c r) fun p => p.1.IsNamed := by
  unfold failFragment
  split
  · exact h.of_eq rfl rfl rfl
  · exact isNamed_fail h r _

theorem isNamed_insertBetweenMarks (h : c.IsNamed) (d content : Document) :
    Ends (fun _ => True) (c.insertBetweenMarks d content) fun p => p.1.IsNamed := by
  have hmarked : Command.IsNamed { c with marked := true } := h.of_eq rfl rfl rfl
  unfold Command.insertBetweenMarks
  refine Ends.afterAny fun a => ?_
  cases a with
  | error e => exact h
  | ok d =>
    dsimp only
    split
    · exact hmarked
    split
    · exact hmarked
    refine Ends.afterAny fun a => ?_
    cases a <;> exact hmarked

theorem isNamed_placeFragment (h : c.IsNamed) (request : FragmentRequest) (content : Document) (r : Run) :
    Ends (fun _ => True) (placeFragment request content c r) fun p => p.1.IsNamed := by
  unfold placeFragment
  split
  · refine Ends.afterAny fun a => ?_
    cases a <;> exact h
  · exact Ends.andThen (isNamed_insertBetweenMarks h _ content) fun p hp => hp

theorem isNamed_insertFragment (h : c.IsNamed) (jumpMark : Option String) (request : FragmentRequest) :
    Ends (fun _ => True) (insertFragment s jumpMark request c r) fun p => p.1.IsNamed := by
  unfold insertFragment
  dsimp only
  split
  · refine Ends.afterAny fun r' => ?_
    exact h.markDone r'.document false
  split
  · exact isNamed_failFragment h request _ _ r
  next content _ =>
    refine Ends.andThen (isNamed_placeFragment h request content r) fun p hp => ?_
    obtain ⟨c', r', refusal⟩ := p
    cases refusal with
    | some refusal => exact isNamed_failFragment hp request _ _ r'
    | none =>
      have hfinish : ∀ x : Except Fault Run, Ends (fun _ => True)
          (x >>= fun r => pure (r.finish c' false)) fun p => p.1.IsNamed := fun x =>
        Ends.bind (Ends.of_forall fun r' _ => Command.IsNamed.markDone hp r'.document false)
      dsimp only
      split
      · exact hfinish (.ok r')
      · exact hfinish _

theorem isNamed_insertContent (h : c.IsNamed) :
    Ends (fun _ => True) (insertContent s c r) fun p => p.1.IsNamed := by
  unfold insertContent
  split
  · exact h.markDone r.document false
  next location contents _ =>
    refine Ends.andThen (P := fun p => p.1.IsNamed) ?_ fun p hp => hp.markDone p.2.document false
    unfold placeContent
    split
    · exact isNamed_fail h _ _
    next content _ =>
      refine Ends.andThen (isNamed_insertBetweenMarks h _ content) fun p hp => ?_
      obtain ⟨c', d', refusal⟩ := p
      cases refusal with
      | some e => exact isNamed_fail hp _ _
      | none => exact hp

/-- Inserting keeps the name of a command and what is noted about it in agreement. -/
theorem isNamed_executeInsert (h : c.IsNamed) (jumpMark : Option String) :
    Ends (fun _ => True) (executeInsert s jumpMark c r) fun p => p.1.IsNamed := by
  unfold executeInsert
  split
  · exact isNamed_insertFragment h jumpMark _
  · exact isNamed_insertContent h
  · exact h

end Steps

end TemplateEngine
