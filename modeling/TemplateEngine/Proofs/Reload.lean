import Mathlib
import TemplateEngine.Proofs.Inserters

/-!
# Reload — a finished command stays finished

A command that is done and keeps its bookmark gets a name that tells its state.  Reading that name finds
the command again: done, with the same failure flag, with a node that differs in its state only
(`stillDone_recordState`), and of the same kind, unless the old state held a key that is read at any depth
(`ofNode_setState`).
-/

namespace TemplateEngine

/-! ### Keys that are read at any depth -/

namespace Node

/-- The keys that are read wherever they stand below the node of a command. -/
def deepKeys : List String := ["AUTOSEP", "SEPARATOR", "HIGHLIGHT_COLOR"]

/-- Whether none of these keys stands below a node. -/
def IsShallow (n : Node) : Prop := ∀ m ∈ n.descendants, m.name ∉ deepKeys

/-- Whether none of these keys stands below a state of a command. -/
def StateIsShallow (n : Node) : Prop := ∀ s ∈ n.children, s.name = "STATE" → s.IsShallow

theorem descendantsOfAll_append (cs ds : List Node) :
    descendantsOfAll (cs ++ ds) = descendantsOfAll cs ++ descendantsOfAll ds := by
  induction cs with
  | nil => rfl
  | cons c cs ih => simp [descendantsOfAll, ih]

theorem descendants_eq (n : Node) : n.descendants = descendantsOfAll n.children := by
  obtain ⟨name, cs⟩ := n
  rw [descendants, children_mk]

theorem mem_descendantsOfAll {m : Node} {cs : List Node} :
    m ∈ descendantsOfAll cs ↔ ∃ c ∈ cs, m = c ∨ m ∈ c.descendants := by
  induction cs with
  | nil => simp [descendantsOfAll]
  | cons c cs ih => simp [descendantsOfAll, ih, or_assoc]

/-- Children that neither have a name nor hold it below do not matter to who looks for it. -/
theorem filter_descendantsOfAll_filter {p : Node → Bool} {key : String} {cs : List Node}
    (h : ∀ c ∈ cs, p c = false → c.name ≠ key ∧ ∀ m ∈ c.descendants, m.name ≠ key) :
    (descendantsOfAll (cs.filter p)).filter (·.name = key) =
      (descendantsOfAll cs).filter (·.name = key) := by
  induction cs with
  | nil => rfl
  | cons c cs ih =>
    have ih := ih fun d hd => h d (List.mem_cons_of_mem _ hd)
    cases hp : p c with
    | true => simp [hp, descendantsOfAll, ih, List.filter_append, List.filter_cons]
    | false =>
      obtain ⟨hname, hbelow⟩ := h c List.mem_cons_self hp
      have hnone : c.descendants.filter (·.name = key) = [] := by
        simpa [List.filter_eq_nil_iff] using hbelow
      simp [hp, descendantsOfAll, ih, hname, hnone]

theorem state_notMem_deepKeys : "STATE" ∉ deepKeys := by decide

/-- A state that holds no such key does not matter to who looks for one. -/
theorem descendantsNamed_setState {n state : Node} (hstate : state.name = "STATE")
    (hn : n.StateIsShallow) (hs : state.IsShallow) {key : String} (hkey : key ∈ deepKeys) :
    (n.setChild state).descendantsNamed key = n.descendantsNamed key := by
  have hname : ∀ s : Node, s.name = "STATE" → s.name ≠ key := by
    rintro s hs rfl
    exact state_notMem_deepKeys (hs ▸ hkey)
  have hbelow : ∀ s : Node, s.IsShallow → ∀ m ∈ s.descendants, m.name ≠ key := by
    rintro s hs m hm rfl
    exact hs m hm hkey
  have hnew : (descendantsOfAll [state]).filter (·.name = key) = [] := by
    rw [List.filter_eq_nil_iff]
    intro m hm
    obtain ⟨c, hc, heq | hlow⟩ := mem_descendantsOfAll.1 hm
    · rw [List.mem_singleton.1 hc] at heq
      simpa [heq] using hname state hstate
    · rw [List.mem_singleton.1 hc] at hlow
      simpa using hbelow state hs m hlow
  unfold descendantsNamed
  rw [descendants_eq, descendants_eq, setChild, children_mk, descendantsOfAll_append,
    List.filter_append, hnew, List.append_nil]
  refine filter_descendantsOfAll_filter fun c hc hp => ?_
  have hcs : c.name = "STATE" := by simpa [hstate] using hp
  exact ⟨hname c hcs, hbelow c (hn c hc hcs)⟩

/-- Writing a key with its value keeps a node without such keys below. -/
theorem IsShallow.setChild {n c : Node} (hn : n.IsShallow) (hname : c.name ∉ deepKeys)
    (hc : c.IsShallow) : (n.setChild c).IsShallow := by
  intro m hm
  rw [descendants_eq, Node.setChild, children_mk] at hm
  obtain ⟨d, hd, hmd⟩ := mem_descendantsOfAll.1 hm
  rcases List.mem_append.1 hd with hd | hd
  · refine hn m ?_
    rw [descendants_eq]
    exact mem_descendantsOfAll.2 ⟨d, (List.mem_filter.1 hd).1, hmd⟩
  · rw [List.mem_singleton.1 hd] at hmd
    rcases hmd with rfl | hlow
    · exact hname
    · exact hc m hlow

end Node

/-! ### The kind of a command whose state changes -/

open CommandKind

theorem required_setState {n state : Node} (h : state.name = "STATE") {key : String}
    (hkey : key ≠ "STATE") : required (n.setChild state) key = required n key := by
  unfold required
  rw [childValue?_setState h hkey]

theorem valueRequest_setState {n state : Node} (h : state.name = "STATE") (hn : n.StateIsShallow)
    (hs : state.IsShallow) : valueRequest (n.setChild state) = valueRequest n := by
  unfold valueRequest
  rw [required_setState h (by decide), childValue?_setState h (by decide),
    Node.descendantsNamed_setState h hn hs (by decide),
    Node.descendantsNamed_setState h hn hs (by decide)]

/-- A command whose state changes asks for the same. -/
theorem ofNode_setState {n state : Node} (h : state.name = "STATE") (hn : n.StateIsShallow)
    (hs : state.IsShallow) : CommandKind.ofNode (n.setChild state) = CommandKind.ofNode n := by
  have hlisted : listed (n.setChild state) "GROUPS" = listed n "GROUPS" := by
    rw [listed, Node.child?_setChild_of_ne (h ▸ by decide), listed]
  have htype : declaredType (n.setChild state) = declaredType n := by
    unfold declaredType
    rw [required_setState h (by decide)]
  unfold CommandKind.ofNode CommandKind.read
  rw [childValue?_setState h (by decide), childValue?_setState h (by decide),
    childValue?_setState h (by decide), fragmentRequest_setState h, valueRequest_setState h hn hs,
    required_setState h (by decide), required_setState h (by decide),
    required_setState h (by decide), htype, hlisted,
    Node.descendantsNamed_setState h hn hs (by decide)]

/-! ### The state that is written -/

namespace Command

theorem isShallow_writeFlag {s : Node} (hs : s.IsShallow) {key : String} (hkey : key ∉ Node.deepKeys)
    (b : Bool) : (writeFlag s key b).IsShallow := by
  unfold writeFlag
  split
  · refine hs.setChild hkey fun m hm => ?_
    obtain rfl : m = .leaf (flagWord b) := by
      simpa [Node.keyValue, Node.leaf, Node.descendants, Node.descendantsOfAll] using hm
    cases b <;> decide
  · exact hs

theorem isShallow_stateNode {c : Command} (h : c.config.StateIsShallow) : c.stateNode.IsShallow := by
  refine isShallow_writeFlag (isShallow_writeFlag ?_ (by decide) _) (by decide) _
  cases hchild : c.config.child? "STATE" with
  | none =>
    intro m hm
    simp [Node.leaf, Node.descendants, Node.descendantsOfAll] at hm
  | some s =>
    exact h s (List.mem_of_find?_eq_some hchild) (by simpa using List.find?_some hchild)

theorem sameName_flagWord (b : Bool) : sameName (flagWord b) "true" = b := by
  cases b <;> decide +kernel

/-- The state tells the failure of a command. -/
theorem any_stateNode_failed (c : Command) :
    (c.stateNode.childValue? "ERROR").any (sameName · "true") = c.failed := by
  unfold stateNode
  generalize writeFlag ((c.config.child? "STATE").getD (.leaf "STATE")) "DONE" c.done = s
  rw [writeFlag]
  split
  · have hchild : (s.setChild (.keyValue "ERROR" (flagWord c.failed))).childValue? "ERROR" =
        some (flagWord c.failed) :=
      congrArg (·.bind Node.value?) (Node.child?_setChild_self s (.keyValue "ERROR" (flagWord c.failed)))
    rw [hchild, Option.any_some, sameName_flagWord]
  next hno =>
    simp only [Bool.or_eq_true, not_or, Bool.not_eq_true, Option.isSome_eq_false_iff,
      Option.isNone_iff_eq_none] at hno
    simp [Node.childValue?, hno.2, hno.1]

theorem stateFlag_recordState_failed {c : Command} (h : c.config.IsCommand) (hd : c.done = true) :
    stateFlag c.recordState.config "ERROR" = c.failed := by
  have hchild : c.recordState.config.child? "STATE" = some c.stateNode := by
    rw [config_recordState hd, ← (isState_stateNode h).name, Node.child?_setChild_self]
  rw [stateFlag, hchild]
  exact any_stateNode_failed c

/-! ### Reading the name of a finished command -/

/-- How a command that is read again relates to the one that was finished there. -/
structure StillDone (c c' : Command) : Prop where
  done : c'.done = true
  failed : c'.failed = c.failed
  /-- The old states are gone and one new state is the last child. -/
  config : ∃ state : Node, state.name = "STATE" ∧
    c'.config = ⟨c.config.name, c.config.children.filter (·.name ≠ "STATE") ++ [state]⟩
  kind : c.config.StateIsShallow → c'.kind = c.kind

/-- What the state that is written for a command says. -/
theorem stillDone_recordState {c : Command} (h : c.config.IsCommand)
    (hkind : c.kind = .ofNode c.config) (hd : c.done = true) (name : String) :
    StillDone c (ofNode name c.recordState.config (.ofNode c.recordState.config)) where
  done := stateFlag_recordState h hd
  failed := stateFlag_recordState_failed h hd
  config := by
    refine ⟨c.stateNode, (isState_stateNode h).name, ?_⟩
    rw [← (isState_stateNode h).name]
    exact config_recordState hd
  kind hshallow := by
    show CommandKind.ofNode c.recordState.config = c.kind
    rw [config_recordState hd, hkind]
    exact ofNode_setState (isState_stateNode h).name hshallow (isShallow_stateNode hshallow)

/-- A command that is done and keeps its bookmark gets the name that the document finds for its state. -/
theorem markDone_eq {c : Command} {d : Document} (hd : (d.bookmark? c.bookmark).isSome = true) :
    ∃ d' name, d.renameBookmark c.bookmark (toString (recordState { c with done := true }).config) =
        .ok (d', name) ∧
      c.markDone d false = ({ recordState { c with done := true } with bookmark := name }, d') ∧
      Variant (toString (recordState { c with done := true }).config) name := by
  have hbookmark : (recordState { c with done := true }).bookmark = c.bookmark :=
    bookmark_recordState { c with done := true }
  refine ⟨_, _, by unfold Document.renameBookmark; rw [if_pos hd], ?_,
    Document.variant_uniqueName _ _ _⟩
  unfold markDone
  simp only [Bool.false_eq_true, if_false, hbookmark, Document.renameBookmark, if_pos hd]

/-- **A finished command stays finished.**  The name that a command gets when it is done, whatever number
the document puts behind it, holds the command again.  Digits behind a name never matter. -/
theorem stillDone_markDone {name : String} {t : Text} {n : Node}
    (ht : commandText? name.toList = some t) (hn : parseNode t = .ok n) (failed : Bool)
    {d : Document} (hd : (d.bookmark? name).isSome = true) :
    (∃ c d' name' c', ofBookmark? name = some c ∧ c.config = n ∧
      d.renameBookmark name (toString (recordState { c with failed, done := true }).config) =
        .ok (d', name') ∧
      (c.setFailed failed).markDone d false =
        ({ recordState { c with failed, done := true } with bookmark := name' }, d') ∧
      ofBookmark? name' = some c' ∧ StillDone (c.setFailed failed) c') ∧
    ∀ m digits : String, (∀ x ∈ digits.toList, x.isDigit = true) →
      ofBookmark? (m ++ digits) = (ofBookmark? m).map fun c => { c with bookmark := m ++ digits } := by
  constructor
  · let c : Command := ofNode name n (.ofNode n)
    have hread : ofBookmark? name = some c := by
      unfold ofBookmark?
      rw [ht, Option.map_some, hn]
    have hcommand : c.config.IsCommand := isCommand_of_ofBookmark? hread
    obtain ⟨d', name', hrename, hdone, hvariant⟩ := markDone_eq (c := c.setFailed failed) hd
    have hc : (Command.mk name n (.ofNode n) true failed c.marked).config.IsCommand := hcommand
    have hstill := stillDone_recordState hc rfl rfl name'
    exact ⟨c, d', name', _, hread, rfl, hrename, hdone, ofBookmark?_recorded hc rfl hvariant,
      hstill.done, hstill.failed, hstill.config, hstill.kind⟩
  · intro m digits hdigits
    refine ofBookmark?_congr ?_
    rw [String.toList_append]
    exact commandText?_append fun x hx => isDecimalDigit_of_isDigit (hdigits x hx)

/-- A command that failed in an earlier run. -/
def failedBefore : Node :=
  ⟨"DOC", [.keyValue "CMD" "insertFrag", ⟨"STATE", [.keyValue "ERROR" "true"]⟩, .keyValue "FRAG_ID" "f"]⟩

/-- It succeeds now. -/
theorem stillDone_markDone_failedBefore :
    let name := "DOC(CMD 'insertFrag' STATE(ERROR 'true') FRAG_ID 'f')7"
    ∃ c c' : Command, ofBookmark? name = some c ∧ c.config = failedBefore ∧ c.failed = true ∧
      ofBookmark? ((c.setFailed false).markDone { Document.ofText ['?'] with
        bookmarks := [⟨name, ⟨0, 1⟩⟩] } false).1.bookmark = some c' ∧
      c'.done = true ∧ c'.failed = false ∧ c'.kind = c.kind := by
  have ht : commandText? "DOC(CMD 'insertFrag' STATE(ERROR 'true') FRAG_ID 'f')7".toList =
      some "DOC(CMD 'insertFrag' STATE(ERROR 'true') FRAG_ID 'f')".toList := by cbv
  have hn : parseNode "DOC(CMD 'insertFrag' STATE(ERROR 'true') FRAG_ID 'f')".toList =
      .ok failedBefore := by cbv
  obtain ⟨⟨c, d', name', c', hread, hconfig, -, hdone, hread', hstill⟩, -⟩ :=
    stillDone_markDone ht hn false (d := { Document.ofText ['?'] with
      bookmarks := [⟨"DOC(CMD 'insertFrag' STATE(ERROR 'true') FRAG_ID 'f')7", ⟨0, 1⟩⟩] }) (by decide)
  have hshallow : (c.setFailed false).config.StateIsShallow := by
    rw [show (c.setFailed false).config = failedBefore from hconfig]
    unfold Node.StateIsShallow Node.IsShallow
    decide
  refine ⟨c, c', hread, hconfig, ?_, ?_, hstill.done, hstill.failed, hstill.kind hshallow⟩
  · have hfailed : (ofBookmark? "DOC(CMD 'insertFrag' STATE(ERROR 'true') FRAG_ID 'f')7").map
        (·.failed) = some true := by cbv
    rw [hread] at hfailed
    exact Option.some.inj hfailed
  · rw [hdone]
    exact hread'

end Command

end TemplateEngine
