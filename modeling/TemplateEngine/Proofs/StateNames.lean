import TemplateEngine.Proofs.Names
import TemplateEngine.Proofs.Reading

/-!
# StateNames — names that tell the state of a command

A command that is done and keeps its bookmark is renamed to what its node, with the state recorded,
is written as.  `ofBookmark?_recorded` says that this name, with any number behind it, holds the same
node again, so that the command it holds is done.
-/

namespace TemplateEngine

/-! ### Names on one line -/

/-- Whether a string has no line break. -/
def isOneLine (s : String) : Bool := !s.toList.contains '\n'

theorem isOneLine_iff {s : String} : isOneLine s = true ↔ '\n' ∉ s.toList := by
  simp [isOneLine]

theorem isOneLine_of_isIdentifier {s : String} (h : isIdentifier s = true) : isOneLine s = true := by
  rw [isOneLine_iff]
  intro hmem
  unfold isIdentifier at h
  split at h
  · cases h
  next c cs hs =>
    rw [hs] at hmem
    simp only [Bool.and_eq_true, List.all_eq_true] at h
    rcases List.mem_cons.1 hmem with rfl | hmem
    · exact absurd h.1 (by decide)
    · exact absurd (h.2 _ hmem) (by decide)

theorem mem_escapeQuotes {q c : Char} {s : List Char} (h : c ∈ escapeQuotes q s) :
    c = q ∨ c ∈ s := by
  obtain ⟨d, hd, hc⟩ := List.mem_flatMap.1 h
  split at hc
  · simp only [List.mem_cons, List.not_mem_nil, or_false, or_self] at hc
    exact .inl hc
  · obtain rfl := List.mem_singleton.1 hc
    exact .inr hd

namespace Node

theorem notMem_quoteString {s : String} (h : isOneLine s = true) : '\n' ∉ quoteString s := by
  rw [quoteString_eq]
  intro hmem
  simp only [List.mem_cons, List.mem_append, List.not_mem_nil, or_false] at hmem
  rcases hmem with h' | h' | h'
  · exact absurd h' (by decide)
  · rcases mem_escapeQuotes h' with h' | h'
    · exact absurd h' (by decide)
    · exact isOneLine_iff.1 h h'
  · exact absurd h' (by decide)

mutual

theorem notMem_print : ∀ n : Node, n.isWritable isOneLine = true → '\n' ∉ n.print
  | ⟨n, []⟩, hw => notMem_quoteString hw
  | ⟨n, c :: cs⟩, hw => by
    simp only [isWritable, Bool.and_eq_true] at hw
    obtain ⟨⟨hn, hc⟩, hcs⟩ := hw
    have hkey := isOneLine_iff.1 (isOneLine_of_isIdentifier hn)
    by_cases hsingle : c.isLeaf = true ∧ cs = []
    · obtain ⟨hleaf, rfl⟩ := hsingle
      obtain ⟨v, ds⟩ := c
      obtain rfl : ds = [] := by simpa [isLeaf] using hleaf
      have := notMem_quoteString hc
      simp [print, hkey, this]
    · have hgroup : c.isLeaf = false ∨ cs ≠ [] := by
        cases hl : c.isLeaf with
        | false => exact .inl rfl
        | true => exact .inr fun h => hsingle ⟨hl, h⟩
      have h₁ := notMem_print c hc
      have h₂ := notMem_printMore cs hcs
      simp [print_group hgroup, hkey, h₁, h₂]

theorem notMem_printMore : ∀ cs : List Node, areWritable isOneLine cs = true → '\n' ∉ printMore cs
  | [], _ => by simp [printMore]
  | c :: cs, hw => by
    simp only [areWritable, Bool.and_eq_true] at hw
    have h₁ := notMem_print c hw.1
    have h₂ := notMem_printMore cs hw.2
    simp [printMore, h₁, h₂]

end

/-- Whether a node can be the node of a command: written on one line and called `DOC`. -/
def IsCommand (n : Node) : Prop := n.name = "DOC" ∧ n.isWritable isOneLine = true

end Node

/-! ### What a name holds -/

theorem isBlank_of_isIdentifierPart {c : Char} (h : Token.isIdentifierPart c = true) :
    isBlank c = false := by
  simp only [Token.isIdentifierPart, Char.isAlphanum, Char.isAlpha, Char.isUpper, Char.isLower,
    Char.isDigit, Bool.or_eq_true, Bool.and_eq_true, decide_eq_true_eq, beq_iff_eq,
    UInt32.le_iff_toNat_le] at h
  have hrange : 0x21 ≤ c.toNat ∧ c.toNat < 0x85 := by
    rcases h with ((⟨h1, h2⟩ | ⟨h1, h2⟩) | ⟨h1, h2⟩) | rfl
    · exact ⟨le_trans (by decide) h1, lt_of_le_of_lt h2 (by decide)⟩
    · exact ⟨le_trans (by decide) h1, lt_of_le_of_lt h2 (by decide)⟩
    · exact ⟨le_trans (by decide) h1, lt_of_le_of_lt h2 (by decide)⟩
    · decide
  have h1 : ¬ c.toNat < 0x9 := by omega
  have h2 : ¬ c.toNat < 0xe := by omega
  have h3 : ¬ c.toNat < 0x20 := by omega
  have h4 : ¬ c.toNat < 0x21 := by omega
  simp [isBlank, CharacterSet.contains, blanks, CharacterSet.onAt, h1, h2, h3, h4, hrange.2]

/-- The text of a command in its parts. -/
theorem exists_of_commandText? {name t : Text} (h : commandText? name = some t) :
    ∃ bs inner, t = 'D' :: 'O' :: 'C' :: (bs ++ '(' :: (inner ++ [')'])) ∧
      (∀ c ∈ bs, isBlank c = true) ∧ '\n' ∉ inner := by
  unfold commandText? at h
  split at h
  next rest hcore =>
    split at h
    next inner hrest =>
      split at h
      next hinner =>
        obtain rfl := Option.some.inj h
        obtain ⟨hlast, hline⟩ := hinner
        refine ⟨rest.takeWhile isBlank, inner.dropLast, ?_, fun c hc => List.mem_takeWhile_imp hc,
          hline⟩
        rw [hcore, List.dropLast_append_getLast? _ hlast, ← hrest, List.takeWhile_append_dropWhile]
      · cases h
    · cases h
  · cases h

/-- A text with that form is the command that it holds as a name. -/
theorem commandText?_eq_self {inner : Text} (h : '\n' ∉ inner) :
    commandText? ('D' :: 'O' :: 'C' :: '(' :: (inner ++ [')'])) =
      some ('D' :: 'O' :: 'C' :: '(' :: (inner ++ [')'])) := by
  have hcore : commandCore ('D' :: 'O' :: 'C' :: '(' :: (inner ++ [')'])) =
      'D' :: 'O' :: 'C' :: '(' :: (inner ++ [')']) := by
    have hfront : ('D' :: 'O' :: 'C' :: '(' :: (inner ++ [')'])).dropWhile isBlank =
        'D' :: 'O' :: 'C' :: '(' :: (inner ++ [')']) := by
      rw [List.dropWhile_cons_of_neg (by decide)]
    have hback : ('D' :: 'O' :: 'C' :: '(' :: (inner ++ [')'])).reverse =
        ')' :: ('D' :: 'O' :: 'C' :: '(' :: inner).reverse := by simp
    rw [commandCore, hfront, hback, List.dropWhile_cons_of_neg (by decide),
      List.dropWhile_cons_of_neg (by decide)]
    simp
  unfold commandText?
  rw [hcore]
  have hrest : ('(' :: (inner ++ [')'])).dropWhile isBlank = '(' :: (inner ++ [')']) := by
    rw [List.dropWhile_cons_of_neg (by decide)]
  simp only [hrest]
  simp [h]

/-- The first token of a command's text is `DOC`. -/
theorem lex_command {bs inner : Text} (hbs : ∀ c ∈ bs, isBlank c = true) {ts : List Token}
    (h : lex ('D' :: 'O' :: 'C' :: (bs ++ '(' :: inner)) = .ok ts) :
    ∃ us, ts = ⟨.identifier, ['D', 'O', 'C'], 0⟩ :: us := by
  have hnext : ∀ d, (bs ++ '(' :: inner).head? = some d → Token.isIdentifierPart d = false := by
    intro d hd
    cases bs with
    | nil =>
      obtain rfl : d = '(' := by simpa using hd.symm
      decide
    | cons b bs =>
      obtain rfl : d = b := by simpa using hd.symm
      rw [Bool.eq_false_iff]
      intro hpart
      have := hbs d (by simp)
      rw [isBlank_of_isIdentifierPart hpart] at this
      cases this
  have hp : Token.piece? 'D' (['O', 'C'] ++ (bs ++ '(' :: inner)) =
      some ⟨some .identifier, ['D', 'O', 'C'], bs ++ '(' :: inner⟩ :=
    Token.piece?_identifier (by decide)
      (List.forall_mem_cons.2 ⟨by decide, List.forall_mem_singleton.2 (by decide)⟩) hnext
  unfold lex at h
  rw [List.cons_append, List.cons_append, List.nil_append] at hp
  rw [lexFrom_cons hp] at h
  generalize lexFrom (0 + Text.byteLength ['D', 'O', 'C']) (bs ++ '(' :: inner) = rest at h
  cases rest with
  | error e => cases h
  | ok us => exact ⟨us, (Except.ok.inj h).symm⟩

/-- A string of a command's text has no line break: where there can be one, no string has begun. -/
theorem isOneLine_value {bs inner : Text} (hbs : ∀ c ∈ bs, isBlank c = true) (hinner : '\n' ∉ inner)
    {t : Token} (hspell : t.WellSpelled)
    (ht : t.text <:+: 'D' :: 'O' :: 'C' :: (bs ++ '(' :: (inner ++ [')']))) :
    isOneLine t.value = true := by
  have hquoted : ∀ q : Char, isBlank q = false → q ∉ ['D', 'O', 'C', '('] → t.text.head? = some q →
      '\n' ∉ t.text := by
    intro q hblank hq hhead hline
    obtain ⟨a, b, hab⟩ := ht
    cases htext : t.text with
    | nil => simp [htext] at hhead
    | cons c s =>
      obtain rfl : c = q := by simpa [htext] using hhead
      rw [htext] at hab hline
      have hsplit : a ++ c :: (s ++ b) = (['D', 'O', 'C'] ++ bs ++ ['(']) ++ (inner ++ [')']) := by
        simpa using hab
      rcases List.append_eq_append_iff.1 hsplit with ⟨m, hm, hrest⟩ | ⟨m, hm, hrest⟩
      · cases m with
        | nil =>
          simp only [List.nil_append] at hrest
          have : '\n' ∈ inner ++ [')'] := by
            rw [← hrest]
            simp only [List.mem_cons, List.mem_append] at hline ⊢
            tauto
          simp [hinner] at this
        | cons d m =>
          obtain ⟨rfl, -⟩ := List.cons_eq_cons.1 hrest
          have : c ∈ ['D', 'O', 'C'] ++ bs ++ ['('] := by rw [hm]; simp
          simp only [List.mem_append, List.mem_cons, List.not_mem_nil, or_false] at this hq
          rcases this with (h | h) | h
          · exact hq (by tauto)
          · rw [hbs c h] at hblank
            cases hblank
          · exact hq (by tauto)
      · have : '\n' ∈ inner ++ [')'] := by
          rw [hrest]
          simp only [List.mem_cons, List.mem_append] at hline ⊢
          tauto
        simp [hinner] at this
  unfold Token.WellSpelled at hspell
  rw [isOneLine_iff]
  intro hline
  have hmem := Token.mem_of_mem_value hline
  split at hspell
  · exact isOneLine_iff.1 (isOneLine_of_isIdentifier hspell) hline
  · exact hquoted '\'' (by decide) (by decide) hspell hmem
  · exact hquoted '"' (by decide) (by decide) hspell hmem
  · rw [hspell] at hmem
    exact absurd hmem (by decide)
  · rw [hspell] at hmem
    exact absurd hmem (by decide)

/-! ### Nodes of commands -/

theorem isCommand_leaf : (Node.leaf "DOC").IsCommand := ⟨rfl, by decide⟩

/-- The node of a command that was read. -/
theorem isCommand_of_ofBookmark? {name : String} {c : Command}
    (h : Command.ofBookmark? name = some c) : c.config.IsCommand := by
  obtain ⟨t, ht, hc⟩ := Option.map_eq_some_iff.1 h
  obtain ⟨bs, inner, rfl, hbs, hinner⟩ := exists_of_commandText? ht
  split at hc
  next config hparse =>
    subst hc
    refine ⟨?_, isWritable_of_parseNode hparse fun t hspell hin =>
      isOneLine_value hbs hinner hspell hin⟩
    obtain ⟨ts, hlex, hd⟩ := exists_lex_of_parseNode hparse
    obtain ⟨us, rfl⟩ := lex_command hbs hlex
    exact name_of_derives_singleton hd
  next =>
    subst hc
    exact isCommand_leaf

/-- Setting a child keeps a node writable. -/
theorem Node.isWritable_setChild {p : String → Bool} {n c : Node} (hkey : isIdentifier n.name = true)
    (hp : p n.name = true) (hn : n.isWritable p = true) (hc : c.isWritable p = true) :
    (n.setChild c).isWritable p = true := by
  refine Node.isWritable_of_children hkey hp fun d hd => ?_
  simp only [setChild, children_mk, List.mem_append, List.mem_filter, List.mem_singleton] at hd
  rcases hd with ⟨hd, -⟩ | rfl
  · exact Node.isWritable_child hn hd
  · exact hc

theorem Node.child?_setChild_self (n c : Node) : (n.setChild c).child? c.name = some c := by
  unfold child? setChild
  rw [children_mk, List.find?_append, List.find?_eq_none.2]
  · simp
  · intro d hd
    simpa using (List.mem_filter.1 hd).2

theorem Node.child?_setChild_of_ne {n c : Node} {name : String} (h : name ≠ c.name) :
    (n.setChild c).child? name = n.child? name := by
  unfold child? setChild
  rw [children_mk, List.find?_append, List.find?_filter]
  have hpred : (fun d : Node => decide ((decide (d.name ≠ c.name)) = true ∧ decide (d.name = name) = true)) =
      fun d : Node => decide (d.name = name) := by
    funext d
    by_cases hd : d.name = name
    · simp [hd, h]
    · simp [hd]
  rw [hpred]
  cases hfind : n.children.find? fun d => decide (d.name = name) with
  | some d => rfl
  | none => simp [Ne.symm h]

namespace Command

/-- What is written into the state. -/
structure IsState (s : Node) : Prop where
  name : s.name = "STATE"
  writable : s.isWritable isOneLine = true

theorem IsState.setChild {s c : Node} (hs : IsState s) (hc : c.isWritable isOneLine = true) :
    IsState (s.setChild c) where
  name := hs.name
  writable := Node.isWritable_setChild (by rw [hs.name]; decide) (by rw [hs.name]; decide)
    hs.writable hc

theorem IsState.writeFlag {s : Node} (hs : IsState s) {key : String} (hkey : isIdentifier key = true)
    (b : Bool) : IsState (writeFlag s key b) := by
  unfold Command.writeFlag
  split
  · refine hs.setChild ?_
    cases b <;> simp [Node.keyValue, Node.leaf, Node.isWritable, Node.areWritable, flagWord, hkey] <;> decide
  · exact hs

theorem isState_stateNode {c : Command} (h : c.config.IsCommand) : IsState c.stateNode := by
  refine IsState.writeFlag (IsState.writeFlag ?_ (by decide) _) (by decide) _
  cases hchild : c.config.child? "STATE" with
  | none => exact ⟨rfl, by decide⟩
  | some s =>
    exact ⟨by simpa using List.find?_some hchild,
      Node.isWritable_child h.2 (List.mem_of_find?_eq_some hchild)⟩

/-- The state of a command that is done says so. -/
theorem childValue?_stateNode {c : Command} (hd : c.done = true) :
    c.stateNode.childValue? "DONE" = some "true" := by
  have hwrite : ∀ s : Node, (writeFlag s "DONE" true).childValue? "DONE" = some "true" := fun s => by
    unfold writeFlag
    have hchild := Node.child?_setChild_self s (.keyValue "DONE" (flagWord true))
    rw [Bool.true_or, if_pos rfl, Node.childValue?]
    exact congrArg (·.bind Node.value?) hchild
  unfold stateNode
  rw [hd]
  generalize (c.config.child? "STATE").getD (.leaf "STATE") = s
  rw [writeFlag]
  split
  · rw [Node.childValue?, Node.child?_setChild_of_ne (show "DONE" ≠ "ERROR" by decide)]
    exact hwrite s
  · exact hwrite s

theorem isLeaf_stateNode {c : Command} (hd : c.done = true) : c.stateNode.isLeaf = false := by
  have h := childValue?_stateNode hd
  rw [Bool.eq_false_iff]
  intro hleaf
  have : c.stateNode.children = [] := by simpa [Node.isLeaf] using hleaf
  simp [Node.childValue?, Node.child?, this] at h

theorem config_recordState {c : Command} (hd : c.done = true) :
    c.recordState.config = c.config.setChild c.stateNode := by
  rw [recordState]
  simp [isLeaf_stateNode hd]

/-- The node of a command whose state is recorded is a node of a command. -/
theorem isCommand_recordState {c : Command} (h : c.config.IsCommand) :
    c.recordState.config.IsCommand := by
  rw [recordState]
  split
  · exact h
  · exact ⟨h.1, Node.isWritable_setChild (by rw [h.1]; decide) (by rw [h.1]; decide) h.2
      (isState_stateNode h).writable⟩

theorem stateFlag_recordState {c : Command} (h : c.config.IsCommand) (hd : c.done = true) :
    stateFlag c.recordState.config "DONE" = true := by
  have hchild : c.recordState.config.child? "STATE" = some c.stateNode := by
    rw [config_recordState hd, ← (isState_stateNode h).name, Node.child?_setChild_self]
  simp [stateFlag, hchild, childValue?_stateNode hd, sameName]

/-! ### Reading the name back -/

theorem commandText?_print {c : Command} (h : c.config.IsCommand) (hd : c.done = true) :
    commandText? c.recordState.config.print = some c.recordState.config.print := by
  have hcmd := isCommand_recordState h
  have hline := Node.notMem_print _ hcmd.2
  have hchildren : c.recordState.config.children =
      c.config.children.filter (·.name ≠ c.stateNode.name) ++ [c.stateNode] := by
    rw [config_recordState hd]
    rfl
  have hname := hcmd.1
  generalize c.recordState.config = config at hline hchildren hname ⊢
  obtain ⟨n, cs⟩ := config
  obtain rfl : n = "DOC" := hname
  cases cs with
  | nil => simp at hchildren
  | cons d ds =>
    have hgroup : d.isLeaf = false ∨ ds ≠ [] := by
      by_contra hno
      simp only [not_or, ne_eq, not_not, Bool.not_eq_false] at hno
      obtain ⟨hleaf, rfl⟩ := hno
      have hlast := congrArg List.getLast? hchildren
      simp only [Node.children_mk, List.getLast?_singleton, List.getLast?_append, Option.some_or,
        Option.some.injEq] at hlast
      rw [hlast, isLeaf_stateNode hd] at hleaf
      cases hleaf
    have hprint : Node.print ⟨"DOC", d :: ds⟩ =
        'D' :: 'O' :: 'C' :: '(' :: ((d.print ++ Node.printMore ds) ++ [')']) := by
      rw [Node.print_group hgroup]
      simp
    rw [hprint] at hline ⊢
    refine commandText?_eq_self fun hmem => hline ?_
    iterate 4 refine List.mem_cons_of_mem _ ?_
    exact List.mem_append_left _ hmem

/-- The name that a command gets when it is done holds the node with the state recorded. -/
theorem ofBookmark?_recorded {c : Command} (h : c.config.IsCommand) (hd : c.done = true)
    {name : String} (hname : Variant (toString c.recordState.config) name) :
    ofBookmark? name =
      some (ofNode name c.recordState.config (.ofNode c.recordState.config)) := by
  have hself : ofBookmark? (toString c.recordState.config) =
      some (ofNode (toString c.recordState.config) c.recordState.config
        (.ofNode c.recordState.config)) := by
    have hlist : (toString c.recordState.config).toList = c.recordState.config.print :=
      String.toList_ofList
    unfold ofBookmark?
    rw [hlist, commandText?_print h hd, Option.map_some,
      Node.parseNode_print (isCommand_recordState h).2]
  rw [hname.ofBookmark?, hself]
  rfl

end Command

end TemplateEngine
