import TemplateEngine.Proofs.Reading
import TemplateEngine.Settings

/-!
# RoundTrip — printing and reading are inverse

* `parseNode_print_iff`: a node is read back from what is written for it exactly if every node in it
  that has children is called by an identifier.  All other names are written between quotes.
* `parseNodes_printAll`: nodes that were read are read back from what is written for them.
* `ofDocument_persist`: a form description is read back from the document that keeps it.
-/

namespace TemplateEngine

namespace Node

/-! ### Nodes that are read back -/

/-- Every node with children, from `n` down, is called by an identifier. -/
def HasIdentifierKeys (n : Node) : Prop :=
  ∀ m ∈ n :: n.descendants, m.isLeaf = false → isIdentifier m.name = true

mutual

/-- What can be written whatever its strings are has identifiers for keys. -/
theorem isWritable_iff : ∀ n : Node, n.isWritable (fun _ => true) = true ↔ n.HasIdentifierKeys
  | ⟨n, []⟩ => by simp [isWritable, HasIdentifierKeys, descendants, descendantsOfAll, isLeaf]
  | ⟨n, c :: cs⟩ => by
    have hkeys : HasIdentifierKeys ⟨n, c :: cs⟩ ↔
        isIdentifier n = true ∧ HasIdentifierKeys c ∧
          ∀ m ∈ descendantsOfAll cs, m.isLeaf = false → isIdentifier m.name = true := by
      simp [HasIdentifierKeys, descendants, descendantsOfAll, isLeaf, or_imp, forall_and, and_assoc]
    rw [hkeys, isWritable, Bool.and_eq_true, Bool.and_eq_true, isWritable_iff c,
      areWritable_iff_descendants cs, and_assoc]

theorem areWritable_iff_descendants : ∀ cs : List Node, areWritable (fun _ => true) cs = true ↔
    ∀ m ∈ descendantsOfAll cs, m.isLeaf = false → isIdentifier m.name = true
  | [] => by simp [areWritable, descendantsOfAll]
  | c :: cs => by
    have hsplit : (∀ m ∈ descendantsOfAll (c :: cs), m.isLeaf = false → isIdentifier m.name = true) ↔
        HasIdentifierKeys c ∧
          ∀ m ∈ descendantsOfAll cs, m.isLeaf = false → isIdentifier m.name = true := by
      simp [HasIdentifierKeys, descendantsOfAll, or_imp, forall_and, and_assoc]
    rw [hsplit, areWritable, Bool.and_eq_true, isWritable_iff c, areWritable_iff_descendants cs]

end

/-- A node is read back exactly if its keys are identifiers. -/
theorem parseNode_print_iff (n : Node) : parseNode n.print = .ok n ↔ n.HasIdentifierKeys := by
  rw [← isWritable_iff]
  constructor
  · intro h
    exact isWritable_of_parseNode h fun _ _ _ => rfl
  · intro h
    exact parseNode_print h

/-! ### Lists of nodes -/

/-- Nodes are written with single blanks between them. -/
theorem printAll_eq_intercalate (cs : List Node) :
    printAll cs = [' '].intercalate (cs.map print) := by
  cases cs with
  | nil => rfl
  | cons c cs =>
    have hmore : ∀ (t : Text) (cs : List Node),
        t ++ printMore cs = [' '].intercalate (t :: cs.map print) := by
      intro t cs
      induction cs generalizing t with
      | nil => simp [printMore]
      | cons d ds ih => simp [printMore, ih]
    exact hmore c.print cs

/-- Written nodes are read back as they were. -/
theorem parseNodes_printAll {p : String → Bool} {ns : List Node} (h : areWritable p ns = true) :
    parseNodes (printAll ns) = .ok ns := by
  have htokens : ∃ ts, lex (printAll ns) = .ok ts ∧ Derives ts ns := by
    cases ns with
    | nil => exact ⟨[], lexFrom_nil 0, .nil⟩
    | cons c cs =>
      simp only [areWritable, Bool.and_eq_true] at h
      have hmore : (printMore cs ++ []).head? ≠ some '\'' := by
        cases cs <;> simp [printMore]
      obtain ⟨us, hus, hdus⟩ := exists_lexes c h.1 (printMore cs ++ []) 0 hmore
      obtain ⟨vs, hvs, hdvs⟩ := exists_lexes_more cs h.2 [] (0 + Text.byteLength c.print) (by simp)
      refine ⟨us ++ vs, ?_, hdus.append hdvs⟩
      have hall := hus.append hvs
      unfold Lexes at hall
      rw [List.append_nil, lexFrom_nil] at hall
      simpa [lex, printAll, Except.map] using hall
  obtain ⟨ts, hlex, hd⟩ := htokens
  simp [parseNodes, hlex, nodesOfTokens_of_derives hd, bind, Except.bind]

/-- Nodes that were read can be written. -/
theorem areWritable_of_parseNodes {input : Text} {ns : List Node} (h : parseNodes input = .ok ns) :
    areWritable (fun _ => true) ns = true := by
  unfold parseNodes at h
  cases hlex : lex input with
  | error e => simp [hlex, bind, Except.bind] at h
  | ok ts =>
    have hns : nodesOfTokens ts = .ok ns := by simpa [hlex, bind, Except.bind] using h
    exact areWritable_of_derives (derives_of_nodesOfTokens hns)
      (fun t ht => wellSpelled_of_lexFrom hlex ht) fun _ _ => rfl

theorem areWritable_append {p : String → Bool} {ms ns : List Node} :
    areWritable p (ms ++ ns) = true ↔ areWritable p ms = true ∧ areWritable p ns = true := by
  simp only [areWritable_iff, List.forall_mem_append]

end Node

/-! ### Form descriptions -/

namespace FormDescription

open Node

/-- The nodes of a description that a document carries can be written. -/
theorem areWritable_nodes_ofDocument (d : Document) :
    areWritable (fun _ => true) (ofDocument d).nodes = true := by
  unfold ofDocument
  split
  · rfl
  next text _ =>
    split
    next nodes hparse => exact areWritable_of_parseNodes hparse
    · rfl

theorem nodes_merges (f : FormDescription) (parts : List (List Node)) :
    (parts.foldl merge f).nodes = f.nodes ++ parts.flatten := by
  induction parts generalizing f with
  | nil => simp
  | cons ns parts ih => simp [ih, merge]

/-- A description stays one that can be written when nodes that were read are added. -/
theorem areWritable_nodes_merges {f : FormDescription} {parts : List (List Node)}
    (hf : areWritable (fun _ => true) f.nodes = true)
    (hparts : ∀ ns ∈ parts, ∃ input, parseNodes input = .ok ns) :
    areWritable (fun _ => true) (parts.foldl merge f).nodes = true := by
  rw [nodes_merges, areWritable_append]
  refine ⟨hf, areWritable_iff.2 fun n hn => ?_⟩
  obtain ⟨ns, hns, hn⟩ := List.mem_flatten.1 hn
  obtain ⟨input, hparse⟩ := hparts ns hns
  exact areWritable_iff.1 (areWritable_of_parseNodes hparse) n hn

/-- A description that can be written is read back from the document that keeps it. -/
theorem ofDocument_persist {f : FormDescription} {p : String → Bool}
    (hf : areWritable p f.nodes = true) (d : Document) :
    ofDocument (f.persist d) = ⟨f.nodes, true⟩ := by
  have hkept : (f.persist d).persistentData? formDescriptionKey = some f.text :=
    Dictionary.get?_insert_self _ _ _
  have hread : parseNodes f.text.toList = .ok f.nodes := by
    rw [text, String.toList_ofList]
    exact parseNodes_printAll hf
  unfold ofDocument
  simp only [hkept, hread]

end FormDescription

/-! ### The two directions -/

/-- **Printing and reading are inverse.**  A node is read back from its written form exactly if its keys
are identifiers.  So whatever was read is read back from the written nodes, separated by blanks, and a
form description that grew by nodes that were read is read back from the document that keeps it. -/
theorem print_inverse :
    (∀ n : Node, parseNode n.print = .ok n ↔ n.HasIdentifierKeys) ∧
    (∀ (input : Text) (ns : List Node), parseNodes input = .ok ns →
      parseNodes ([' '].intercalate (ns.map Node.print)) = .ok ns) ∧
    ∀ (d d' : Document) (parts : List (List Node)),
      (∀ ns ∈ parts, ∃ input, parseNodes input = .ok ns) →
      FormDescription.ofDocument
          ((parts.foldl FormDescription.merge (.ofDocument d)).persist d') =
        ⟨(parts.foldl FormDescription.merge (.ofDocument d)).nodes, true⟩ := by
  refine ⟨Node.parseNode_print_iff, fun input ns h => ?_, fun d d' parts hparts => ?_⟩
  · rw [← Node.printAll_eq_intercalate]
    exact Node.parseNodes_printAll (Node.areWritable_of_parseNodes h)
  · exact FormDescription.ofDocument_persist
      (FormDescription.areWritable_nodes_merges
        (FormDescription.areWritable_nodes_ofDocument d) hparts) d'

/-- A key without children is written as a string, a comment is not written, and quotes change. -/
theorem print_inverse_quotes :
    let ns : List Node := [⟨"A", [.leaf "it's", .leaf "#"]⟩, .leaf "B"]
    parseNodes "A(\"it's\" '#') # note\nB()".toList = .ok ns ∧
    parseNodes "A('it''s' '#') 'B'".toList = .ok ns ∧
    FormDescription.ofDocument
        ((FormDescription.merge (.ofDocument (.ofText [])) ns).persist (.ofText [])) = ⟨ns, true⟩ := by
  have hread : parseNodes "A(\"it's\" '#') # note\nB()".toList =
      .ok [⟨"A", [.leaf "it's", .leaf "#"]⟩, .leaf "B"] := by cbv
  obtain ⟨-, hagain, hform⟩ := print_inverse
  exact ⟨hread, hagain _ _ hread,
    hform (.ofText []) (.ofText []) [[⟨"A", [.leaf "it's", .leaf "#"]⟩, .leaf "B"]]
      (List.forall_mem_singleton.2 ⟨_, hread⟩)⟩

end TemplateEngine
