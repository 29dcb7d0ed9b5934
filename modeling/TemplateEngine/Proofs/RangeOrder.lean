import TemplateEngine.Proofs.Synchrony

/-!
# Range order — document order, by relations and by sorting

Commands are put in order by how their ranges relate, bookmark names by sorting their spans.  That is one
order: the earlier start counts, and of two ranges with one start the later stop, whether the ranges are
nested, apart or overlap in part (`TextRange.OrderedByEnds`).  So nothing moves when the commands of a document
are put in order one by one, as they are found in the sorted bookmarks (`discover_eq_append`), and commands
with one range keep the order of storage.
-/

namespace TemplateEngine

/-! ### Ranges of one container -/

namespace TextRange

variable {a b c : TextRange}

/-- How a range lies to another one of its container, told by the ends of both. -/
structure OrderedByEnds (a b : TextRange) : Prop where
  precedes_iff : (a.relation b).precedes = true ↔
    a.start < b.start ∨ a.start = b.start ∧ b.stop < a.stop
  encloses_iff : (a.relation b).encloses = true ↔
    a.start ≤ b.start ∧ b.stop ≤ a.stop ∧ a ≠ b
  /-- Either range comes first, or they are the same. -/
  trichotomy : [(a.relation b).precedes, (a.relation b).follows,
    a.relation b == .ordered .eq .eq].count true = 1
  swapped : b.relation a = (a.relation b).inverse

/-- In one container only the ends count. -/
theorem relation_eq (h : a.container = b.container) :
    a.relation b = .ordered (compare a.start b.start) (compare a.stop b.stop) := by
  rw [relation, compareStarts?, compareStops?, if_pos h, if_pos h]

theorem relation_of_ne (h : a.container ≠ b.container) : a.relation b = .unrelated := by
  rw [relation, compareStarts?, compareStops?, if_neg h, if_neg h]

/-- Ranges of which one comes first share their container. -/
theorem container_eq_of_precedes (h : (a.relation b).precedes = true) : a.container = b.container := by
  by_contra hne
  rw [relation_of_ne hne] at h
  cases h

theorem precedes_iff (h : a.container = b.container) : (a.relation b).precedes = true ↔
    a.start < b.start ∨ a.start = b.start ∧ b.stop < a.stop := by
  have hspans : a.relation b = (ofSpan a.toSpan).relation (.ofSpan b.toSpan) := by
    rw [relation_eq h]
    rfl
  rw [hspans, Command.precedes_relation, Bool.not_eq_true', Span.notAfter]
  simp only [Bool.or_eq_false_iff, Bool.and_eq_false_iff, decide_eq_false_iff_not, beq_eq_false_iff_ne]
  omega

theorem encloses_iff (h : a.container = b.container) : (a.relation b).encloses = true ↔
    a.start ≤ b.start ∧ b.stop ≤ a.stop ∧ a ≠ b := by
  have hne : a ≠ b ↔ ¬(a.start = b.start ∧ a.stop = b.stop) := by
    obtain ⟨⟨s, e⟩, k⟩ := a
    obtain ⟨⟨s', e'⟩, k'⟩ := b
    obtain rfl : k = k' := h
    simp
  rw [relation_eq h, hne]
  rcases lt_trichotomy a.start b.start with hs | hs | hs <;>
    rcases lt_trichotomy a.stop b.stop with he | he | he <;>
    simp [compare_lt_iff_lt.2, compare_gt_iff_gt.2, hs, he, Relation.encloses] <;> omega

theorem orderedByEnds (h : a.container = b.container) : a.OrderedByEnds b where
  precedes_iff := precedes_iff h
  encloses_iff := encloses_iff h
  trichotomy := by
    rw [relation_eq h]
    cases compare a.start b.start <;> cases compare a.stop b.stop <;> rfl
  swapped := by
    rw [relation_eq h, relation_eq h.symm, Relation.inverse, Nat.compare_swap, Nat.compare_swap]

theorem precedes_self (a : TextRange) : (a.relation a).precedes = false := by
  rw [← Bool.not_eq_true, precedes_iff rfl]
  omega

/-- Document order is transitive, ranges that overlap in part included. -/
theorem precedes_trans (hab : (a.relation b).precedes = true) (hbc : (b.relation c).precedes = true) :
    (a.relation c).precedes = true := by
  have hca := container_eq_of_precedes hab
  have hcb := container_eq_of_precedes hbc
  rw [precedes_iff hca] at hab
  rw [precedes_iff hcb] at hbc
  rw [precedes_iff (hca.trans hcb)]
  omega

end TextRange

/-! ### Sorted bookmarks -/

namespace Document

/-- Sorted bookmarks follow each other in document order. -/
theorem pairwise_sortedBookmarks (d : Document) :
    d.sortedBookmarks.Pairwise fun b b' => b.span.notAfter b'.span = true := by
  refine List.pairwise_mergeSort (fun _ _ _ hab hbc => ?_) (fun _ _ => ?_) d.bookmarks
  · exact Span.notAfter_trans hab hbc
  · exact Span.notAfter_total _ _

end Document

/-! ### The commands of a document -/

namespace Command

variable {d : Document} {cs : List Command}

/-- A command that comes before none of a list is put at its end. -/
theorem insertInOrder_eq_append {c : Command}
    (h : ∀ x ∈ cs, comesBefore d (c.range? d) x = false) : insertInOrder d c cs = cs ++ [c] := by
  obtain ⟨earlier, later, rfl, hinsert, -, hfirst⟩ := exists_insertInOrder d c cs
  cases later with
  | nil => simpa using hinsert
  | cons first rest => simp [h first (by simp)] at hfirst

/-- Commands found in order stay as they are found. -/
theorem discover_eq_append {names : List String} (h : InOrder d (cs ++ names.filterMap ofBookmark?)) :
    discover d names cs = cs ++ names.filterMap ofBookmark? := by
  suffices key : ∀ ds cs, InOrder d (cs ++ ds) →
      ds.foldl (fun cs c => insertInOrder d c cs) cs = cs ++ ds from key _ cs h
  intro ds
  induction ds with
  | nil => simp
  | cons c ds ih =>
    intro cs h
    have hc : ∀ x ∈ cs, comesBefore d (c.range? d) x = false := fun x hx =>
      (List.pairwise_append.1 h).2.2 x hx c List.mem_cons_self
    rw [List.foldl_cons, insertInOrder_eq_append hc, ih (cs ++ [c]) (by simpa using h)]
    simp

/-- The commands that sorted bookmarks hold are in document order. -/
theorem inOrder_sortedBookmarks (hd : d.names.Nodup) :
    InOrder d (d.bookmarkNames.filterMap ofBookmark?) := by
  rw [Document.bookmarkNames, List.filterMap_map, InOrder, List.pairwise_filterMap]
  refine d.pairwise_sortedBookmarks.imp_of_mem fun {b b'} hb hb' hle => ?_
  intro c hc c' hc'
  rw [← Bool.not_eq_true, comesBefore_iff, bookmark_of_ofBookmark? hc, bookmark_of_ofBookmark? hc',
    Document.span?_of_mem hd (List.mem_mergeSort.1 hb), Document.span?_of_mem hd (List.mem_mergeSort.1 hb')]
  rintro ⟨s, t, hs, ht, hst⟩
  cases hs
  cases ht
  rw [hle] at hst
  cases hst

end Command

/-- **There is one document order.**  For ranges of one container, the relation that orders commands is the
order by starts and, backwards, by stops, which sorts bookmarks; it is a strict order.  So the commands of a
document are those in its bookmarks' names, in their order. -/
theorem ofDocument_inOrderOfNames {d : Document} (hd : d.names.Nodup) :
    (∀ a b : TextRange, a.container = b.container → a.OrderedByEnds b) ∧
    (∀ a : TextRange, (a.relation a).precedes = false) ∧
    (∀ a b c : TextRange, (a.relation b).precedes = true → (b.relation c).precedes = true →
      (a.relation c).precedes = true) ∧
    Command.ofDocument d = d.bookmarkNames.filterMap Command.ofBookmark? := by
  refine ⟨fun _ _ h => TextRange.orderedByEnds h, TextRange.precedes_self,
    fun _ _ _ => TextRange.precedes_trans, ?_⟩
  have hnames : Command.unknownNames d (Command.surviving d []) = d.bookmarkNames :=
    List.filter_eq_self.2 fun _ _ => rfl
  show Command.discover d (Command.unknownNames d (Command.surviving d [])) [] = _
  rw [hnames]
  exact Command.discover_eq_append (Command.inOrder_sortedBookmarks hd)

/-- A document in which two commands overlap in part and two others have one range. -/
def overlappingCommands : Document :=
  { Document.ofText "0123456789".toList with
    bookmarks := [⟨"DOC(CMD 'form')", ⟨4, 8⟩⟩, ⟨"DOC(CMD 'setJumpMark')", ⟨2, 3⟩⟩,
      ⟨"unrelated", ⟨2, 6⟩⟩, ⟨"DOC(CMD 'insertContent')", ⟨2, 3⟩⟩, ⟨"DOC(CMD 'updateFields')", ⟨2, 5⟩⟩] }

/-- The longer one of those that start first, then the two with one range as they are stored. -/
theorem ofDocument_inOrderOfNames_overlappingCommands :
    (Command.ofDocument overlappingCommands).map (·.bookmark) =
      ["DOC(CMD 'updateFields')", "DOC(CMD 'setJumpMark')", "DOC(CMD 'insertContent')", "DOC(CMD 'form')"] ∧
    ((TextRange.ofSpan ⟨2, 5⟩).relation (.ofSpan ⟨4, 8⟩)).precedes = true := by
  have h := ofDocument_inOrderOfNames (d := overlappingCommands) (by decide)
  refine ⟨?_, (h.1 (.ofSpan ⟨2, 5⟩) (.ofSpan ⟨4, 8⟩) rfl).precedes_iff.2 (by decide)⟩
  rw [h.2.2.2]
  cbv

end TemplateEngine
