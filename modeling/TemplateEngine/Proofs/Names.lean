import Mathlib.Data.List.Nodup
import Mathlib.Data.List.TakeWhile
import Mathlib.Data.List.Perm.Subperm
import TemplateEngine.Command.Basic

/-!
# Names — how bookmarks get theirs

A bookmark gets the name that is asked for or, if that is taken, the name with a number behind it.
`uniqueName_free` says that the name it gets is free: there is one candidate more than there are
bookmarks.  The number does not change what the name says, so a command imported under another name
is the same command (`Variant.ofBookmark?`).
-/

namespace TemplateEngine

/-! ### Numbers behind names -/

theorem toString_toList (k : Nat) : (toString k).toList = Nat.toDigits 10 k := by
  rw [Nat.toString_eq_ofList_toDigits, String.toList_ofList]

theorem append_toString_injective (name : String) {i j : Nat}
    (h : name ++ toString i = name ++ toString j) : i = j := by
  have h' := congrArg String.toList h
  rw [String.toList_append, String.toList_append, toString_toList, toString_toList] at h'
  have hd := congrArg (fun ds => Nat.ofDigitChars 10 ds 0) (List.append_cancel_left h')
  simpa using hd

theorem append_toString_ne (name : String) (k : Nat) : name ++ toString k ≠ name := by
  intro h
  have h' := congrArg String.toList h
  rw [String.toList_append, toString_toList, List.append_right_eq_self] at h'
  exact Nat.toDigits_ne_nil h'

/-- A name, or the name with a number behind it. -/
def Variant (name variant : String) : Prop := variant = name ∨ ∃ k : Nat, variant = name ++ toString k

/-! ### The free name -/

namespace Document

theorem isTaken_iff {d : Document} {except : Option String} {name : String} :
    d.isTaken except name = true ↔ name ∈ d.bookmarks.map (·.name) ∧ some name ≠ except := by
  simp only [isTaken, List.any_eq_true, Bool.and_eq_true, beq_iff_eq, bne_iff_ne, List.mem_map]
  constructor
  · rintro ⟨b, hb, rfl, he⟩
    exact ⟨⟨b, hb, rfl⟩, he⟩
  · rintro ⟨⟨b, hb, rfl⟩, he⟩
    exact ⟨b, hb, rfl, he⟩

theorem variant_of_mem_candidates {d : Document} {name c : String} (h : c ∈ d.candidates name) :
    Variant name c := by
  simp only [candidates, List.mem_cons, List.mem_map] at h
  obtain rfl | ⟨n, -, rfl⟩ := h
  · exact .inl rfl
  · exact .inr ⟨n + 1, rfl⟩

theorem nodup_candidates (d : Document) (name : String) : (d.candidates name).Nodup := by
  refine List.nodup_cons.2 ⟨fun h => ?_, ?_⟩
  · obtain ⟨n, -, hn⟩ := List.mem_map.1 h
    exact append_toString_ne name (n + 1) hn
  · refine List.Nodup.map (fun i j h => ?_) List.nodup_range
    have := append_toString_injective name h
    omega

theorem length_candidates (d : Document) (name : String) :
    (d.candidates name).length = d.bookmarks.length + 1 := by
  simp [candidates]

/-- Some candidate is free, as there are more of them than bookmarks. -/
theorem exists_free_candidate (d : Document) (name : String) (except : Option String) :
    ∃ c ∈ d.candidates name, d.isTaken except c = false := by
  by_contra hall
  have hsub : d.candidates name ⊆ d.bookmarks.map (·.name) := by
    intro c hc
    by_contra hn
    refine hall ⟨c, hc, ?_⟩
    rw [Bool.eq_false_iff]
    exact fun ht => hn (isTaken_iff.1 ht).1
  have hle := (List.subperm_of_subset (nodup_candidates d name) hsub).length_le
  rw [length_candidates, List.length_map] at hle
  omega

theorem find?_candidates (d : Document) (name : String) (except : Option String) :
    (d.candidates name).find? (fun c => !d.isTaken except c) = some (d.uniqueName name except) := by
  cases h : (d.candidates name).find? (fun c => !d.isTaken except c) with
  | some c => simp [uniqueName, h]
  | none =>
    obtain ⟨c, hc, hfree⟩ := exists_free_candidate d name except
    have := List.find?_eq_none.1 h c hc
    simp [hfree] at this

/-- No bookmark has the name found, except the one that may keep it. -/
theorem uniqueName_free (d : Document) (name : String) (except : Option String) :
    d.isTaken except (d.uniqueName name except) = false := by
  simpa using List.find?_some (find?_candidates d name except)

theorem uniqueName_notMem (d : Document) (name : String) :
    d.uniqueName name none ∉ d.bookmarks.map (·.name) := by
  intro h
  have := uniqueName_free d name none
  rw [Bool.eq_false_iff] at this
  exact this (isTaken_iff.2 ⟨h, by simp⟩)

/-- The name found is the one asked for or that with a number behind it. -/
theorem variant_uniqueName (d : Document) (name : String) (except : Option String) :
    Variant name (d.uniqueName name except) :=
  variant_of_mem_candidates (List.mem_of_find?_eq_some (find?_candidates d name except))

end Document

/-! ### What names with numbers say -/

theorem isDecimalDigit_of_isDigit {c : Char} (h : c.isDigit = true) : isDecimalDigit c = true := by
  simp only [Char.isDigit, Bool.and_eq_true, decide_eq_true_eq, UInt32.le_iff_toNat_le] at h
  have h1 : 0x30 ≤ c.toNat := h.1
  have h2 : c.toNat ≤ 0x39 := h.2
  have h3 : ¬ c.toNat < 0x30 := by omega
  have h4 : c.toNat < 0x3a := by omega
  simp [isDecimalDigit, CharacterSet.contains, decimalDigits, CharacterSet.onAt, h3, h4]

theorem isDecimalDigit_of_mem_toString {k : Nat} {c : Char} (h : c ∈ (toString k).toList) :
    isDecimalDigit c = true := by
  rw [toString_toList] at h
  exact isDecimalDigit_of_isDigit (Nat.isDigit_of_mem_toDigits (by decide) (by decide) h)

/-- Digits behind a name are not part of the command it holds. -/
theorem commandCore_append {name digits : Text} (h : ∀ c ∈ digits, isDecimalDigit c = true) :
    commandCore (name ++ digits) = commandCore name := by
  unfold commandCore
  rw [List.dropWhile_append]
  split
  next hempty =>
    have hrest : ((digits.dropWhile isBlank).reverse.dropWhile isDecimalDigit) = [] := by
      rw [List.dropWhile_eq_nil_iff]
      intro c hc
      exact h c ((List.dropWhile_suffix _).subset (List.mem_reverse.1 hc))
    rw [hrest, List.isEmpty_iff.1 hempty]
    rfl
  next =>
    rw [List.reverse_append, List.dropWhile_append_of_pos]
    exact fun c hc => h c (List.mem_reverse.1 hc)

theorem commandText?_append {name digits : Text} (h : ∀ c ∈ digits, isDecimalDigit c = true) :
    commandText? (name ++ digits) = commandText? name := by
  unfold commandText?
  rw [commandCore_append h]

/-- A variant of a name holds the same command. -/
theorem Variant.commandText? {name variant : String} (h : Variant name variant) :
    commandText? variant.toList = commandText? name.toList := by
  obtain rfl | ⟨k, rfl⟩ := h
  · rfl
  · rw [String.toList_append]
    exact commandText?_append fun c hc => isDecimalDigit_of_mem_toString hc

/-- The command that a name holds depends on the part of the name that is the command. -/
theorem ofBookmark?_congr {name variant : String}
    (h : commandText? variant.toList = commandText? name.toList) :
    Command.ofBookmark? variant =
      (Command.ofBookmark? name).map fun c => { c with bookmark := variant } := by
  unfold Command.ofBookmark?
  rw [h, Option.map_map]
  congr 1
  funext t
  simp only [Function.comp]
  cases parseNode t <;> rfl

theorem Variant.ofBookmark? {name variant : String} (h : Variant name variant) :
    Command.ofBookmark? variant =
      (Command.ofBookmark? name).map fun c => { c with bookmark := variant } :=
  ofBookmark?_congr h.commandText?

theorem Command.bookmark_of_ofBookmark? {name : String} {c : Command}
    (h : Command.ofBookmark? name = some c) : c.bookmark = name := by
  obtain ⟨t, -, rfl⟩ := Option.map_eq_some_iff.1 h
  cases parseNode t <;> rfl

theorem Command.marked_of_ofBookmark? {name : String} {c : Command}
    (h : Command.ofBookmark? name = some c) : c.marked = false := by
  obtain ⟨t, -, rfl⟩ := Option.map_eq_some_iff.1 h
  cases parseNode t <;> rfl

end TemplateEngine
