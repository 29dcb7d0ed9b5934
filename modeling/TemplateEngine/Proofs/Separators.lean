import Mathlib
import TemplateEngine.Command.Kind

/-!
# Separators — which text stands on which side of a value

The words of a value command name sides, and each word takes a text of its own as long as there are some, then
the last of them; without any it takes a blank.  So the text for each word is known by the word's place
(`textServed`), and a side has the text of the last word that names it (`StandsOn`).  The first word that names no
side makes the command invalid.  `ofNode_valueCommand` says so of every node that asks for a value.
-/

namespace TemplateEngine

/-! ### Words and texts of a node -/

namespace Node

/-- The words for sides below a node, in source order; one that is not written as a value is empty. -/
def sideWords (n : Node) : List String := (n.descendantsNamed "AUTOSEP").map fun a => a.value?.getD ""

/-- The texts for sides below a node, in source order, those that are written as values. -/
def sideTexts (n : Node) : List String := (n.descendantsNamed "SEPARATOR").filterMap value?

end Node

namespace CommandKind

/-- Whether a word names a side, or both. -/
def NamesSide (word : String) : Prop :=
  sameName word "left" = true ∨ sameName word "right" = true ∨ sameName word "both" = true

/-- Whether the word at a place of a list asks for a text on a side. -/
def AsksFor (words : List String) (side : String) (k : Nat) : Prop :=
  ∃ word, words[k]? = some word ∧ (sameName word side = true ∨ sameName word "both" = true)

/-- The text for the word at a place: the text at that place or, where the texts are used up, the last one;
without any texts it is `current`. -/
def textServed (current : String) (texts : List String) (k : Nat) : String :=
  texts[min k (texts.length - 1)]?.getD current

/-- Whether `s` is what stands on a side: the text for the last word that asks for it there, or what stood there
before if none does. -/
def StandsOn (start current : String) (texts words : List String) (side s : String) : Prop :=
  (∃ k, IsGreatest {k | AsksFor words side k} k ∧ s = textServed current texts k) ∨
    (∀ k, ¬AsksFor words side k) ∧ s = start

/-! ### One word and those behind it -/

variable {current start side word s : String} {texts words : List String}

theorem textServed_succ (k : Nat) :
    textServed current (s :: texts) (k + 1) = textServed s texts k := by
  cases texts with
  | nil => simp [textServed]
  | cons t texts =>
    have hplace : min (k + 1) (texts.length + 1) = min k texts.length + 1 := by omega
    have hlt : min k texts.length < (t :: texts).length := by simp only [List.length_cons]; omega
    simp only [textServed, List.length_cons, Nat.add_sub_cancel, hplace, List.getElem?_cons_succ,
      List.getElem?_eq_getElem hlt, Option.getD_some]

@[simp] theorem textServed_nil (k : Nat) : textServed current [] k = current := by simp [textServed]

@[simp] theorem textServed_zero : textServed current (s :: texts) 0 = s := by simp [textServed]

theorem asksFor_cons_zero :
    AsksFor (word :: words) side 0 ↔ sameName word side = true ∨ sameName word "both" = true := by
  simp [AsksFor]

theorem asksFor_cons_succ (k : Nat) : AsksFor (word :: words) side (k + 1) ↔ AsksFor words side k := by
  simp [AsksFor]

/-- What stands on a side when one more word comes first: `first` is its text, or what stood there before if the
word does not ask for the side; `hserved` tells the texts of the words behind it. -/
theorem StandsOn.cons {first current' : String} {texts' : List String}
    (hserved : ∀ k, textServed current texts (k + 1) = textServed current' texts' k)
    (hfirst : (AsksFor (word :: words) side 0 ∧ first = textServed current texts 0) ∨
      ¬AsksFor (word :: words) side 0 ∧ first = start)
    (h : StandsOn first current' texts' words side s) : StandsOn start current texts (word :: words) side s := by
  rcases h with ⟨k, ⟨hk, hlast⟩, rfl⟩ | ⟨hnone, rfl⟩
  · refine .inl ⟨k + 1, ⟨(asksFor_cons_succ k).2 hk, fun j hj => ?_⟩, (hserved k).symm⟩
    cases j with
    | zero => exact Nat.zero_le _
    | succ j => exact Nat.succ_le_succ (hlast ((asksFor_cons_succ j).1 hj))
  · have hbehind : ∀ k, ¬AsksFor (word :: words) side (k + 1) := fun k hk =>
      hnone k ((asksFor_cons_succ k).1 hk)
    rcases hfirst with ⟨hasks, rfl⟩ | ⟨hasks, rfl⟩
    · refine .inl ⟨0, ⟨hasks, fun j hj => ?_⟩, rfl⟩
      cases j with
      | zero => exact Nat.le_refl _
      | succ j => exact absurd hj (hbehind j)
    · refine .inr ⟨fun k => ?_, rfl⟩
      cases k with
      | zero => exact hasks
      | succ k => exact hbehind k

/-- What one word does: it puts its text on the sides it names, or it names none. -/
theorem put_spec (p : Separators) (s word : String) :
    match Separators.put p s word with
    | .ok q => NamesSide word ∧
      q.left = (if sameName word "left" ∨ sameName word "both" then s else p.left) ∧
      q.right = (if sameName word "right" ∨ sameName word "both" then s else p.right)
    | .error e => ¬NamesSide word ∧ e = .unknownSide word := by
  have hdiffer : ∀ a b : String, a.toLower ≠ b.toLower → sameName word a = true → sameName word b = false :=
    fun a b hab ha => by
      simp only [sameName, beq_iff_eq, beq_eq_false_iff_ne] at ha ⊢
      rwa [ha]
  unfold Separators.put NamesSide
  by_cases hleft : sameName word "left" = true
  · simp [hleft, hdiffer "left" "right" (by cbv) hleft, hdiffer "left" "both" (by cbv) hleft]
  by_cases hright : sameName word "right" = true
  · simp [hleft, hright, hdiffer "right" "both" (by cbv) hright]
  by_cases hboth : sameName word "both" = true
  · simp [hleft, hright, hboth]
  · simp [hleft, hright, hboth]

/-! ### All words -/

/-- The first word takes its text, and the others take theirs from what is left. -/
theorem exists_serveSides_cons (current : String) (texts : List String) (word : String) (words : List String) :
    ∃ current' texts', (∀ k, textServed current texts (k + 1) = textServed current' texts' k) ∧
      ∀ p, serveSides p current texts (word :: words) =
        Separators.put p (textServed current texts 0) word >>= fun q => serveSides q current' texts' words := by
  cases texts with
  | nil => exact ⟨current, [], by simp, fun _ => rfl⟩
  | cons s texts => exact ⟨s, texts, textServed_succ, fun _ => rfl⟩

/-- What serving all words gives, by the texts for the words at their places. -/
theorem serveSides_spec (p : Separators) (current : String) (texts words : List String) :
    match serveSides p current texts words with
    | .ok q => (∀ word ∈ words, NamesSide word) ∧ StandsOn p.left current texts words "left" q.left ∧
      StandsOn p.right current texts words "right" q.right
    | .error e => ∃ before word after, words = before ++ word :: after ∧
      (∀ word ∈ before, NamesSide word) ∧ ¬NamesSide word ∧ e = .unknownSide word := by
  induction words generalizing p current texts with
  | nil =>
    have hnone : ∀ side k, ¬AsksFor [] side k := by simp [AsksFor]
    cases texts <;>
      exact ⟨by simp, .inr ⟨hnone "left", rfl⟩, .inr ⟨hnone "right", rfl⟩⟩
  | cons word words ih =>
    obtain ⟨current', texts', hserved, hserve⟩ := exists_serveSides_cons current texts word words
    rw [hserve]
    have hput := put_spec p (textServed current texts 0) word
    cases hq : Separators.put p (textServed current texts 0) word with
    | error e =>
      rw [hq] at hput
      exact ⟨[], word, words, rfl, by simp, hput.1, hput.2⟩
    | ok q =>
      rw [hq] at hput
      obtain ⟨hnames, hleft, hright⟩ := hput
      have hrest := ih q current' texts'
      show match serveSides q current' texts' words with | .ok _ => _ | .error _ => _
      cases hr : serveSides q current' texts' words with
      | error e =>
        rw [hr] at hrest
        obtain ⟨before, word', after, rfl, hbefore, hword', rfl⟩ := hrest
        exact ⟨word :: before, word', after, rfl, by simpa using ⟨hnames, hbefore⟩, hword', rfl⟩
      | ok r =>
        rw [hr] at hrest
        obtain ⟨hall, hl, hrr⟩ := hrest
        have hfirst : ∀ {side first start}, first = (if sameName word side ∨ sameName word "both" then
            textServed current texts 0 else start) →
            (AsksFor (word :: words) side 0 ∧ first = textServed current texts 0) ∨
              ¬AsksFor (word :: words) side 0 ∧ first = start := fun hfirst => by
          rw [asksFor_cons_zero]
          split at hfirst
          next h => exact .inl ⟨h, hfirst⟩
          next h => exact .inr ⟨h, hfirst⟩
        exact ⟨by simpa using ⟨hnames, hall⟩, hl.cons hserved (hfirst hleft),
          hrr.cons hserved (hfirst hright)⟩

/-! ### Commands for values -/

/-- A node that asks for a value is read by its words and texts. -/
theorem ofNode_of_insertValue {n : Node} {cmd column : String} (hcmd : n.childValue? "CMD" = some cmd)
    (hvalue : sameName cmd "insertValue" = true) (hcolumn : n.childValue? "DB_SPALTE" = some column) :
    ofNode n = match serveSides ⟨"", ""⟩ " " n.sideTexts n.sideWords with
      | .ok separators => .insertValue ⟨column, separators, n.childValue? "TRAFO"⟩
      | .error e => .invalid e := by
  have hlower : cmd.toLower = "insertvalue" := by
    rw [sameName, beq_iff_eq] at hvalue
    rw [hvalue]
    cbv
  have hread : read n = insertValue <$> valueRequest n := by
    unfold read
    rw [hcmd]
    dsimp only
    rw [hlower]
    rfl
  have hrequired : required n "DB_SPALTE" = .ok column := by rw [required, hcolumn]
  have hserved : read n = (fun separators => insertValue ⟨column, separators, n.childValue? "TRAFO"⟩) <$>
      serveSides ⟨"", ""⟩ " " n.sideTexts n.sideWords := by
    rw [hread, valueRequest, hrequired]
    show insertValue <$> (serveSides ⟨"", ""⟩ " " n.sideTexts n.sideWords >>= _) = _
    cases serveSides ⟨"", ""⟩ " " n.sideTexts n.sideWords <;> rfl
  rw [ofNode, hserved]
  cases serveSides ⟨"", ""⟩ " " n.sideTexts n.sideWords <;> rfl

/-- A node that asks for a value and names its column is a command for it exactly if each of its words names a
side.  Then each side has the text for the last word that asks for it there, or nothing; else the command is
invalid, for the first word that names no side. -/
theorem ofNode_valueCommand {n : Node} {cmd column : String} (hcmd : n.childValue? "CMD" = some cmd)
    (hvalue : sameName cmd "insertValue" = true) (hcolumn : n.childValue? "DB_SPALTE" = some column) :
    ((∃ request, ofNode n = .insertValue request) ↔ ∀ word ∈ n.sideWords, NamesSide word) ∧
    (∀ request, ofNode n = .insertValue request →
      request.column = column ∧ request.transform = n.childValue? "TRAFO" ∧
      StandsOn "" " " n.sideTexts n.sideWords "left" request.separators.left ∧
      StandsOn "" " " n.sideTexts n.sideWords "right" request.separators.right) ∧
    ((∃ word ∈ n.sideWords, ¬NamesSide word) → ∃ before word after defect,
      n.sideWords = before ++ word :: after ∧ (∀ word ∈ before, NamesSide word) ∧ ¬NamesSide word ∧
      ofNode n = .invalid defect ∧
      defect.message =
        "unknown AUTOSEP type \"" ++ word ++ "\", expected \"left\", \"right\" or \"both\"") := by
  have hspec := serveSides_spec ⟨"", ""⟩ " " n.sideTexts n.sideWords
  rw [ofNode_of_insertValue hcmd hvalue hcolumn]
  cases hserve : serveSides ⟨"", ""⟩ " " n.sideTexts n.sideWords with
  | ok separators =>
    rw [hserve] at hspec
    obtain ⟨hall, hleft, hright⟩ := hspec
    refine ⟨⟨fun _ => hall, fun _ => ⟨_, rfl⟩⟩, ?_, fun ⟨word, hword, hnot⟩ => absurd (hall word hword) hnot⟩
    rintro _ ⟨⟩
    exact ⟨rfl, rfl, hleft, hright⟩
  | error e =>
    rw [hserve] at hspec
    obtain ⟨before, word, after, hwords, hbefore, hword, rfl⟩ := hspec
    refine ⟨⟨?_, fun h => absurd (h word (by simp [hwords])) hword⟩, ?_, fun _ =>
      ⟨before, word, after, _, hwords, hbefore, hword, rfl, rfl⟩⟩
    · rintro ⟨_, ⟨⟩⟩
    · rintro _ ⟨⟩

/-- A value with a word that stands deeper than the others, a text that is not written as a value, and one word
more than there are texts. -/
def scatteredSides : Node :=
  ⟨"DOC", [.keyValue "CMD" "INSERTVALUE", .keyValue "DB_SPALTE" "Name", .keyValue "AUTOSEP" "left",
    ⟨"SEPARATOR", [.leaf "(", .keyValue "SEPARATOR" "-"]⟩, ⟨"MORE", [.keyValue "AUTOSEP" "Both"]⟩,
    .keyValue "SEPARATOR" "+", .keyValue "AUTOSEP" "RIGHT"]⟩

/-- The text on the left is that of the second word, the one on the right that of the third, which is the same
one. -/
theorem ofNode_valueCommand_scatteredSides :
    scatteredSides.childValue? "CMD" = some "INSERTVALUE" ∧ sameName "INSERTVALUE" "insertValue" = true ∧
    scatteredSides.childValue? "DB_SPALTE" = some "Name" ∧
    scatteredSides.sideWords = ["left", "Both", "RIGHT"] ∧ scatteredSides.sideTexts = ["-", "+"] ∧
    ofNode scatteredSides = .insertValue ⟨"Name", ⟨"+", "+"⟩, none⟩ ∧
    StandsOn "" " " ["-", "+"] ["left", "Both", "RIGHT"] "left" "+" ∧
    StandsOn "" " " ["-", "+"] ["left", "Both", "RIGHT"] "right" "+" := by
  have hcmd : scatteredSides.childValue? "CMD" = some "INSERTVALUE" := by decide
  have hvalue : sameName "INSERTVALUE" "insertValue" = true := by cbv
  have hcolumn : scatteredSides.childValue? "DB_SPALTE" = some "Name" := by decide
  have hwords : scatteredSides.sideWords = ["left", "Both", "RIGHT"] := by decide
  have htexts : scatteredSides.sideTexts = ["-", "+"] := by decide
  have hserve : serveSides ⟨"", ""⟩ " " ["-", "+"] ["left", "Both", "RIGHT"] = .ok ⟨"+", "+"⟩ := by cbv
  have hkind : ofNode scatteredSides = .insertValue ⟨"Name", ⟨"+", "+"⟩, none⟩ := by
    rw [ofNode_of_insertValue hcmd hvalue hcolumn, htexts, hwords, hserve]
    rfl
  obtain ⟨-, hsides, -⟩ := ofNode_valueCommand hcmd hvalue hcolumn
  obtain ⟨-, -, hleft, hright⟩ := hsides _ hkind
  exact ⟨hcmd, hvalue, hcolumn, hwords, htexts, hkind, hleft, hright⟩

end CommandKind

end TemplateEngine
