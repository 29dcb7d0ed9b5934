import TemplateEngine.NameSet

/-!
# Style — style families and style sheets

A document holds named styles in three families.  Family names are read without regard to ASCII
case.
-/

namespace TemplateEngine

/-- Whether two names agree up to ASCII case. -/
def sameName (a b : String) : Bool := a.toLower == b.toLower

/-- The families of styles. -/
inductive StyleFamily where
  | text
  | page
  | numbering
  deriving DecidableEq, Repr

namespace StyleFamily

/-- All families, in the order they are listed. -/
def all : List StyleFamily := [.text, .page, .numbering]

/-- The name of a family. -/
def name : StyleFamily → String
  | .text => "textstyles"
  | .page => "pagestyles"
  | .numbering => "numberingstyles"

/-- The family of that name. -/
def ofName? (s : String) : Option StyleFamily := all.find? fun f => sameName s f.name

theorem mem_all (f : StyleFamily) : f ∈ all := by cases f <;> decide

end StyleFamily

/-- The style names of each family. -/
structure StyleSheet where
  text : NameSet
  page : NameSet
  numbering : NameSet
  deriving DecidableEq

namespace StyleSheet

/-- The sheet without styles. -/
def empty : StyleSheet := ⟨.empty, .empty, .empty⟩

/-- The style names of a family. -/
def get (s : StyleSheet) : StyleFamily → NameSet
  | .text => s.text
  | .page => s.page
  | .numbering => s.numbering

/-- The sheet with the style names of one family replaced. -/
def set (s : StyleSheet) (names : NameSet) : StyleFamily → StyleSheet
  | .text => { s with text := names }
  | .page => { s with page := names }
  | .numbering => { s with numbering := names }

/-- The sheet with more names in one family. -/
def addAll (s : StyleSheet) (f : StyleFamily) (names : List String) : StyleSheet :=
  s.set ((s.get f).insertAll names) f

theorem get_set (s : StyleSheet) (names : NameSet) (f g : StyleFamily) :
    (s.set names f).get g = if f = g then names else s.get g := by
  cases f <;> cases g <;> rfl

end StyleSheet

end TemplateEngine
