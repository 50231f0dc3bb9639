/-!
# Types of named values

A type of finitely many values gives each of them a name, by which documents refer to it.

* `Named`           the values of a type and their names;
* `Named.ofName?`   the value with a name.

Main statement: a name finds the value that bears it (`ofName?_name`), so names are distinct
(`name_injective`).
-/

namespace Observing

/-- A type of finitely many values with a name each. -/
class Named (α : Type) where
  values : List α
  name : α → String
  find?_name : ∀ a, values.find? (fun b => name b == name a) = some a := by
    intro a; cases a <;> rfl

namespace Named

variable {α : Type} [Named α]

def ofName? (s : String) : Option α :=
  (values : List α).find? fun a => name a == s

theorem ofName?_name (a : α) : ofName? (name a) = some a :=
  find?_name a

theorem name_injective {a b : α} (h : name a = name b) : a = b := by
  have ha := ofName?_name a
  rw [h, ofName?_name b] at ha
  exact (Option.some.inj ha).symm

end Named
end Observing
