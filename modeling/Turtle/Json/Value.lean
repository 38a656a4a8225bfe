import Turtle.Binary64.Basic

/-! Values of structured data. Integers keep every digit; other numbers are binary ones.
The members of an object keep their order, and where a name is repeated its last value
counts. -/

namespace Turtle.Json

inductive Value where
  | null
  | bool (b : Bool)
  | integer (n : Int)
  | number (x : Binary64)
  | string (s : String)
  | array (items : List Value)
  | object (members : List (String × Value))

mutual

/-- Whether two values are equal. Values of different kinds never are. -/
def Value.decEq : (v w : Value) → Decidable (v = w)
  | .null, .null => isTrue rfl
  | .bool a, .bool b => decidable_of_iff (a = b) (by simp)
  | .integer m, .integer n => decidable_of_iff (m = n) (by simp)
  | .number x, .number y => decidable_of_iff (x = y) (by simp)
  | .string s, .string t => decidable_of_iff (s = t) (by simp)
  | .array items, .array others =>
    have := Value.decEqItems items others
    decidable_of_iff (items = others) (by simp)
  | .object members, .object others =>
    have := Value.decEqMembers members others
    decidable_of_iff (members = others) (by simp)
  | .null, .bool _ | .null, .integer _ | .null, .number _ | .null, .string _ | .null, .array _
  | .null, .object _
  | .bool _, .null | .bool _, .integer _ | .bool _, .number _ | .bool _, .string _
  | .bool _, .array _ | .bool _, .object _
  | .integer _, .null | .integer _, .bool _ | .integer _, .number _ | .integer _, .string _
  | .integer _, .array _ | .integer _, .object _
  | .number _, .null | .number _, .bool _ | .number _, .integer _ | .number _, .string _
  | .number _, .array _ | .number _, .object _
  | .string _, .null | .string _, .bool _ | .string _, .integer _ | .string _, .number _
  | .string _, .array _ | .string _, .object _
  | .array _, .null | .array _, .bool _ | .array _, .integer _ | .array _, .number _
  | .array _, .string _ | .array _, .object _
  | .object _, .null | .object _, .bool _ | .object _, .integer _ | .object _, .number _
  | .object _, .string _ | .object _, .array _ => isFalse nofun

def Value.decEqItems : (items others : List Value) → Decidable (items = others)
  | [], [] => isTrue rfl
  | [], _ :: _ => isFalse nofun
  | _ :: _, [] => isFalse nofun
  | v :: items, w :: others =>
    have := Value.decEq v w
    have := Value.decEqItems items others
    decidable_of_iff (v = w ∧ items = others) (by simp)

def Value.decEqMembers : (members others : List (String × Value)) → Decidable (members = others)
  | [], [] => isTrue rfl
  | [], _ :: _ => isFalse nofun
  | _ :: _, [] => isFalse nofun
  | (name, v) :: members, (other, w) :: others =>
    have := Value.decEq v w
    have := Value.decEqMembers members others
    decidable_of_iff ((name = other ∧ v = w) ∧ members = others) (by simp)

end

instance : DecidableEq Value := Value.decEq

/-- The value of a name among the members of an object. -/
def member? (name : String) (members : List (String × Value)) : Option Value :=
  members.reverse.lookup name

@[simp] theorem member?_nil (name : String) : member? name [] = none := rfl

/-- A later member hides the earlier ones of its name. -/
theorem member?_append_self (name : String) (v : Value) (members : List (String × Value)) :
    member? name (members ++ [(name, v)]) = some v := by
  simp [member?]

end Turtle.Json
