import Runbook.Number

/-!
# JSON values

The values that runners return and records hold.
-/

namespace Runbook

/-- A JSON value. The members of an object that was read are in ascending order of name. -/
inductive Json where
  /-- No value. -/
  | null
  /-- A truth value. -/
  | bool (value : Bool)
  /-- A number. -/
  | number (value : Number)
  /-- A text. -/
  | string (value : String)
  /-- Values in order. -/
  | array (items : List Json)
  /-- Values by name. -/
  | object (members : List (String × Json))

namespace Json

instance : Inhabited Json := ⟨.null⟩

mutual

/-- Decides whether two values are equal. -/
def decideEq : (a b : Json) → Decidable (a = b)
  | .null, .null => isTrue rfl
  | .bool a, .bool b => if h : a = b then isTrue (h ▸ rfl) else isFalse (by simp [h])
  | .number a, .number b => if h : a = b then isTrue (h ▸ rfl) else isFalse (by simp [h])
  | .string a, .string b => if h : a = b then isTrue (h ▸ rfl) else isFalse (by simp [h])
  | .array a, .array b =>
    match decideEqItems a b with
    | isTrue h => isTrue (h ▸ rfl)
    | isFalse h => isFalse (by simp [h])
  | .object a, .object b =>
    match decideEqMembers a b with
    | isTrue h => isTrue (h ▸ rfl)
    | isFalse h => isFalse (by simp [h])
  | .null, .bool _ | .null, .number _ | .null, .string _ | .null, .array _ | .null, .object _
  | .bool _, .null | .bool _, .number _ | .bool _, .string _ | .bool _, .array _
  | .bool _, .object _ | .number _, .null | .number _, .bool _ | .number _, .string _
  | .number _, .array _ | .number _, .object _ | .string _, .null | .string _, .bool _
  | .string _, .number _ | .string _, .array _ | .string _, .object _ | .array _, .null
  | .array _, .bool _ | .array _, .number _ | .array _, .string _ | .array _, .object _
  | .object _, .null | .object _, .bool _ | .object _, .number _ | .object _, .string _
  | .object _, .array _ => isFalse (by simp)

/-- Decides whether two lists of values are equal. -/
def decideEqItems : (a b : List Json) → Decidable (a = b)
  | [], [] => isTrue rfl
  | a :: as, b :: bs =>
    match decideEq a b, decideEqItems as bs with
    | isTrue h, isTrue hs => isTrue (by rw [h, hs])
    | isFalse h, _ => isFalse (by simp [h])
    | _, isFalse hs => isFalse (by simp [hs])
  | [], _ :: _ | _ :: _, [] => isFalse (by simp)

/-- Decides whether two lists of members are equal. -/
def decideEqMembers : (a b : List (String × Json)) → Decidable (a = b)
  | [], [] => isTrue rfl
  | (j, a) :: as, (k, b) :: bs =>
    if hk : j = k then
      match decideEq a b, decideEqMembers as bs with
      | isTrue h, isTrue hs => isTrue (by rw [hk, h, hs])
      | isFalse h, _ => isFalse (by simp [h])
      | _, isFalse hs => isFalse (by simp [hs])
    else isFalse (by simp [hk])
  | [], _ :: _ | _ :: _, [] => isFalse (by simp)

end

instance : DecidableEq Json := decideEq

end Json

end Runbook
