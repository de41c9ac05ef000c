import Storyboard.Number

namespace Storyboard

/-- A JSON value over a type of scalars. -/
inductive Json (R : Type) where
  | null
  | bool (b : Bool)
  | num (n : Number R)
  | str (s : String)
  | arr (items : List (Json R))
  | obj (members : List (String × Json R))
  deriving Inhabited

abbrev Members (R : Type) := List (String × Json R)

namespace Members

variable {α : Type}

def get? (name : String) : List (String × α) → Option α
  | [] => none
  | (n, v) :: rest => if n == name then some v else get? name rest

def has (name : String) (ms : List (String × α)) : Bool := (get? name ms).isSome

/-- The members with a name's value replaced where it stands, or added at the end. -/
def insert (name : String) (value : α) : List (String × α) → List (String × α)
  | [] => [(name, value)]
  | (n, v) :: rest => if n == name then (n, value) :: rest else (n, v) :: insert name value rest

/-- The members of other names. -/
def erase (name : String) : List (String × α) → List (String × α)
  | [] => []
  | (n, v) :: rest => if n == name then erase name rest else (n, v) :: erase name rest

/-- The members put in one after another: a later value replaces an earlier one in its place. -/
def ofList (ms : List (String × α)) : List (String × α) :=
  ms.foldl (fun acc m => insert m.1 m.2 acc) []

/-- Further members put in one after another. -/
def merge (ms more : List (String × α)) : List (String × α) :=
  more.foldl (fun acc m => insert m.1 m.2 acc) ms

theorem get?_insert_self (name : String) (v : α) (ms : List (String × α)) :
    get? name (insert name v ms) = some v := by
  induction ms with
  | nil => simp [insert, get?]
  | cons m rest ih =>
    obtain ⟨n, w⟩ := m
    by_cases h : n = name <;> simp [insert, get?, h, ih]

theorem get?_insert_of_ne {name other : String} (h : other ≠ name) (v : α)
    (ms : List (String × α)) : get? other (insert name v ms) = get? other ms := by
  induction ms with
  | nil => simp [insert, get?, Ne.symm h]
  | cons m rest ih =>
    obtain ⟨n, w⟩ := m
    by_cases hn : n = name
    · subst hn
      simp [insert, get?, Ne.symm h]
    · by_cases ho : n = other
      · subst ho
        simp [insert, get?, hn]
      · simp [insert, get?, hn, ho, ih]

end Members

namespace Json

variable {R : Type}

def kind : Json R → String
  | null => "NoneType"
  | bool _ => "bool"
  | num (.int _) => "int"
  | num (.real _) => "float"
  | str _ => "str"
  | arr _ => "list"
  | obj _ => "dict"

def int (n : Int) : Json R := num (.int n)

def real (x : R) : Json R := num (.real x)

def ofQuantity : Quantity R → Json R
  | .number n => num n
  | .text s => str s

def quantity? : Json R → Option (Quantity R)
  | num n => some (.number n)
  | str s => some (.text s)
  | _ => none

/-- Whether the value is absent in effect. -/
def isNull : Json R → Bool
  | null => true
  | _ => false

/-- Whether the value counts as filled: null, false, zero and everything empty do not. -/
def isFilled [Scalar R] : Json R → Bool
  | null => false
  | bool b => b
  | num n => !n.isZero
  | str s => s != ""
  | arr items => !items.isEmpty
  | obj members => !members.isEmpty

/-- The member under a name, where the value is an object that has it. -/
def member? (name : String) : Json R → Option (Json R)
  | obj members => Members.get? name members
  | _ => none

end Json

end Storyboard
