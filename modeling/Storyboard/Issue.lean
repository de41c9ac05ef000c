namespace Storyboard

/-- A step from a value to a part of it. -/
inductive Step where
  | key (name : String)
  | index (n : Nat)
  deriving DecidableEq, Repr

/-- What is wrong with a value. -/
inductive IssueKind where
  | missing
  | notARecord
  | notAttributes
  | notAList
  | notAMap
  | notAText
  | halfInText
  | notAWhole
  | wholeUnreadable
  | wholeTooLong
  | wholeFromFraction
  | notFinite
  | notAReal
  | realUnreadable
  | notAFlag
  | flagUnreadable
  | notAChoice
  | notPositive
  | belowMinimum
  | tagMissing
  | tagUnknown
  | nestedTooDeep
  deriving DecidableEq, Repr

def IssueKind.name : IssueKind → String
  | missing => "missing"
  | notARecord => "model_type"
  | notAttributes => "model_attributes_type"
  | notAList => "list_type"
  | notAMap => "dict_type"
  | notAText => "string_type"
  | halfInText => "string_unicode"
  | notAWhole => "int_type"
  | wholeUnreadable => "int_parsing"
  | wholeTooLong => "int_parsing_size"
  | wholeFromFraction => "int_from_float"
  | notFinite => "finite_number"
  | notAReal => "float_type"
  | realUnreadable => "float_parsing"
  | notAFlag => "bool_type"
  | flagUnreadable => "bool_parsing"
  | notAChoice => "literal_error"
  | notPositive => "greater_than"
  | belowMinimum => "greater_than_equal"
  | tagMissing => "union_tag_not_found"
  | tagUnknown => "union_tag_invalid"
  | nestedTooDeep => "recursion_depth_exceeded"

structure Issue where
  kind : IssueKind
  place : List Step
  deriving DecidableEq, Repr

namespace Issue

/-- An issue with the value itself. -/
def here (kind : IssueKind) : Issue := ⟨kind, []⟩

def under (step : Step) (i : Issue) : Issue := { i with place := step :: i.place }

end Issue

/-- A value read from a document, or every issue found on the way. -/
abbrev Checked (α : Type) := Except (List Issue) α

namespace Checked

def fail {α : Type} (kind : IssueKind) : Checked α := .error [.here kind]

def under {α : Type} (step : Step) (c : Checked α) : Checked α :=
  c.mapError fun issues => issues.map (·.under step)

/-- Both readings; the issues of the first come before those of the second. -/
def both {α β γ : Type} (f : α → β → γ) : Checked α → Checked β → Checked γ
  | .ok a, .ok b => .ok (f a b)
  | .error e, .ok _ => .error e
  | .ok _, .error e => .error e
  | .error e, .error e' => .error (e ++ e')

def all {α β : Type} (read : α → Checked β) : List α → Checked (List β)
  | [] => .ok []
  | a :: as => both List.cons (read a) (all read as)

/-- All readings of a list, each under its place in the list. -/
def indexed {α β : Type} (read : α → Checked β) : Nat → List α → Checked (List β)
  | _, [] => .ok []
  | n, a :: as => both List.cons ((read a).under (.index n)) (indexed read (n + 1) as)

theorem both_eq_ok {α β γ : Type} {f : α → β → γ} {a : Checked α} {b : Checked β} {c : γ} :
    both f a b = .ok c ↔ ∃ x y, a = .ok x ∧ b = .ok y ∧ f x y = c := by
  cases a <;> cases b <;> simp [both]

theorem under_eq_ok {α : Type} {s : Step} {c : Checked α} {x : α} :
    c.under s = .ok x ↔ c = .ok x := by
  cases c with
  | ok y => exact Iff.rfl
  | error issues =>
    constructor
    · intro h
      cases h
    · intro h
      cases h

end Checked

end Storyboard
