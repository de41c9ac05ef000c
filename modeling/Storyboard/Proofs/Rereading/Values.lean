import Storyboard.Proofs.Rereading.Fields

namespace Storyboard

variable {R α : Type}

namespace Codec

/-- Every value is read back as it is. -/
def Exact (c : Codec R α) : Prop := ∀ a, c.Rereads a (some a)

theorem Exact.option {c : Codec R α} (h : c.Exact) (v : Option α) : c.RereadsOption v (some v) := by
  cases v with
  | none => exact .absent
  | some a => exact .given (h a)

theorem exact_text : (text : Codec R String).Exact := fun s => ⟨by simp [text], rfl⟩

theorem exact_quantity : (quantity : Codec R (Quantity R)).Exact := fun q => by
  cases q <;> exact ⟨by simp [quantity, Json.ofQuantity], rfl⟩

theorem exact_choice {ofName? : String → Option α} {name : α → String}
    (h : ∀ a, ofName? (name a) = some a) : (choice ofName? name : Codec R α).Exact := fun a =>
  ⟨by simp [choice], reread_eq_some.mpr (by simp [choice, h a])⟩

/-- The members of a map of any values are read back as they are. -/
theorem exact_rawMap : (Codec.map raw : Codec R (Members R)).Exact := fun _ =>
  ⟨by simp [Codec.map], reread_map.mpr (List.forall₂_same.mpr fun _ _ => ⟨rfl, rfl⟩)⟩

/-- A raw value that is given is not null. -/
theorem gives_raw {ρ : Type} {name : FieldName} {get : ρ → Option (Json R)} :
    (Fields.optional name raw get).Gives fun v => raw.RereadsOption v (some v) := by
  intro ms _ v hread
  simp only [Fields.optional] at hread
  split at hread
  · cases hread
    exact .absent
  · rename_i hnull _
    cases hread
    exact .given ⟨hnull, rfl⟩
  · cases hread
    exact .absent

section

variable [Scalar R]

theorem exact_number : (number : Codec R (Number R)).Exact := fun n => ⟨by simp [number], rfl⟩

theorem exact_scalar : (scalar : Codec R R).Exact := fun x => ⟨by simp [scalar, Json.real], rfl⟩

theorem exact_whole : (whole : Codec R Int).Exact := fun _ => ⟨by simp [whole, Json.int], rfl⟩

theorem exact_flag : (flag : Codec R Bool).Exact := fun b => ⟨by simp [flag], rfl⟩

theorem gives_positive : (positive : Codec R R).Gives fun x => positive.Rereads x (some x) := by
  intro j _ x h
  refine ⟨by simp [positive, Json.real], reread_eq_some.mpr ?_⟩
  have hscalar : scalar.read (Json.real x) = .ok x := rfl
  simp only [positive, hscalar, read_positive_eq_ok h, if_pos]

theorem gives_wholeFrom (least : Int) : (wholeFrom least : Codec R Int).Gives fun n =>
    (wholeFrom least : Codec R Int).Rereads n (some n) := by
  intro j _ n h
  refine ⟨by simp [wholeFrom, Json.int], reread_eq_some.mpr ?_⟩
  simp only [wholeFrom] at h ⊢
  split at h
  · split at h
    · cases h
    · rename_i hleast
      cases h
      have hwhole : whole.read (Json.int n : Json R) = .ok n := rfl
      rw [hwhole]
      exact if_neg hleast
  · cases h

end

end Codec

end Storyboard
