import Storyboard.Proofs.Merging
import Storyboard.Proofs.Rereading.Given

namespace Storyboard

variable {R : Type}

/-- Values that differ in the order of members only. -/
inductive Json.Same : Json R → Json R → Prop
  | refl (j : Json R) : Json.Same j j
  | arr {items others : List (Json R)} (h : List.Forall₂ Json.Same items others) :
      Json.Same (.arr items) (.arr others)
  | obj {ms others : Members R}
      (h : ∀ name, Option.Rel Json.Same (Members.get? name ms) (Members.get? name others)) :
      Json.Same (.obj ms) (.obj others)

namespace Members

/-- Members that give the same values to all names. -/
def Same (ms others : Members R) : Prop :=
  ∀ name, Option.Rel Json.Same (get? name ms) (get? name others)

theorem get?_append {γ : Type} {name : String} {ms more : List (String × γ)} :
    get? name (ms ++ more) = (get? name ms).or (get? name more) := by
  induction ms with
  | nil => rfl
  | cons first rest ih =>
    rw [List.cons_append, get?_cons, get?_cons, ih]
    split <;> rfl

theorem Same.refl (ms : Members R) : Same ms ms := fun name => by
  cases get? name ms with
  | none => exact .none
  | some j => exact .some (.refl j)

theorem Same.append {ms others more rest : Members R} (h : Same ms others) (h' : Same more rest) :
    Same (ms ++ more) (others ++ rest) := fun name => by
  rw [get?_append, get?_append]
  have hfirst := h name
  revert hfirst
  generalize get? name ms = a
  generalize get? name others = b
  intro hfirst
  cases hfirst with
  | none => exact h' name
  | some hsame => exact .some hsame

theorem same_of_single {name : String} {j j' : Json R} (h : Same [(name, j)] [(name, j')]) :
    Json.Same j j' := by
  have hname := h name
  rw [get?_cons, get?_cons, if_pos rfl, if_pos rfl] at hname
  cases hname with
  | some hsame => exact hsame

theorem Same.single {name : String} {j j' : Json R} (h : Json.Same j j') :
    Same [(name, j)] [(name, j')] := fun other => by
  rw [get?_cons, get?_cons]
  split
  · exact .some h
  · exact .none

end Members

theorem Json.same_items {items others : List (Json R)} (h : Json.Same (.arr items) (.arr others)) :
    List.Forall₂ Json.Same items others := by
  cases h with
  | refl => exact List.forall₂_same.mpr fun j _ => .refl j
  | arr h => exact h

theorem Json.same_members {ms others : Members R} (h : Json.Same (.obj ms) (.obj others)) :
    Members.Same ms others := by
  cases h with
  | refl => exact .refl ms
  | obj h => exact h

theorem Json.Same.member? {j j' : Json R} (h : Json.Same j j') (name : String) :
    Option.Rel Json.Same (j.member? name) (j'.member? name) := by
  cases h with
  | refl =>
    cases j with
    | obj ms => exact Members.Same.refl ms name
    | _ => exact .none
  | arr => exact .none
  | obj h => exact h name

namespace Members

/-- No member stands under the name. -/
def Lacks (name : String) (ms : Members R) : Prop := ∀ m ∈ ms, m.1 ≠ name

theorem lacks_nil (name : String) : Lacks name ([] : Members R) := by simp [Lacks]

theorem lacks_append {name : String} {ms more : Members R} :
    Lacks name (ms ++ more) ↔ Lacks name ms ∧ Lacks name more := by
  simp [Lacks, or_imp, forall_and]

theorem lacks_iff_get? {name : String} {ms : Members R} :
    Lacks name ms ↔ get? name ms = none := by
  rw [get?_eq_none_iff, Lacks, List.mem_map]
  exact ⟨fun h hmem => hmem.elim fun m hm => h m hm.1 hm.2, fun h m hm heq => h ⟨m, hm, heq⟩⟩

theorem lacks_erase (name : String) (ms : Members R) : Lacks name (erase name ms) :=
  fun _ hm => (ne_of_mem_erase hm).1

/-- Members that are the same are so in two parts, if one has such names and the other has not. -/
theorem Same.parts {names : List String} {ms others more rest : Members R}
    (h : Same (ms ++ more) (others ++ rest)) (hms : ∀ m ∈ ms, m.1 ∈ names)
    (hothers : ∀ m ∈ others, m.1 ∈ names) (hmore : ∀ m ∈ more, m.1 ∉ names)
    (hrest : ∀ m ∈ rest, m.1 ∉ names) : Same ms others ∧ Same more rest := by
  have hfirst (part : Members R) (hpart : ∀ m ∈ part, m.1 ∈ names) {name : String}
      (hname : name ∉ names) : get? name part = none :=
    lacks_iff_get?.mp fun m hm heq => hname (heq ▸ hpart m hm)
  have hsecond (part : Members R) (hpart : ∀ m ∈ part, m.1 ∉ names) {name : String}
      (hname : name ∈ names) : get? name part = none :=
    lacks_iff_get?.mp fun m hm heq => hpart m hm (heq ▸ hname)
  refine ⟨fun name => ?_, fun name => ?_⟩
  · by_cases hname : name ∈ names
    · have hboth := h name
      rw [get?_append, get?_append, hsecond more hmore hname, hsecond rest hrest hname,
        Option.or_none, Option.or_none] at hboth
      exact hboth
    · rw [hfirst ms hms hname, hfirst others hothers hname]
      exact .none
  · by_cases hname : name ∈ names
    · rw [hsecond more hmore hname, hsecond rest hrest hname]
      exact .none
    · have hboth := h name
      rw [get?_append, get?_append, hfirst ms hms hname, hfirst others hothers hname,
        Option.none_or, Option.none_or] at hboth
      exact hboth

theorem Lacks.erase_eq {name : String} {ms : Members R} (h : Lacks name ms) :
    erase name ms = ms := by
  induction ms with
  | nil => rfl
  | cons first rest ih =>
    obtain ⟨n, j⟩ := first
    obtain ⟨hn, hrest⟩ := List.forall_mem_cons.mp h
    rw [erase, if_neg (by simpa using hn), ih hrest]

/-- The members that are not null. -/
def filled (ms : Members R) : Members R := ms.filter fun m => !m.2.isNull

@[simp] theorem filled_filled (ms : Members R) : filled (filled ms) = filled ms :=
  List.filter_filter.trans (by simp [filled])

theorem mem_of_mem_filled {ms : Members R} {m : String × Json R} (h : m ∈ filled ms) : m ∈ ms :=
  List.mem_of_mem_filter h

end Members

end Storyboard
