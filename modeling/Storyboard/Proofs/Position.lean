import Storyboard.Object

namespace Storyboard

section

variable {α : Type} (below : α → List α)

/-- What is passed on the way down to a position, outermost first, the object there last. -/
def wayDown : List α → List Nat → Option (List α)
  | _, [] => some []
  | xs, i :: rest => xs[i]?.bind fun x => (wayDown (below x) rest).map (x :: ·)

/-- The list that lies open after a way down. -/
def opened (xs way : List α) : List α :=
  match way.getLast? with
  | some x => below x
  | none => xs

@[simp] theorem wayDown_nil (xs : List α) : wayDown below xs [] = some [] := rfl

theorem wayDown_cons_eq_some {xs way : List α} {i : Nat} {p : List Nat} :
    wayDown below xs (i :: p) = some way ↔
      ∃ x rest, xs[i]? = some x ∧ wayDown below (below x) p = some rest ∧ way = x :: rest := by
  simp only [wayDown, Option.bind_eq_some_iff, Option.map_eq_some_iff]
  constructor
  · intro h
    obtain ⟨x, hx, rest, hrest, rfl⟩ := h
    exact ⟨x, rest, hx, hrest, rfl⟩
  · intro h
    obtain ⟨x, rest, hx, hrest, rfl⟩ := h
    exact ⟨x, hx, rest, hrest, rfl⟩

@[simp] theorem opened_nil (xs : List α) : opened below xs [] = xs := rfl

@[simp] theorem opened_append_singleton (xs way : List α) (x : α) :
    opened below xs (way ++ [x]) = below x := by
  simp [opened]

theorem opened_cons (xs way : List α) (x : α) :
    opened below xs (x :: way) = opened below (below x) way := by
  cases way with
  | nil => rfl
  | cons y ys => simp [opened, List.getLast?_cons]

theorem wayDown_append {xs way : List α} {p q : List Nat} :
    wayDown below xs (p ++ q) = some way ↔
      ∃ first rest, wayDown below xs p = some first ∧
        wayDown below (opened below xs first) q = some rest ∧ way = first ++ rest := by
  induction p generalizing xs way with
  | nil => simp
  | cons i p ih =>
    rw [List.cons_append, wayDown_cons_eq_some]
    constructor
    · intro h
      obtain ⟨x, tail, hx, htail, rfl⟩ := h
      obtain ⟨first, rest, hfirst, hrest, rfl⟩ := ih.mp htail
      refine ⟨x :: first, rest, ?_, ?_, rfl⟩
      · exact (wayDown_cons_eq_some below).mpr ⟨x, first, hx, hfirst, rfl⟩
      · rwa [opened_cons]
    · intro h
      obtain ⟨first, rest, hfirst, hrest, rfl⟩ := h
      obtain ⟨x, tail, hx, htail, rfl⟩ := (wayDown_cons_eq_some below).mp hfirst
      rw [opened_cons] at hrest
      exact ⟨x, tail ++ rest, hx, ih.mpr ⟨tail, rest, htail, hrest, rfl⟩, rfl⟩

theorem wayDown_cons_last {xs way : List α} {i : Nat} {p : List Nat}
    (h : wayDown below xs (i :: p) = some way) : ∃ front x, way = front ++ [x] := by
  obtain ⟨x, rest, -, -, rfl⟩ := (wayDown_cons_eq_some below).mp h
  exact ⟨_, _, (List.dropLast_concat_getLast (List.cons_ne_nil x rest)).symm⟩

/-- An object that is passed first is the last one as well, or it has the last one below. -/
theorem wayDown_cons_eq_append {xs front : List α} {i : Nat} {p : List Nat} {y : α} :
    wayDown below xs (i :: p) = some (front ++ [y]) ↔
      (p = [] ∧ front = [] ∧ xs[i]? = some y) ∨
        ∃ x rest, front = x :: rest ∧ xs[i]? = some x ∧
          wayDown below (below x) p = some (rest ++ [y]) := by
  rw [wayDown_cons_eq_some]
  constructor
  · intro h
    obtain ⟨x, tail, hx, htail, he⟩ := h
    cases front with
    | nil =>
      obtain ⟨rfl, rfl⟩ : y = x ∧ tail = [] := by simpa [eq_comm] using he
      cases p with
      | nil => exact .inl ⟨rfl, rfl, hx⟩
      | cons j q => simp [wayDown_cons_eq_some] at htail
    | cons z front =>
      obtain ⟨rfl, rfl⟩ := List.cons.inj he
      exact .inr ⟨z, front, rfl, hx, htail⟩
  · intro h
    rcases h with ⟨rfl, rfl, hy⟩ | ⟨x, rest, rfl, hx, hrest⟩
    · exact ⟨y, [], hy, rfl, rfl⟩
    · exact ⟨x, rest ++ [y], hx, hrest, rfl⟩

theorem below_ne_nil_of_wayDown {xs front : List α} {p : List Nat} {x y : α}
    (h : wayDown below xs p = some (front ++ [y])) (hx : x ∈ front) : below x ≠ [] := by
  induction p generalizing xs front with
  | nil => simp at h
  | cons i p ih =>
    rcases (wayDown_cons_eq_append below).mp h with ⟨-, rfl, -⟩ | ⟨z, rest, rfl, -, hrest⟩
    · simp at hx
    · rcases List.mem_cons.mp hx with rfl | hx
      · intro hnil
        rw [hnil] at hrest
        cases p <;> simp [wayDown] at hrest
      · exact ih hrest hx

end

/-- What an object declares that has at most an id. -/
def Base.ofId {R : Type} (id : Option String) : Base R :=
  ⟨id, none, none, none, none, none, none, none, none, none, none, none⟩

/-- What a group declares that only holds its children. -/
def GroupInfo.empty {R : Type} : GroupInfo R := ⟨none, none, none, [], none, none, []⟩

namespace Object

variable {R : Type}

/-- What holds of no objects, and of an object with others beside it whenever it holds of these and
of its children, holds of all lists of objects. -/
theorem forest {motive : List (Object R) → Prop} (nil : motive [])
    (shape : ∀ b s e rest, motive rest → motive (.shape b s e :: rest))
    (reference : ∀ b r e rest, motive rest → motive (.reference b r e :: rest))
    (group : ∀ b cs info e rest, motive cs → motive rest → motive (.group b cs info e :: rest)) :
    ∀ objects, motive objects
  | [] => nil
  | .shape b s e :: rest => shape b s e rest (forest nil shape reference group rest)
  | .reference b r e :: rest => reference b r e rest (forest nil shape reference group rest)
  | .group b cs info e :: rest =>
    group b cs info e rest (forest nil shape reference group cs)
      (forest nil shape reference group rest)

/-- Induction over lists of objects that goes through all objects alike. -/
theorem descent {motive : List (Object R) → Prop} (nil : motive [])
    (cons : ∀ o rest, motive o.children → motive rest → motive (o :: rest)) :
    ∀ objects, motive objects :=
  forest nil (fun b s e rest h => cons (.shape b s e) rest nil h)
    (fun b r e rest h => cons (.reference b r e) rest nil h)
    (fun b cs info e rest hcs h => cons (.group b cs info e) rest hcs h)

/-- What an object declares as a group. Any other object declares nothing of the kind. -/
def groupInfo : Object R → GroupInfo R
  | group _ _ info _ => info
  | _ => .empty

/-- The objects on the way down to a position. -/
abbrev way (objects : List (Object R)) (p : List Nat) : Option (List (Object R)) :=
  wayDown children objects p

end Object

end Storyboard
