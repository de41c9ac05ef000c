import Storyboard.Proofs.Expansion.Instance
import Storyboard.Proofs.Flattening.Level
import Storyboard.Proofs.Names

namespace Storyboard.Instance

open Flattening

variable {R : Type}

/-- The prefix that expansion puts in front of ids, and the one that flattening takes away. -/
structure Prefixes where
  put : String
  taken : String
  deriving DecidableEq

namespace Prefixes

/-- Behind a file with a name both are that of the name. A file without one puts nothing, and leaves
to be taken what the files around it put. -/
def inside (x : Prefixes) : Instance R → Prefixes
  | .shape .. => x
  | .group b _ info _ => ⟨x.put, innerNamespace x.taken (behind x.put b) info⟩
  | .opened b .. => ⟨Expansion.lead (behind x.put b),
    if Expansion.isGiven (behind x.put b).id then Expansion.lead (behind x.put b) else x.taken⟩

/-- The prefixes behind the instances on a way down. -/
def along (front : List (Instance R)) : Prefixes := front.foldl inside ⟨"", ""⟩

theorem along_concat (front : List (Instance R)) (i : Instance R) :
    along (front ++ [i]) = (along front).inside i := by
  rw [along, List.foldl_append]
  rfl

/-- Inside a file the prefix that is put is the one that is taken away, or there is none. -/
theorem put_opened (front : List (Instance R)) (b : Base R) (r : Reference R) (e : Members R)
    (place : Place) (file : Expansion.Definition R) (cs : List (Instance R)) :
    (along (front ++ [.opened b r e place file cs])).put =
        (along (front ++ [.opened b r e place file cs])).taken ∨
      (along (front ++ [.opened b r e place file cs])).put = "" := by
  rw [along_concat, inside]
  by_cases h : Expansion.isGiven (behind (along front).put b).id = true
  · rw [if_pos h]
    exact .inl rfl
  · rw [if_neg h]
    refine .inr ?_
    rw [Expansion.lead, if_neg h]

end Prefixes

/-- The names of what is passed on a way down. -/
def names (front : List (Instance R)) : List String := front.flatMap fun i => i.base.id.toList

/-- Instances that are passed on a way down, and the objects made of them. -/
inductive Passes : Prefixes → List (Instance R) → List (Object R) → Prop where
  | nil (x : Prefixes) : Passes x [] []
  | group {x : Prefixes} {b : Base R} {cs : List (Instance R)} {info : GroupInfo R}
      {e : Members R} {front : List (Instance R)} {way : List (Object R)}
      (children : List (Object R)) (h : Passes (x.inside (.group b cs info e)) front way) :
      Passes x (.group b cs info e :: front) (.group (behind x.put b) children info e :: way)
  | opened {x : Prefixes} {b : Base R} {r : Reference R} {e : Members R} {place : Place}
      {file : Expansion.Definition R} {cs front : List (Instance R)} {way : List (Object R)}
      (children : List (Object R)) (resolved : List (Entry R))
      (h : Passes (x.inside (.opened b r e place file cs)) front way) :
      Passes x (.opened b r e place file cs :: front)
        (.group (behind x.put b) children (standIn r place file resolved) [] :: way)

theorem Passes.append {x : Prefixes} {front more : List (Instance R)} {way rest : List (Object R)}
    (h : Passes x front way) (hmore : Passes (front.foldl Prefixes.inside x) more rest) :
    Passes x (front ++ more) (way ++ rest) := by
  induction h with
  | nil x => exact hmore
  | group children h ih => exact .group children (ih hmore)
  | opened children resolved h ih => exact .opened children resolved (ih hmore)

/-- Flattening takes away the prefix that the files around tell it. -/
theorem Passes.lead {x : Prefixes} {l : Level} {front : List (Instance R)}
    {way : List (Object R)} (h : Passes x front way) (hl : l.lead = x.taken) :
    (way.foldl Level.inside l).lead = (front.foldl Prefixes.inside x).taken := by
  induction h generalizing l with
  | nil x => exact hl
  | group children h ih =>
    refine ih ?_
    rw [Level.inside, hl]
    rfl
  | @opened x b r e place file cs front way children resolved h ih =>
    refine ih ?_
    rw [Level.inside, innerNamespace_eq, standIn, Place.isGiven_text, Bool.true_and, hl,
      Prefixes.inside, Expansion.lead]
    split <;> rfl

theorem Passes.path {x : Prefixes} {l : Level} {front : List (Instance R)} {way : List (Object R)}
    (h : Passes x front way) :
    (l.idsAlong way).foldl innerPath l.path = (way.foldl Level.inside l).path := by
  induction h generalizing l with
  | nil x => rfl
  | @group x b cs info e front way children h ih =>
    exact ih (l := l.inside (.group (behind x.put b) children info e))
  | @opened x b r e place file cs front way children resolved h ih =>
    exact ih (l := l.inside (.group (behind x.put b) children (standIn r place file resolved) []))

theorem declaredAll_eq_map (instances : List (Instance R)) :
    declaredAll instances = instances.map declared := by
  induction instances with
  | nil => rfl
  | cons i rest ih => rw [declaredAll, ih, List.map_cons]

/-- At the position of a declared object stands an instance of it. -/
theorem declaredAll_at {instances : List (Instance R)} {way : List (Object R)} {p : List Nat}
    (hw : Object.way (declaredAll instances) p = some way) :
    ∃ is, Instance.way instances p = some is ∧ way = is.map declared := by
  induction p generalizing instances way with
  | nil =>
    cases hw
    exact ⟨[], rfl, rfl⟩
  | cons j p ih =>
    obtain ⟨x, rest, hx, hrest, rfl⟩ := (wayDown_cons_eq_some _).mp hw
    rw [declaredAll_eq_map, List.getElem?_map] at hx
    obtain ⟨i, hi, rfl⟩ := Option.map_eq_some_iff.mp hx
    have hbelow : ∃ is, Instance.way i.children p = some is ∧ rest = is.map declared := by
      cases i with
      | shape b s e =>
        have hnone : Object.way (declaredAll ([] : List (Instance R))) p = some rest := hrest
        exact ih hnone
      | group b cs info e => exact ih hrest
      | opened b r e place file cs =>
        cases p with
        | nil =>
          cases hrest
          exact ⟨[], rfl, rfl⟩
        | cons k p => simp [wayDown, declared, Object.children] at hrest
    obtain ⟨is, his, rfl⟩ := hbelow
    exact ⟨i :: is, (wayDown_cons_eq_some _).mpr ⟨i, is, hi, his, rfl⟩, rfl⟩

theorem id_declared (i : Instance R) : i.declared.id = i.base.id := by
  cases i <;> rfl

theorem filterMap_id_declared (front : List (Instance R)) :
    (front.map declared).filterMap Object.id = names front := by
  rw [List.filterMap_map, List.filterMap_eq_flatMap_toList, names]
  simp [id_declared]

variable [Scalar R]

theorem expanded_id {fps : Number R} {lead : String} {offset : Int} {i : Instance R} {o : Object R}
    (h : expanded fps lead offset i = .ok o) : o.id = (behind lead i.base).id := by
  cases i with
  | shape b s e =>
    cases h
    rfl
  | group b cs info e =>
    obtain ⟨start, children, -, -, rfl⟩ := expanded_group_eq_ok.mp h
    rfl
  | opened b r e place file cs =>
    obtain ⟨start, children, resolved, -, -, -, rfl⟩ := expanded_opened_eq_ok.mp h
    rfl

theorem expandedAll_getElem? {fps : Number R} {lead : String} {offset : Int}
    {instances : List (Instance R)} {objects : List (Object R)} {j : Nat} {i : Instance R}
    (h : expandedAll fps lead offset instances = .ok objects) (hi : instances[j]? = some i) :
    ∃ o, objects[j]? = some o ∧ expanded fps lead offset i = .ok o := by
  induction instances generalizing objects j with
  | nil => simp at hi
  | cons x rest ih =>
    obtain ⟨o, others, ho, hothers, rfl⟩ := expandedAll_cons_eq_ok.mp h
    cases j with
    | zero =>
      obtain rfl : x = i := by simpa using hi
      exact ⟨o, rfl, ho⟩
    | succ j =>
      have hrest := ih hothers hi
      exact hrest

/-- At the position of an instance stands the object that expansion makes of it. The starts of the
objects around it have added up to its offset. -/
theorem expandedAll_startsAt {fps : Number R} {x : Prefixes} {offset : Int}
    {instances front : List (Instance R)} {objects : List (Object R)} {p : List Nat}
    {i : Instance R} (h : expandedAll fps x.put offset instances = .ok objects)
    (hw : Instance.way instances p = some (front ++ [i])) :
    ∃ way starts o, Passes x front way ∧ Object.way objects p = some (way ++ [o]) ∧
      List.Forall₂ (fun o n => Time.frameOrZero fps o.groupInfo.start = .ok n) way starts ∧
      expanded fps (front.foldl Prefixes.inside x).put (offset + starts.sum) i = .ok o := by
  induction p generalizing x offset instances front objects with
  | nil => simp [Instance.way] at hw
  | cons j p ih =>
    rcases (wayDown_cons_eq_append _).mp hw with ⟨rfl, rfl, hi⟩ | ⟨y, rest, rfl, hy, hrest⟩
    · obtain ⟨o, ho, hexpanded⟩ := expandedAll_getElem? h hi
      refine ⟨[], [], o, .nil x, (wayDown_cons_eq_append _).mpr (.inl ⟨rfl, rfl, ho⟩), .nil, ?_⟩
      rwa [List.sum_nil, Int.add_zero]
    · obtain ⟨o, ho, hexpanded⟩ := expandedAll_getElem? h hy
      cases y with
      | shape b s e => cases p <;> simp [wayDown, children] at hrest
      | group b cs info e =>
        obtain ⟨start, objects', hstart, hobjects, rfl⟩ := expanded_group_eq_ok.mp hexpanded
        obtain ⟨way, starts, o', hpasses, hway, hstarts, ho'⟩ :=
          ih (x := x.inside (.group b cs info e)) hobjects hrest
        rw [Int.add_assoc, ← List.sum_cons] at ho'
        exact ⟨_, _, o', .group objects' hpasses,
          (wayDown_cons_eq_append _).mpr (.inr ⟨_, way, rfl, ho, hway⟩), .cons hstart hstarts, ho'⟩
      | opened b r e place file cs =>
        obtain ⟨start, objects', resolved, hstart, hobjects, -, rfl⟩ :=
          expanded_opened_eq_ok.mp hexpanded
        obtain ⟨way, starts, o', hpasses, hway, hstarts, ho'⟩ :=
          ih (x := x.inside (.opened b r e place file cs)) hobjects hrest
        rw [Int.add_assoc, ← List.sum_cons] at ho'
        exact ⟨_, _, o', .opened objects' resolved hpasses,
          (wayDown_cons_eq_append _).mpr (.inr ⟨_, way, rfl, ho, hway⟩), .cons hstart hstarts, ho'⟩

theorem expandedAll_at {fps : Number R} {x : Prefixes} {offset : Int}
    {instances front : List (Instance R)} {objects : List (Object R)} {p : List Nat}
    {i : Instance R} (h : expandedAll fps x.put offset instances = .ok objects)
    (hw : Instance.way instances p = some (front ++ [i])) :
    ∃ way start o, Passes x front way ∧ Object.way objects p = some (way ++ [o]) ∧
      expanded fps (front.foldl Prefixes.inside x).put start i = .ok o := by
  obtain ⟨way, starts, o, hpasses, hway, -, ho⟩ := expandedAll_startsAt h hw
  exact ⟨way, _, o, hpasses, hway, ho⟩

end Storyboard.Instance
