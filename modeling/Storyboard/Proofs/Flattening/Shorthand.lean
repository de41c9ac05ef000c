import Storyboard.Proofs.Flattening.Lookup

namespace Storyboard

namespace Address

open Flattening (Undotted)

/-- An id ends in a text after a dot, or is the text, exactly if its last segments are those of the
text. -/
theorem endsIn_iff {id target : String} :
    endsIn id target = true ↔ segments target <:+ segments id := by
  rw [endsIn, Bool.or_eq_true, beq_iff_eq, List.isSuffixOf_iff_suffix]
  constructor
  · intro h
    rcases h with rfl | ⟨front, hfront⟩
    · exact List.suffix_refl _
    · have hid : id = String.ofList front ++ "." ++ target := by
        apply String.toList_injective
        simp [← hfront]
      rw [hid, segments_append]
      exact List.suffix_append _ _
  · intro h
    obtain ⟨front, hfront⟩ := h
    have hid := intercalate_segments id
    rw [← hfront] at hid
    by_cases hnil : front = []
    · left
      rw [← hid, hnil, List.nil_append, intercalate_segments]
    · right
      rw [String.intercalate_append_of_ne_nil hnil (segments_ne_nil target),
        intercalate_segments] at hid
      refine ⟨(".".intercalate front).toList, ?_⟩
      rw [← hid]
      simp

variable {R : Type} {objects : List (Object R)} {target : String}

/-- The local id of an object: the last segment of its full id. -/
def localName (o : Object R) : Option String := o.id.bind fun id => (segments id).getLast?

theorem undotted_of_localName {o : Object R} {s : String} (h : localName o = some s) :
    Undotted s := by
  obtain ⟨id, -, hlast⟩ := Option.bind_eq_some_iff.mp h
  exact undotted_of_mem_segments (List.mem_of_getLast? hlast)

/-- The objects of a tree with a local id. -/
def named (objects : List (Object R)) (name : String) : List (Object R) :=
  (walk objects).filter fun o => localName o == some name

/-- The objects of a tree whose id has the segments of a target at its end. -/
def endingIn (objects : List (Object R)) (target : String) : List (Object R) :=
  (walk objects).filter fun o => o.id.any fun id => decide (segments target <:+ segments id)

theorem descendants_eq (objects : List (Object R)) (target : String) :
    descendants objects target = endingIn objects target := by
  refine List.filter_congr fun o _ => ?_
  cases o.id with
  | none => rfl
  | some id => exact Bool.eq_iff_iff.mpr (endsIn_iff.trans decide_eq_true_iff.symm)

theorem named_of_dotted (h : ¬ Undotted target) : named objects target = [] := by
  refine List.filter_eq_nil_iff.mpr fun o _ hname => h ?_
  exact undotted_of_localName (eq_of_beq hname)

theorem endingIn_of_undotted (h : Undotted target) :
    endingIn objects target = named objects target := by
  refine List.filter_congr fun o _ => ?_
  rw [localName, segments_undotted h]
  cases o.id with
  | none => rfl
  | some id =>
    refine Bool.eq_iff_iff.mpr ?_
    simp only [Option.any_some, decide_eq_true_eq, Option.bind_some, beq_iff_eq,
      List.getLast?_eq_some_iff]
    exact exists_congr fun front => eq_comm

/-- An object of a tree at a path from a scope. -/
def At (objects : List (Object R)) (scope path : String) (o : Object R) : Prop :=
  o ∈ walk objects ∧ o.id = some (join scope path)

end Address

namespace Flattening

open Address (At endingIn named)

variable {R : Type} {objects : List (Object R)} {scope target : String}

section

variable (hjoined : Address.Joined scope objects) (hids : (Address.ids objects).Nodup)

include hjoined hids

theorem find_eq_none_of_joined (hnone : ∀ o, ¬ At objects scope target o) :
    Address.find objects target scope = none := by
  refine Option.eq_none_iff_forall_ne_some.mpr fun o hfind => ?_
  exact hnone o ((hjoined.find_eq_some_iff hids).mp hfind)

theorem not_at_of_find_eq_none (hnone : Address.find objects target scope = none) (o : Object R) :
    ¬ At objects scope target o := by
  intro hat
  rw [(hjoined.find_eq_some_iff hids).mpr hat] at hnone
  cases hnone

theorem resolveTarget_eq_ok_iff {o : Object R} :
    resolveTarget target objects scope = .ok o ↔ At objects scope target o ∨
      (∀ o', ¬ At objects scope target o') ∧ endingIn objects target = [o] := by
  constructor
  · intro hok
    rcases resolveTarget_eq_ok hok with hfind | ⟨hnone, hall⟩
    · exact .inl ((hjoined.find_eq_some_iff hids).mp hfind)
    · rw [Address.descendants_eq] at hall
      exact .inr ⟨not_at_of_find_eq_none hjoined hids hnone, hall⟩
  · intro hmeant
    rcases hmeant with hat | ⟨hnone, hall⟩
    · rw [resolveTarget, (hjoined.find_eq_some_iff hids).mpr hat]
    · rw [resolveTarget, find_eq_none_of_joined hjoined hids hnone, Address.descendants_eq, hall]

theorem resolveTarget_eq_error_iff {f : Fault} :
    resolveTarget target objects scope = .error f ↔ (∀ o, ¬ At objects scope target o) ∧
      (endingIn objects target = [] ∧ f = .targetNotFound target scope ∨
        2 ≤ (endingIn objects target).length ∧ f = .targetAmbiguous target scope
          ((endingIn objects target).filterMap Object.id)) := by
  cases hfind : Address.find objects target scope with
  | some o =>
    have hat := (hjoined.find_eq_some_iff hids).mp hfind
    rw [resolveTarget, hfind]
    exact iff_of_false (fun h => by cases h) fun h => h.1 o hat
  | none =>
    have hnone := not_at_of_find_eq_none hjoined hids hfind
    rw [resolveTarget, hfind, Address.descendants_eq, and_iff_right hnone]
    cases endingIn objects target with
    | nil => simp [eq_comm]
    | cons x rest =>
      cases rest with
      | nil => simp
      | cons y others => simp [eq_comm]

end

/-- What a target is to mean: the object at that path, or if there is none the only object with that
local id. -/
def MeantBy (objects : List (Object R)) (scope target : String) (o : Object R) : Prop :=
  At objects scope target o ∨
    (∀ o', ¬ At objects scope target o') ∧ named objects target = [o]

/-- A target of several segments at which nothing stands, while exactly one id ends in it. -/
def Overreaches (objects : List (Object R)) (scope target : String) : Prop :=
  ¬ Undotted target ∧ (∀ o, ¬ At objects scope target o) ∧ ∃ o, endingIn objects target = [o]

theorem meantBy_iff (objects : List (Object R)) (scope target : String) :
    (∀ o, (At objects scope target o ∨
        (∀ o', ¬ At objects scope target o') ∧ endingIn objects target = [o]) ↔
      MeantBy objects scope target o) ↔ ¬ Overreaches objects scope target := by
  constructor
  · intro hall hover
    obtain ⟨hdotted, hnone, o, ho⟩ := hover
    rcases (hall o).mp (.inr ⟨hnone, ho⟩) with hat | ⟨-, hname⟩
    · exact hnone o hat
    · rw [Address.named_of_dotted hdotted] at hname
      cases hname
  · intro hnot o
    -- A local id has no dot, so a target with dots means nothing but the object at its path.
    by_cases hdot : Undotted target
    · rw [MeantBy, Address.endingIn_of_undotted hdot]
    · rw [MeantBy, Address.named_of_dotted hdot]
      refine or_congr_right (and_congr_right fun hnone => ?_)
      refine iff_of_false (fun ho => hnot ⟨hdot, hnone, o, ho⟩) ?_
      exact (List.cons_ne_nil o []).symm

variable [Scalar R] {fps : Number R} {compiled way : List (Object R)} {p : List Nat}

/-- In every group of a tree that flattens, with plain names, a target leads to the object at that
path, or else to the only object whose id ends in its segments, and otherwise it is refused. That is
the object at the path or the only one with that local id for all targets except those of several
segments that exactly one id happens to end in. -/
theorem resolveTarget_flattened {d : Disk} {entries : List (Entry R)} {speed : Option (Number R)}
    {tracks : List (Track R)} {library library' : EffectLibrary R}
    (h : (flatten d fps objects entries speed).Yields library (compiled, tracks) library')
    (hw : Object.way compiled p = some way) (hnames : PlainThrough objects p) (target : String) :
    let below := opened Object.children compiled way
    let scope := scopeOf way
    (∀ o, resolveTarget target below scope = .ok o ↔ At below scope target o ∨
      (∀ o', ¬ At below scope target o') ∧ endingIn below target = [o]) ∧
    (∀ f, resolveTarget target below scope = .error f ↔ (∀ o, ¬ At below scope target o) ∧
      (endingIn below target = [] ∧ f = .targetNotFound target scope ∨
        2 ≤ (endingIn below target).length ∧
          f = .targetAmbiguous target scope ((endingIn below target).filterMap Object.id))) ∧
    ((∀ o, resolveTarget target below scope = .ok o ↔ MeantBy below scope target o) ↔
      ¬ Overreaches below scope target) := by
  intro below scope
  obtain ⟨hcompiled, hdistinct, -⟩ := flatten_yields h
  have hjoined : Address.Joined scope below := joined_opened hcompiled hw hnames
  have hids : (Address.ids below).Nodup :=
    hdistinct.sublist ((Address.walk_opened_sublist hw).filterMap _)
  have hok (o : Object R) : resolveTarget target below scope = .ok o ↔ At below scope target o ∨
      (∀ o', ¬ At below scope target o') ∧ endingIn below target = [o] :=
    resolveTarget_eq_ok_iff hjoined hids
  refine ⟨hok, fun f => resolveTarget_eq_error_iff hjoined hids, ?_⟩
  simp only [hok]
  exact meantBy_iff below scope target

/-- A square in a group in a group, and an animation of the outer group. -/
def movedBox (target : String) : List (Object Rat) :=
  [.group (.ofId (some "g")) [.group (.ofId (some "h")) [squareOf "box"] .empty []]
    { GroupInfo.empty with animations := [.track (movement target)] } []]

/-- What flattening leaves of the groups, and the object with an id that a target leads to. -/
structure LeadsTo (target id : String) (compiled : List (Object Rat)) (tracks : List (Track Rat))
    (way : List (Object Rat)) (o : Object Rat) : Prop where
  flattens : ∃ library', (flatten Disk.empty (.real 30) (movedBox target) [] none).Yields ⟨[], []⟩
    (compiled, tracks) library'
  plain : PlainThrough (movedBox target) [0]
  targets : tracks.map Track.target = [id]
  stands : Object.way compiled [0] = some way
  scope : scopeOf way = "g"
  ids : Address.ids (opened Object.children compiled way) = ["g.h", "g.h.box"]
  resolves : resolveTarget target (opened Object.children compiled way) (scopeOf way) = .ok o
  found : o.id = some id

theorem leadsTo_of_test (target id : String)
    (hplain : ∀ s ∈ Level.root.namesIn (movedBox target), Address.Plain s)
    (h : ((flatten Disk.empty (.real 30) (movedBox target) [] none).exec
      ⟨[], []⟩).1.toOption.any (fun (compiled, tracks) =>
        decide (tracks.map Track.target = [id]) &&
        (Object.way compiled [0]).any fun way =>
          decide (scopeOf way = "g") &&
          decide (Address.ids (opened Object.children compiled way) = ["g.h", "g.h.box"]) &&
          (resolveTarget target (opened Object.children compiled way)
            (scopeOf way)).toOption.any fun o => decide (o.id = some id)) = true) :
    ∃ compiled tracks way o, LeadsTo target id compiled tracks way o := by
  obtain ⟨⟨compiled, tracks⟩, library', hrun, htest⟩ := Run.yields_of_test _ h
  obtain ⟨htargets, hway⟩ := Bool.and_eq_true_iff.mp htest
  obtain ⟨way, hway, htest⟩ := (Option.any_eq_true _ _).mp hway
  obtain ⟨hplace, hresolves⟩ := Bool.and_eq_true_iff.mp htest
  obtain ⟨hscope, hids⟩ := Bool.and_eq_true_iff.mp hplace
  obtain ⟨o, ho, hid⟩ := (Option.any_eq_true _ _).mp hresolves
  exact ⟨compiled, tracks, way, o, ⟨library', hrun⟩, plainThrough_of_namesIn hplain [0],
    of_decide_eq_true htargets, hway, of_decide_eq_true hscope, of_decide_eq_true hids,
    toOption_eq_some.mp ho, of_decide_eq_true hid⟩

/-- The square is the only object below the outer group with its local id. -/
theorem local_id_reaches : ∃ compiled tracks way o,
    LeadsTo "box" "g.h.box" compiled tracks way o ∧
    MeantBy (opened Object.children compiled way) (scopeOf way) "box" o := by
  obtain ⟨compiled, tracks, way, o, h⟩ :=
    leadsTo_of_test "box" "g.h.box" (by decide +kernel) (by decide +kernel)
  obtain ⟨library', hrun⟩ := h.flattens
  obtain ⟨-, -, hmeans⟩ := resolveTarget_flattened hrun h.stands h.plain "box"
  have hundotted : ¬ Overreaches (opened Object.children compiled way) (scopeOf way) "box" :=
    fun hover => hover.1 (by decide +kernel)
  exact ⟨compiled, tracks, way, o, h, (hmeans.mpr hundotted o).mp h.resolves⟩

/-- A path that begins with the outer group itself leads to the square as well, although nothing
stands at that path from the group and no object has such a local id. -/
theorem path_from_above_reaches : ∃ compiled tracks way o,
    LeadsTo "g.h.box" "g.h.box" compiled tracks way o ∧
    ∀ o', ¬ MeantBy (opened Object.children compiled way) (scopeOf way) "g.h.box" o' := by
  obtain ⟨compiled, tracks, way, o, h⟩ :=
    leadsTo_of_test "g.h.box" "g.h.box" (by decide +kernel) (by decide +kernel)
  refine ⟨compiled, tracks, way, o, h, fun o' hmeant => ?_⟩
  rcases hmeant with ⟨hmem, hid⟩ | ⟨-, hname⟩
  · have hids : Address.join (scopeOf way) "g.h.box" ∈
        Address.ids (opened Object.children compiled way) :=
      List.mem_filterMap.mpr ⟨o', hmem, hid⟩
    rw [h.ids, h.scope] at hids
    exact absurd hids (by decide +kernel)
  · have hdotted : ¬ Undotted "g.h.box" := by decide +kernel
    rw [Address.named_of_dotted hdotted] at hname
    cases hname

end Flattening

end Storyboard
