import Storyboard.Proofs.Composition.Drawing
import Storyboard.Proofs.Ordering

namespace Storyboard

open Outcome

variable {R : Type}

def Object.isGroup : Object R → Bool
  | group .. => true
  | _ => false

theorem Object.children_eq_nil {o : Object R} (h : o.isGroup = false) : o.children = [] := by
  cases o with
  | group b cs info e => cases h
  | shape b s e => rfl
  | reference b r e => rfl

namespace Composition

variable [Scalar R]

/-- An object at one place among its siblings is drawn before another at another place. -/
def Comes (a b : Object R) (i j : Nat) : Prop :=
  (height a).lt (height b) = true ∨ (height b).lt (height a) = false ∧ i < j

theorem Comes.asymm {a b : Object R} {i j : Nat} (h : Comes a b i j) : ¬ Comes b a j i := by
  intro h'
  rcases h with hlt | ⟨hnot, hij⟩
  · rcases h' with hgt | ⟨hnot, -⟩
    · have hnot : (height b).lt (height a) = false := Exact.lt_asymm hlt
      rw [hgt] at hnot
      cases hnot
    · rw [hlt] at hnot
      cases hnot
  · rcases h' with hgt | ⟨-, hji⟩
    · rw [hgt] at hnot
      cases hnot
    · omega

/-- Siblings are drawn in an order of their places. -/
theorem paintOrder_places {objects : List (Object R)}
    (hheights : ∀ o ∈ objects, (height o).isOrdered = true) :
    ∃ places : List Nat,
      List.Forall₂ (fun i o => objects[i]? = some o) places (paintOrder objects) ∧
      (∀ i < objects.length, i ∈ places) ∧
      places.Pairwise fun i j => ∃ a b, objects[i]? = some a ∧ objects[j]? = some b ∧
        Comes a b i j := by
  let lower (s t : Object R × Nat) : Bool := (height s.1).lt (height t.1)
  have hmem : ∀ t ∈ Order.sort lower objects.zipIdx, objects[t.2]? = some t.1 := fun t ht =>
    List.mem_zipIdx_iff_getElem?.mp ((Order.sort_perm lower objects.zipIdx).mem_iff.mp ht)
  refine ⟨(Order.sort lower objects.zipIdx).map Prod.snd, ?_, fun i hi => ?_, ?_⟩
  · have hall : objects.all (fun o => (height o).isOrdered) = true :=
      List.all_eq_true.mpr hheights
    have htagged : List.Forall₂ (fun (t : Object R × Nat) o => t.1 = o) objects.zipIdx
        (objects.zipIdx.map Prod.fst) :=
      List.forall₂_map_right_iff.mpr (List.forall₂_same.mpr fun t _ => rfl)
    rw [List.zipIdx_map_fst] at htagged
    have hsorted : List.Forall₂ (fun (t : Object R × Nat) o => t.1 = o)
        (Order.sort lower objects.zipIdx)
        (Order.sort (fun a b => (height a).lt (height b)) objects) := by
      refine Order.sort_forall₂ (fun s t a b hs ht => ?_) htagged
      rw [← hs, ← ht]
    rw [paintOrder, Order.arrange_of_all hall]
    refine List.forall₂_map_left_iff.mpr ?_
    refine ((List.forall₂_and_left _ _).mpr ⟨hmem, hsorted⟩).imp fun t o h => ?_
    rw [h.1, h.2]
  · have hi : (objects[i], i) ∈ Order.sort lower objects.zipIdx :=
      (Order.sort_perm lower objects.zipIdx).mem_iff.mpr
        (List.mem_zipIdx_iff_getElem?.mpr (List.getElem?_eq_getElem hi))
    exact List.mem_map_of_mem hi
  · have hplaces : objects.zipIdx.Pairwise fun s t => s.2 < t.2 := by
      refine List.pairwise_map.mp ?_
      rw [List.zipIdx_map_snd]
      exact List.pairwise_lt_range'
    have hordered : ∀ t ∈ objects.zipIdx, (height t.1).isOrdered = true := fun t ht =>
      hheights _ (List.mem_of_getElem? (List.mem_zipIdx_iff_getElem?.mp ht))
    have hasymm (s t : Object R × Nat) (h : lower s t = true) : lower t s = false :=
      Exact.lt_asymm h
    have htrans (s t u : Object R × Nat) (hs : (height s.1).isOrdered = true)
        (ht : (height t.1).isOrdered = true) (hu : (height u.1).isOrdered = true)
        (hst : lower s t = false) (htu : lower t u = false) : lower s u = false :=
      Number.not_lt_trans hs ht hu hst htu
    have hstable := Order.sort_stable hasymm htrans hordered hplaces
    refine List.pairwise_map.mpr (hstable.imp_of_mem fun hs ht hcomes => ?_)
    exact ⟨_, _, hmem _ hs, hmem _ ht, hcomes⟩

/-- One position is drawn before another: where their ways part, the sibling on the way to the one
is drawn before that on the way to the other. -/
inductive Precedes : List (Object R) → List Nat → List Nat → Prop
  | part {objects : List (Object R)} {i j : Nat} {a b : Object R} (p q : List Nat)
      (ha : objects[i]? = some a) (hb : objects[j]? = some b) (hne : i ≠ j)
      (hcomes : Comes a b i j) : Precedes objects (i :: p) (j :: q)
  | inside {objects : List (Object R)} {i : Nat} {o : Object R} {p q : List Nat}
      (ho : objects[i]? = some o) (h : Precedes o.children p q) :
      Precedes objects (i :: p) (i :: q)

/-- Positions one of which is drawn before the other part somewhere. -/
theorem Precedes.parts {objects : List (Object R)} {p q : List Nat} (h : Precedes objects p q) :
    ∃ c i j p' q' front a b, p = c ++ i :: p' ∧ q = c ++ j :: q' ∧ i ≠ j ∧
      Object.way objects (c ++ [i]) = some (front ++ [a]) ∧
      Object.way objects (c ++ [j]) = some (front ++ [b]) := by
  induction h with
  | @part objects i j a b p q ha hb hne hcomes =>
    refine ⟨[], i, j, p, q, [], a, b, rfl, rfl, hne, ?_, ?_⟩
    · exact (wayDown_cons_eq_some _).mpr ⟨a, [], ha, rfl, rfl⟩
    · exact (wayDown_cons_eq_some _).mpr ⟨b, [], hb, rfl, rfl⟩
  | @inside objects k o p q ho h ih =>
    obtain ⟨c, i, j, p', q', front, a, b, rfl, rfl, hne, ha, hb⟩ := ih
    refine ⟨k :: c, i, j, p', q', o :: front, a, b, rfl, rfl, hne, ?_, ?_⟩
    · exact (wayDown_cons_eq_some _).mpr ⟨o, _, ho, ha, rfl⟩
    · exact (wayDown_cons_eq_some _).mpr ⟨o, _, ho, hb, rfl⟩

theorem Precedes.irrefl {objects : List (Object R)} (p : List Nat) : ¬ Precedes objects p p := by
  intro h
  obtain ⟨c, i, j, p', q', -, -, -, hp, hq, hne, -, -⟩ := h.parts
  have hsame := List.append_cancel_left (hp.symm.trans hq)
  exact hne (List.cons.inj hsame).1

/-- The order of two positions is that of the siblings where they part. -/
theorem Precedes.comes {objects front : List (Object R)} {c p q : List Nat} {i j : Nat}
    {a b : Object R} (h : Precedes objects (c ++ i :: p) (c ++ j :: q)) (hne : i ≠ j)
    (ha : Object.way objects (c ++ [i]) = some (front ++ [a]))
    (hb : Object.way objects (c ++ [j]) = some (front ++ [b])) : Comes a b i j := by
  induction c generalizing objects front with
  | nil =>
    obtain ⟨a', ta, ha', hta, hwa⟩ := (wayDown_cons_eq_some _).mp ha
    obtain ⟨b', tb, hb', htb, hwb⟩ := (wayDown_cons_eq_some _).mp hb
    cases hta
    cases htb
    obtain ⟨rfl, rfl⟩ : front = [] ∧ a = a' := by
      simpa [List.append_eq_singleton_iff] using hwa
    obtain rfl : b = b' := by simpa using hwb
    cases h with
    | part _ _ ha₀ hb₀ _ hcomes =>
      obtain rfl := Option.some.inj (ha'.symm.trans ha₀)
      obtain rfl := Option.some.inj (hb'.symm.trans hb₀)
      exact hcomes
    | inside => exact absurd rfl hne
  | cons k c ih =>
    obtain ⟨o, ta, ho, hta, hwa⟩ := (wayDown_cons_eq_some _).mp ha
    obtain ⟨o', tb, ho', htb, hwb⟩ := (wayDown_cons_eq_some _).mp hb
    obtain rfl := Option.some.inj (ho.symm.trans ho')
    cases front with
    | nil =>
      obtain ⟨-, rfl⟩ := List.cons.inj hwa
      cases c <;> simp [wayDown_cons_eq_some] at hta
    | cons x front =>
      obtain ⟨rfl, rfl⟩ := List.cons.inj hwa
      obtain ⟨-, rfl⟩ := List.cons.inj hwb
      cases h with
      | part _ _ _ _ hne' => exact absurd rfl hne'
      | inside ho₀ h =>
        obtain rfl := Option.some.inj (ho.symm.trans ho₀)
        exact ih h hta htb

section

variable [Trig R] (settings : Settings R) (measurer : Measurer R) (sampler : Sampler R)
  (frame : Number R)

/-- What an object is drawn with inside its surroundings, or hands on to its children. -/
structure Placed (o : Object R) (outer : Surroundings R) (p : Placement R) : Prop where
  visible : isVisible o.groupInfo frame = .ok true
  props : propsAt settings sampler o frame = .ok p.props
  placement : placement settings measurer o.kind p.props outer = .ok (some p)

/-- What objects one inside the other hand on from the surroundings of the first. -/
inductive Handed : List (Object R) → Surroundings R → Surroundings R → Prop
  | nil (s : Surroundings R) : Handed [] s s
  | cons {o : Object R} {rest : List (Object R)} {outer inner : Surroundings R} {p : Placement R}
      (ho : Placed settings measurer sampler frame o outer p) (hrest : Handed rest p.inner inner) :
      Handed (o :: rest) outer inner

/-- An item is drawn for the object at a position, which is no group, within what the objects on
the way down hand on. -/
def Draws (objects : List (Object R)) (outer : Surroundings R) (pos : List Nat) (it : DrawItem R) :
    Prop :=
  ∃ front o inner p, Object.way objects pos = some (front ++ [o]) ∧ o.isGroup = false ∧
    Handed settings measurer sampler frame front outer inner ∧
    Placed settings measurer sampler frame o inner p ∧ item o p = .ok it

/-- An object is seen: its time has come, and its scales leave something to draw. -/
def Seen (o : Object R) : Prop :=
  isVisible o.groupInfo frame = .ok true ∧
    ∃ props found, propsAt settings sampler o frame = .ok props ∧ scales props = .ok (some found)

/-- A position leads to an object that is no group, past objects that are all seen. -/
def Leads (objects : List (Object R)) (pos : List Nat) : Prop :=
  ∃ front o, Object.way objects pos = some (front ++ [o]) ∧ o.isGroup = false ∧
    ∀ x ∈ front ++ [o], Seen settings sampler frame x

end

section

variable [Trig R] {settings : Settings R} {measurer : Measurer R} {sampler : Sampler R}
  {frame : Number R} {objects : List (Object R)} {o : Object R} {outer : Surroundings R}
  {pos : List Nat} {it : DrawItem R}

theorem placement_eq_ok {kind : String} {props : Members R} {found : Option (Placement R)}
    (h : placement settings measurer kind props outer = .ok found) :
    scales props = .ok none ∧ found = none ∨
      ∃ s p, scales props = .ok (some s) ∧ found = some p ∧ p.props = props := by
  obtain ⟨s, hs, h⟩ := bind_eq_ok.mp h
  cases s with
  | none => exact .inl ⟨hs, (pure_eq_ok.mp h).symm⟩
  | some s =>
    obtain ⟨scale, scaleX, scaleY⟩ := s
    obtain ⟨transform, -, h⟩ := bind_eq_ok.mp h
    obtain ⟨own, -, h⟩ := bind_eq_ok.mp h
    obtain ⟨opacity, -, h⟩ := bind_eq_ok.mp h
    obtain ⟨size, -, h⟩ := bind_eq_ok.mp h
    obtain ⟨anchor, -, h⟩ := bind_eq_ok.mp h
    obtain ⟨offset, -, h⟩ := bind_eq_ok.mp h
    obtain ⟨clips, -, h⟩ := bind_eq_ok.mp h
    obtain rfl := pure_eq_ok.mp h
    exact .inr ⟨_, _, hs, rfl, rfl⟩

theorem Placed.seen {p : Placement R} (h : Placed settings measurer sampler frame o outer p) :
    Seen settings sampler frame o := by
  obtain ⟨-, hnone⟩ | ⟨s, p', hs, -, -⟩ := placement_eq_ok h.placement
  · cases hnone
  · exact ⟨h.visible, _, s, h.props, hs⟩

/-- What becomes of an object: nothing, if it is not seen; else a group has what its children give,
and any other object has one item. -/
theorem paintObject_eq_ok {inner : Painter R} {out : List (DrawItem R)}
    (h : paintObject inner settings measurer sampler frame outer o = .ok out) :
    (¬ Seen settings sampler frame o ∧ out = []) ∨
      ∃ p, Placed settings measurer sampler frame o outer p ∧
        (o.isGroup = true ∧ inner o.children p.inner = .ok out ∨
          o.isGroup = false ∧ ∃ it, item o p = .ok it ∧ out = [it]) := by
  have hvisible : paintObject inner settings measurer sampler frame outer o =
      (isVisible o.groupInfo frame >>= fun visible =>
        if !visible then pure []
        else
          propsAt settings sampler o frame >>= fun props =>
          placement settings measurer o.kind props outer >>= fun found =>
            found.elim (pure []) fun p =>
              if o.isGroup then inner o.children p.inner else item o p >>= fun it => pure [it]) := by
    cases o <;>
    · refine bind_congr fun visible => ?_
      cases visible with
      | false => rfl
      | true => exact bind_congr fun props => bind_congr fun found => by cases found <;> rfl
  rw [hvisible] at h
  obtain ⟨visible, hv, h⟩ := bind_eq_ok.mp h
  cases visible with
  | false =>
    refine .inl ⟨fun hseen => ?_, (pure_eq_ok.mp h).symm⟩
    rw [hseen.1] at hv
    cases hv
  | true =>
    obtain ⟨props, hprops, hplaced⟩ := bind_eq_ok.mp h
    obtain ⟨found, hfound, hout⟩ := bind_eq_ok.mp hplaced
    clear h hplaced
    obtain ⟨hflat, rfl⟩ | ⟨s, p, hs, rfl, rfl⟩ := placement_eq_ok hfound
    · refine .inl ⟨fun hseen => ?_, (pure_eq_ok.mp hout).symm⟩
      obtain ⟨-, props', s, hprops', hs⟩ := hseen
      obtain rfl := Except.ok.inj (hprops.symm.trans hprops')
      rw [hflat] at hs
      cases hs
    · refine .inr ⟨p, ⟨hv, hprops, hfound⟩, ?_⟩
      cases hgroup : o.isGroup with
      | true =>
        simp only [hgroup, if_true] at hout
        exact .inl ⟨rfl, hout⟩
      | false =>
        simp only [hgroup] at hout
        obtain ⟨it, hit, hout⟩ := bind_eq_ok.mp hout
        exact .inr ⟨rfl, it, hit, (pure_eq_ok.mp hout).symm⟩

/-- An object that stands in a list and is no group is drawn where it stands. -/
theorem Draws.here {i : Nat} {p : Placement R} (ho : objects[i]? = some o)
    (hleaf : o.isGroup = false) (hplaced : Placed settings measurer sampler frame o outer p)
    (hitem : item o p = .ok it) : Draws settings measurer sampler frame objects outer [i] it :=
  ⟨[], o, outer, p, (wayDown_cons_eq_some _).mpr ⟨o, [], ho, rfl, rfl⟩, hleaf, .nil outer, hplaced,
    hitem⟩

theorem Draws.inside {i : Nat} {p : Placement R} (ho : objects[i]? = some o)
    (hplaced : Placed settings measurer sampler frame o outer p)
    (h : Draws settings measurer sampler frame o.children p.inner pos it) :
    Draws settings measurer sampler frame objects outer (i :: pos) it := by
  obtain ⟨front, x, inner, p', hway, hleaf, hhanded, hrest⟩ := h
  refine ⟨o :: front, x, inner, p', ?_, hleaf, .cons hplaced hhanded, hrest⟩
  exact (wayDown_cons_eq_some _).mpr ⟨o, _, ho, hway, rfl⟩

theorem Handed.seen {front : List (Object R)} {inner : Surroundings R}
    (h : Handed settings measurer sampler frame front outer inner) :
    ∀ x ∈ front, Seen settings sampler frame x := by
  induction h with
  | nil => simp
  | cons ho hrest ih => exact List.forall_mem_cons.mpr ⟨ho.seen, ih⟩

theorem Draws.leads (h : Draws settings measurer sampler frame objects outer pos it) :
    Leads settings sampler frame objects pos := by
  obtain ⟨front, o, inner, p, hway, hleaf, hhanded, hplaced, -⟩ := h
  refine ⟨front, o, hway, hleaf, fun x hx => ?_⟩
  rcases List.mem_append.mp hx with hx | hx
  · exact hhanded.seen x hx
  · obtain rfl := List.mem_singleton.mp hx
    exact hplaced.seen

/-- A way that leads anywhere leads past an object of the list, to it or to something inside it. -/
theorem Leads.cases (h : Leads settings sampler frame objects pos) :
    ∃ i q o, pos = i :: q ∧ objects[i]? = some o ∧ Seen settings sampler frame o ∧
      (q = [] ∧ o.isGroup = false ∨ Leads settings sampler frame o.children q) := by
  obtain ⟨front, x, hway, hleaf, hseen⟩ := h
  cases pos with
  | nil => simp [Object.way] at hway
  | cons i q =>
    rcases (wayDown_cons_eq_append _).mp hway with ⟨rfl, rfl, hx⟩ | ⟨o, rest, rfl, ho, hrest⟩
    · exact ⟨i, [], x, rfl, hx, hseen x (by simp), .inl ⟨rfl, hleaf⟩⟩
    · refine ⟨i, q, o, rfl, ho, hseen o (by simp), .inr ⟨rest, x, hrest, hleaf, fun y hy => ?_⟩⟩
      exact hseen y (List.mem_cons_of_mem _ hy)

/-- Items are drawn at positions, each position before those behind it, and at all positions to
which a way leads. -/
structure Painted (settings : Settings R) (measurer : Measurer R) (sampler : Sampler R)
    (frame : Number R) (objects : List (Object R)) (outer : Surroundings R)
    (positions : List (List Nat)) (items : List (DrawItem R)) : Prop where
  draws : List.Forall₂ (Draws settings measurer sampler frame objects outer) positions items
  ordered : positions.Pairwise (Precedes objects)
  complete : ∀ pos, Leads settings sampler frame objects pos → pos ∈ positions

theorem Painted.nodup {positions : List (List Nat)} {items : List (DrawItem R)}
    (h : Painted settings measurer sampler frame objects outer positions items) :
    positions.Nodup := by
  refine h.ordered.imp fun hpq => ?_
  rintro rfl
  exact Precedes.irrefl _ hpq

/-- The items of an object come from positions at its place. -/
structure PaintedAt (settings : Settings R) (measurer : Measurer R) (sampler : Sampler R)
    (frame : Number R) (objects : List (Object R)) (outer : Surroundings R) (i : Nat)
    (positions : List (List Nat)) (items : List (DrawItem R)) : Prop where
  draws : List.Forall₂ (Draws settings measurer sampler frame objects outer) positions items
  ordered : positions.Pairwise (Precedes objects)
  heads : ∀ pos ∈ positions, ∃ q, pos = i :: q
  complete : ∀ q, Leads settings sampler frame objects (i :: q) → i :: q ∈ positions

theorem paintObject_painted {inner : Painter R} {out : List (DrawItem R)} {i : Nat}
    (ho : objects[i]? = some o)
    (hinner : ∀ s items, inner o.children s = .ok items → ∃ positions,
      Painted settings measurer sampler frame o.children s positions items)
    (h : paintObject inner settings measurer sampler frame outer o = .ok out) :
    ∃ positions, PaintedAt settings measurer sampler frame objects outer i positions out := by
  -- A way that begins at the place of the object leads past it.
  have hway {q : List Nat} (hleads : Leads settings sampler frame objects (i :: q)) :
      Seen settings sampler frame o ∧
        (q = [] ∧ o.isGroup = false ∨ Leads settings sampler frame o.children q) := by
    obtain ⟨i', q', o', heq, ho', hseen, hrest⟩ := hleads.cases
    obtain ⟨rfl, rfl⟩ := List.cons.inj heq
    obtain rfl := Option.some.inj (ho.symm.trans ho')
    exact ⟨hseen, hrest⟩
  rcases paintObject_eq_ok h with
    ⟨hunseen, rfl⟩ | ⟨p, hplaced, ⟨hgroup, hchildren⟩ | ⟨hleaf, it, hitem, rfl⟩⟩
  · exact ⟨[], .nil, .nil, by simp, fun q hleads => absurd (hway hleads).1 hunseen⟩
  · obtain ⟨below, hbelow⟩ := hinner _ _ hchildren
    refine ⟨below.map (i :: ·), ?_, ?_, ?_, fun q hleads => ?_⟩
    · exact List.forall₂_map_left_iff.mpr (hbelow.draws.imp fun q it hq => hq.inside ho hplaced)
    · exact List.pairwise_map.mpr (hbelow.ordered.imp fun hpq => .inside ho hpq)
    · intro pos hpos
      obtain ⟨q, -, rfl⟩ := List.mem_map.mp hpos
      exact ⟨q, rfl⟩
    · rcases (hway hleads).2 with ⟨-, hleaf⟩ | hleads
      · rw [hgroup] at hleaf
        cases hleaf
      · exact List.mem_map_of_mem (hbelow.complete q hleads)
  · refine ⟨[[i]], .cons (.here ho hleaf hplaced hitem) .nil, List.pairwise_singleton _ _, by simp,
      fun q hleads => ?_⟩
    rcases (hway hleads).2 with ⟨rfl, -⟩ | hleads
    · exact List.mem_singleton_self _
    · -- Nothing lies below an object that is no group.
      obtain ⟨i', q', o', -, ho', -, -⟩ := hleads.cases
      rw [Object.children_eq_nil hleaf] at ho'
      cases ho'

/-- What objects come to one after another, in the order of their places, is painted. -/
theorem painted_of_places {places : List Nat} {parts : List (List (DrawItem R))}
    (hparts : List.Forall₂ (fun i items => ∃ positions,
      PaintedAt settings measurer sampler frame objects outer i positions items) places parts)
    (hcomplete : ∀ i < objects.length, i ∈ places)
    (hordered : places.Pairwise fun i j => ∃ a b, objects[i]? = some a ∧ objects[j]? = some b ∧
      Comes a b i j) :
    ∃ positions, Painted settings measurer sampler frame objects outer positions parts.flatten := by
  obtain ⟨positions, hdraws, hprecedes, -, hall⟩ : ∃ positions,
      List.Forall₂ (Draws settings measurer sampler frame objects outer) positions parts.flatten ∧
      positions.Pairwise (Precedes objects) ∧
      (∀ pos ∈ positions, ∃ i ∈ places, ∃ q, pos = i :: q) ∧
      ∀ i ∈ places, ∀ q, Leads settings sampler frame objects (i :: q) → i :: q ∈ positions := by
    clear hcomplete
    induction hparts with
    | nil => exact ⟨[], .nil, .nil, by simp, by simp⟩
    | @cons i items places parts hpart _ ih =>
      obtain ⟨hfirst, hrest⟩ := List.pairwise_cons.mp hordered
      obtain ⟨own, hown⟩ := hpart
      obtain ⟨others, hdraws, hprecedes, hheads, hall⟩ := ih hrest
      refine ⟨own ++ others, ?_, ?_, fun pos hpos => ?_, ?_⟩
      · rw [List.flatten_cons]
        exact List.rel_append hown.draws hdraws
      · refine List.pairwise_append.mpr ⟨hown.ordered, hprecedes, fun pos hpos pos' hpos' => ?_⟩
        obtain ⟨q, rfl⟩ := hown.heads pos hpos
        obtain ⟨j, hj, q', rfl⟩ := hheads pos' hpos'
        obtain ⟨a, b, ha, hb, hcomes⟩ := hfirst j hj
        have hne : i ≠ j := by
          rintro rfl
          obtain rfl := Option.some.inj (ha.symm.trans hb)
          exact hcomes.asymm hcomes
        exact .part q q' ha hb hne hcomes
      · rcases List.mem_append.mp hpos with hpos | hpos
        · obtain ⟨q, rfl⟩ := hown.heads pos hpos
          exact ⟨i, List.mem_cons_self, q, rfl⟩
        · obtain ⟨j, hj, q, rfl⟩ := hheads pos hpos
          exact ⟨j, List.mem_cons_of_mem _ hj, q, rfl⟩
      · refine List.forall_mem_cons.mpr ⟨fun q hleads => ?_, fun j hj q hleads => ?_⟩
        · exact List.mem_append_left _ (hown.complete q hleads)
        · exact List.mem_append_right _ (hall j hj q hleads)
  refine ⟨positions, hdraws, hprecedes, fun pos hleads => ?_⟩
  obtain ⟨i, q, o, rfl, ho, -, -⟩ := hleads.cases
  exact hall i (hcomplete i (List.getElem?_eq_some_iff.mp ho).1) q hleads

/-- What is painted of a tree whose heights can be compared. -/
theorem paint_painted {depth : Nat} {items : List (DrawItem R)}
    (hheights : ∀ o ∈ Address.walk objects, (height o).isOrdered = true)
    (hdepth : depthOfAll objects < depth)
    (h : paint settings measurer sampler frame depth objects outer = .ok items) :
    ∃ positions, Painted settings measurer sampler frame objects outer positions items := by
  induction depth generalizing objects outer items with
  | zero => omega
  | succ depth ih =>
    obtain ⟨parts, hparts, h⟩ := bind_eq_ok.mp h
    obtain rfl := pure_eq_ok.mp h
    obtain ⟨places, hplaces, hcomplete, hordered⟩ :=
      paintOrder_places fun o ho => hheights o (Address.mem_walk ho)
    refine painted_of_places ?_ hcomplete hordered
    refine (forall₂_trans hplaces (mapM_eq_ok.mp hparts)).imp fun i out hout => ?_
    obtain ⟨o, ho, hout⟩ := hout
    have hmem := List.mem_of_getElem? ho
    refine paintObject_painted ho (fun s inner hinner => ih ?_ ?_ hinner) hout
    · exact fun x hx => hheights x (Address.mem_walk_of_mem_children (Address.mem_walk hmem) hx)
    · have hlower := depthOfAll_children_lt hmem
      omega

/-- What is composed of a tree whose heights can be compared is painted from the outermost
surroundings. -/
theorem compose_painted {items : List (DrawItem R)}
    (hheights : ∀ o ∈ Address.walk objects, (height o).isOrdered = true)
    (h : compose settings measurer sampler objects frame = .ok items) :
    ∃ positions, Painted settings measurer sampler frame objects .outermost positions items :=
  paint_painted hheights (Nat.lt_succ_self _) h

end

end Composition

end Storyboard
