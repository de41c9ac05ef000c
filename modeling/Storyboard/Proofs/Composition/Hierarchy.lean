import Mathlib.Algebra.BigOperators.Group.List.Basic
import Storyboard.Proofs.AffineMaps
import Storyboard.Proofs.Composition.Compiled
import Storyboard.Proofs.Composition.Painting

namespace Storyboard

open Outcome

variable {R : Type}

/-- An object without what is inside it. -/
def Object.childless : Object R → Object R
  | group b _ info e => group b [] info e
  | o => o

@[simp] theorem Object.id_childless (o : Object R) : o.childless.id = o.id := by
  cases o <;> rfl

@[simp] theorem Object.kind_childless (o : Object R) : o.childless.kind = o.kind := by
  cases o <;> rfl

@[simp] theorem Object.groupInfo_childless (o : Object R) :
    o.childless.groupInfo = o.groupInfo := by
  cases o <;> rfl

@[simp] theorem Object.isGroup_childless (o : Object R) : o.childless.isGroup = o.isGroup := by
  cases o <;> rfl

namespace Composition

section

variable [Scalar R] [Trig R] {settings : Settings R} {measurer : Measurer R} {sampler sampler' : Sampler R}
  {frame : Number R} {o o' : Object R} {outer : Surroundings R}

/-- Two objects are the same but for what is inside them, and have the same properties at a frame. -/
def Alike (settings : Settings R) (sampler sampler' : Sampler R) (frame : Number R)
    (o o' : Object R) : Prop :=
  o.childless = o'.childless ∧
    propsAt settings sampler o frame = propsAt settings sampler' o' frame

theorem Alike.seen (h : Alike settings sampler sampler' frame o o')
    (hseen : Seen settings sampler frame o) : Seen settings sampler' frame o' := by
  rw [Seen, ← h.2, ← Object.groupInfo_childless, ← h.1, Object.groupInfo_childless]
  exact hseen

/-- Objects that are alike take the same place. -/
theorem Alike.placed (h : Alike settings sampler sampler' frame o o') {p p' : Placement R}
    (hp : Placed settings measurer sampler frame o outer p)
    (hp' : Placed settings measurer sampler' frame o' outer p') : p = p' := by
  have hprops : p.props = p'.props := Except.ok.inj (hp.props.symm.trans (h.2.trans hp'.props))
  have hkind : o.kind = o'.kind := by
    rw [← Object.kind_childless, h.1, Object.kind_childless]
  have hplacement := hp.placement
  rw [hprops, hkind, hp'.placement] at hplacement
  exact (Option.some.inj (Except.ok.inj hplacement)).symm

theorem Alike.item (h : Alike settings sampler sampler' frame o o') (p : Placement R) :
    item o p = item o' p := by
  have hid : o.id = o'.id := by rw [← Object.id_childless, h.1, Object.id_childless]
  have hkind : o.kind = o'.kind := by rw [← Object.kind_childless, h.1, Object.kind_childless]
  rw [Composition.item, Composition.item, hid, hkind]

theorem Handed.unique {path path' : List (Object R)} {inner inner' : Surroundings R}
    (halike : List.Forall₂ (Alike settings sampler sampler' frame) path path')
    (h : Handed settings measurer sampler frame path outer inner)
    (h' : Handed settings measurer sampler' frame path' outer inner') : inner = inner' := by
  induction halike generalizing outer with
  | nil =>
    cases h
    cases h'
    rfl
  | cons ho _ ih =>
    cases h with
    | cons hp hrest =>
      cases h' with
      | cons hp' hrest' =>
        obtain rfl := ho.placed hp hp'
        exact ih hrest hrest'

theorem Handed.concat {front : List (Object R)} {inner : Surroundings R} {p : Placement R}
    (h : Handed settings measurer sampler frame front outer inner)
    (ho : Placed settings measurer sampler frame o inner p) :
    Handed settings measurer sampler frame (front ++ [o]) outer p.inner := by
  induction h with
  | nil s => exact .cons ho (.nil _)
  | cons hx _ ih => exact .cons hx (ih ho)

theorem Leads.elsewhere {objects objects' : List (Object R)} {pos pos' : List Nat}
    {path path' : List (Object R)} (h : Leads settings sampler frame objects pos)
    (hway : Object.way objects pos = some path) (hway' : Object.way objects' pos' = some path')
    (halike : List.Forall₂ (Alike settings sampler sampler' frame) path path') :
    Leads settings sampler' frame objects' pos' := by
  obtain ⟨front, o, hfront, hleaf, hseen⟩ := h
  obtain rfl := Option.some.inj (hway.symm.trans hfront)
  obtain ⟨front', o', rfl, -, ho⟩ := forall₂_concat_left halike
  refine ⟨front', o', hway', ?_, fun x' hx' => ?_⟩
  · rw [← Object.isGroup_childless, ← ho.1, Object.isGroup_childless, hleaf]
  · obtain ⟨x, hx, hxx'⟩ := exists_related_of_mem halike hx'
    exact hxx'.seen (hseen x hx)

/-- An item is drawn also in another tree, wherever the way there passes objects that are alike. -/
theorem Painted.mem_of_alike {objects objects' : List (Object R)} {pos pos' : List Nat}
    {positions' : List (List Nat)} {path path' : List (Object R)} {it : DrawItem R}
    {items' : List (DrawItem R)}
    (hpainted : Painted settings measurer sampler' frame objects' outer positions' items')
    (hdraws : Draws settings measurer sampler frame objects outer pos it)
    (hway : Object.way objects pos = some path) (hway' : Object.way objects' pos' = some path')
    (halike : List.Forall₂ (Alike settings sampler sampler' frame) path path') : it ∈ items' := by
  have hleads' : Leads settings sampler' frame objects' pos' :=
    hdraws.leads.elsewhere hway hway' halike
  obtain ⟨it', hit', front', o', inner', p', hfront', -, hhanded', hplaced', hitem'⟩ :=
    exists_related_of_mem hpainted.draws.flip (hpainted.complete pos' hleads')
  obtain ⟨front, o, inner, p, hfront, -, hhanded, hplaced, hitem⟩ := hdraws
  obtain rfl := Option.some.inj (hway.symm.trans hfront)
  obtain rfl := Option.some.inj (hway'.symm.trans hfront')
  obtain ⟨front₂, o₂, hfront₂, hfronts, ho⟩ := forall₂_concat_left halike
  obtain ⟨rfl, hlast⟩ := List.append_inj' hfront₂ rfl
  obtain rfl : o' = o₂ := (List.cons.inj hlast).1
  obtain rfl := Handed.unique hfronts hhanded hhanded'
  obtain rfl := ho.placed hplaced hplaced'
  rw [← ho.item, hitem] at hitem'
  rwa [Except.ok.inj hitem']

end

/-- The rectangle that an object clips with, in its own space. -/
structure ClipShape (R : Type) where
  x : R
  y : R
  width : Json R
  height : Json R

/-- What an object adds to the items inside it: a map, an opacity, and maybe a clip. -/
structure Layer (R : Type) where
  map : R × R → R × R
  opacity : R
  clip : Option (ClipShape R)

variable [Scalar R] [CommRing R]

/-- A rectangle is the clip of an object with properties: its place is moved by the offset of the
anchor, and for a missing side stands that of the measured size. -/
structure IsClip (props : Members R) (size : Size R) (offset : R × R) (ms : Members R)
    (clip : ClipShape R) : Prop where
  declared : Members.get? "clip" props = some (.obj ms)
  x : ∃ x, numberOr (.int 0) "x" ms = .ok x ∧ clip.x = x.element + offset.1
  y : ∃ y, numberOr (.int 0) "y" ms = .ok y ∧ clip.y = y.element + offset.2
  width : clip.width = (Members.get? "width" ms).getD (.real size.width)
  height : clip.height = (Members.get? "height" ms).getD (.real size.height)

variable [Trig R]

/-- What an object with properties adds: it turns, scales and moves, multiplies the opacity, and
clips exactly if it has a clip that is not empty. -/
structure IsLayer (settings : Settings R) (measurer : Measurer R) (kind : String)
    (props : Members R) (l : Layer R) : Prop where
  map : ∃ scale scaleX scaleY x y rotation,
    numberOr (.int 1) "scale" props = .ok scale ∧ numberOr (.int 1) "scaleX" props = .ok scaleX ∧
    numberOr (.int 1) "scaleY" props = .ok scaleY ∧ numberOr (.int 0) "x" props = .ok x ∧
    numberOr (.int 0) "y" props = .ok y ∧ numberOr (.int 0) "rotation" props = .ok rotation ∧
    ∀ p, l.map p = Affine.shift x.element y.element
      (Affine.stretch (scale.element * scaleX.element) (scale.element * scaleY.element)
        (Affine.turn (Trig.cos (Affine.angle rotation)) (Trig.sin (Affine.angle rotation)) p))
  opacity : ∃ opacity, numberOr (.int 1) "opacity" props = .ok opacity ∧
    l.opacity = opacity.element
  clip : ∃ size anchor, measure settings measurer kind props = .ok size ∧
    Anchor.ofProperty (Members.get? "anchor" props) = .ok anchor ∧
    (((Members.get? "clip" props).getD .null).isFilled = false ∧ l.clip = none ∨
      ((Members.get? "clip" props).getD .null).isFilled = true ∧ ∃ ms clip, l.clip = some clip ∧
        IsClip props size
          (-anchor.factors.1 * size.width, -anchor.factors.2 * size.height) ms clip)

/-- The clips of layers one inside the other, the outermost first, each with the map from its space
outwards. -/
def clipsWithin (outer : R × R → R × R) : List (Layer R) → List ((R × R → R × R) × ClipShape R)
  | [] => []
  | l :: rest =>
    (l.clip.toList.map fun clip => (outer ∘ l.map, clip)) ++ clipsWithin (outer ∘ l.map) rest

/-- A clip rectangle is that of a clip in the space of a map. -/
structure Shows (placed : (R × R → R × R) × ClipShape R) (r : ClipRect R) : Prop where
  x : r.x.element = placed.2.x
  y : r.y.element = placed.2.y
  width : r.width = placed.2.width
  height : r.height = placed.2.height
  transform : ∀ x y : Number R, ∃ u v, r.transform.apply x y = .ok (u, v) ∧
    (u.element, v.element) = placed.1 (x.element, y.element)

/-- What layers one inside the other come to, the outermost first. -/
structure Inherits (layers : List (Layer R)) (transform : Affine R) (opacity : Number R)
    (clips : List (ClipRect R)) : Prop where
  transform : ∀ x y : Number R, ∃ u v, transform.apply x y = .ok (u, v) ∧
    (u.element, v.element) = layers.foldr (fun l p => l.map p) (x.element, y.element)
  opacity : opacity.element = (layers.map Layer.opacity).prod
  clips : List.Forall₂ Shows (clipsWithin id layers) clips

section

variable [RingScalar R] {settings : Settings R} {measurer : Measurer R} {sampler : Sampler R}
  {frame : Number R} {o : Object R} {outer : Surroundings R} {props : Members R}

omit [Trig R] [CommRing R] [RingScalar R] in
theorem numbers_of_scales {scale scaleX scaleY : Number R}
    (h : scales props = .ok (some (scale, scaleX, scaleY))) :
    numberOr (.int 1) "scale" props = .ok scale ∧ numberOr (.int 1) "scaleX" props = .ok scaleX ∧
      numberOr (.int 1) "scaleY" props = .ok scaleY := by
  obtain ⟨s, hs, h⟩ := bind_eq_ok.mp h
  split at h
  · cases h
  · obtain ⟨sX, hsX, h⟩ := bind_eq_ok.mp h
    split at h
    · cases h
    · obtain ⟨sY, hsY, h⟩ := bind_eq_ok.mp h
      split at h
      · cases h
      · cases h
        exact ⟨hs, hsX, hsY⟩

/-- An object takes its place by being turned, scaled and moved inside its parent. -/
theorem toMap_place {parent transform : Affine R} {scale scaleX scaleY : Number R}
    (h : place parent props scale scaleX scaleY = .ok transform) : ∃ x y rotation,
    numberOr (.int 0) "x" props = .ok x ∧ numberOr (.int 0) "y" props = .ok y ∧
    numberOr (.int 0) "rotation" props = .ok rotation ∧
    transform.toMap = parent.toMap ∘ Affine.shift x.element y.element ∘
      Affine.stretch (scale.element * scaleX.element) (scale.element * scaleY.element) ∘
      Affine.turn (Trig.cos (Affine.angle rotation)) (Trig.sin (Affine.angle rotation)) := by
  obtain ⟨x, hx, h⟩ := bind_eq_ok.mp h
  obtain ⟨-, -, h⟩ := bind_eq_ok.mp h
  obtain ⟨y, hy, h⟩ := bind_eq_ok.mp h
  obtain ⟨moved, hmoved, h⟩ := bind_eq_ok.mp h
  obtain ⟨sx, hsx, h⟩ := bind_eq_ok.mp h
  obtain ⟨sy, hsy, h⟩ := bind_eq_ok.mp h
  obtain ⟨scaled, hscaled, h⟩ := bind_eq_ok.mp h
  obtain ⟨rotation, hrotation, h⟩ := bind_eq_ok.mp h
  refine ⟨x, y, rotation, hx, hy, hrotation, ?_⟩
  rw [Affine.toMap_rotate h, Affine.toMap_scale hscaled, Affine.toMap_translate hmoved,
    Number.element_mul hsx, Number.element_mul hsy]
  rfl

omit [Trig R] in
theorem offset_ring {anchor : Anchor} {width height : R} {offset : R × R}
    (h : anchor.offset (.real width) (.real height) = .ok offset) :
    offset = (-anchor.factors.1 * width, -anchor.factors.2 * height) := by
  obtain ⟨x, hx, h⟩ := bind_eq_ok.mp h
  obtain ⟨y, hy, h⟩ := bind_eq_ok.mp h
  obtain ⟨u, hu, h⟩ := bind_eq_ok.mp h
  obtain ⟨v, hv, h⟩ := bind_eq_ok.mp h
  obtain rfl := pure_eq_ok.mp h
  rw [Number.toReal_ring] at hu hv
  obtain rfl := Except.ok.inj hu
  obtain rfl := Except.ok.inj hv
  rw [Number.element_mul hx, Number.element_mul hy, Number.element_real, Number.element_real,
    Number.element_real, Number.element_real, RingScalar.neg, RingScalar.neg]

omit [Trig R] in
/-- The clip of an object is none, or one rectangle in the space of the object. -/
theorem ownClip_shows {size : Size R} {offset : R × R} {transform : Affine R}
    {clips : List (ClipRect R)} (h : ownClip props size offset transform = .ok clips) :
    ((Members.get? "clip" props).getD .null).isFilled = false ∧ clips = [] ∨
      ((Members.get? "clip" props).getD .null).isFilled = true ∧ ∃ ms clip r, clips = [r] ∧
        IsClip props size offset ms clip ∧ Shows (transform.toMap, clip) r := by
  rw [ownClip] at h
  cases hfilled : ((Members.get? "clip" props).getD .null).isFilled with
  | false =>
    rw [hfilled] at h
    exact .inl ⟨rfl, (pure_eq_ok.mp h).symm⟩
  | true =>
    rw [hfilled] at h
    refine .inr ⟨rfl, ?_⟩
    cases hclip : Members.get? "clip" props with
    | none =>
      rw [hclip] at hfilled
      cases hfilled
    | some j =>
      rw [hclip] at h
      cases j with
      | obj ms =>
        obtain ⟨r, hr, h⟩ := bind_eq_ok.mp h
        obtain rfl := pure_eq_ok.mp h
        obtain ⟨x, hx, hr⟩ := bind_eq_ok.mp hr
        obtain ⟨left, hleft, hr⟩ := bind_eq_ok.mp hr
        obtain ⟨y, hy, hr⟩ := bind_eq_ok.mp hr
        obtain ⟨top, htop, hr⟩ := bind_eq_ok.mp hr
        obtain rfl := pure_eq_ok.mp hr
        refine ⟨ms, ⟨left.element, top.element, _, _⟩, _, rfl,
          ⟨hclip, ⟨x, hx, ?_⟩, ⟨y, hy, ?_⟩, rfl, rfl⟩, ⟨rfl, rfl, rfl, rfl, ?_⟩⟩
        · rw [Number.element_add hleft, Number.element_real]
        · rw [Number.element_add htop, Number.element_real]
        · exact Affine.apply_ring transform
      | null | bool | num | str | arr => cases h

/-- What an object is placed with is what it adds to its surroundings. -/
theorem Placed.exists_layer {p : Placement R}
    (h : Placed settings measurer sampler frame o outer p) :
    ∃ l own, IsLayer settings measurer o.kind p.props l ∧
      p.inner.transform.toMap = outer.transform.toMap ∘ l.map ∧
      p.inner.opacity.element = outer.opacity.element * l.opacity ∧
      p.inner.clips = outer.clips ++ own ∧
      List.Forall₂ Shows (l.clip.toList.map fun clip => (outer.transform.toMap ∘ l.map, clip))
        own := by
  obtain ⟨found, hscales, hplaced⟩ := bind_eq_ok.mp h.placement
  cases found with
  | none => cases hplaced
  | some found =>
    obtain ⟨scale, scaleX, scaleY⟩ := found
    obtain ⟨hscale, hscaleX, hscaleY⟩ := numbers_of_scales hscales
    obtain ⟨transform, htransform, hplaced⟩ := bind_eq_ok.mp hplaced
    obtain ⟨own, hown, hplaced⟩ := bind_eq_ok.mp hplaced
    obtain ⟨opacity, hopacity, hplaced⟩ := bind_eq_ok.mp hplaced
    obtain ⟨size, hsize, hplaced⟩ := bind_eq_ok.mp hplaced
    obtain ⟨anchor, hanchor, hplaced⟩ := bind_eq_ok.mp hplaced
    obtain ⟨offset, hoffset, hplaced⟩ := bind_eq_ok.mp hplaced
    obtain ⟨clips, hclips, hplaced⟩ := bind_eq_ok.mp hplaced
    have hp := Option.some.inj (pure_eq_ok.mp hplaced)
    obtain ⟨x, y, rotation, hx, hy, hrotation, hmap⟩ := toMap_place htransform
    obtain rfl := offset_ring hoffset
    let local_ := Affine.shift x.element y.element ∘
      Affine.stretch (scale.element * scaleX.element) (scale.element * scaleY.element) ∘
      Affine.turn (Trig.cos (Affine.angle rotation)) (Trig.sin (Affine.angle rotation))
    have hinner : p.inner = ⟨transform, opacity, outer.clips ++ clips⟩ := by
      rw [← hp]
    have hproduct : opacity.element = outer.opacity.element * own.element :=
      Number.element_mul hopacity
    rw [hinner]
    rcases ownClip_shows hclips with ⟨hempty, rfl⟩ | ⟨hfilled, ms, clip, r, rfl, hclip, hshows⟩
    · refine ⟨⟨local_, own.element, none⟩, [], ⟨?_, ⟨own, hown, rfl⟩, ?_⟩, hmap, hproduct, rfl, .nil⟩
      · exact ⟨scale, scaleX, scaleY, x, y, rotation, hscale, hscaleX, hscaleY, hx, hy, hrotation,
          fun _ => rfl⟩
      · exact ⟨size, anchor, hsize, hanchor, .inl ⟨hempty, rfl⟩⟩
    · refine ⟨⟨local_, own.element, some clip⟩, [r], ⟨?_, ⟨own, hown, rfl⟩, ?_⟩, hmap, hproduct, rfl,
        .cons ?_ .nil⟩
      · exact ⟨scale, scaleX, scaleY, x, y, rotation, hscale, hscaleX, hscaleY, hx, hy, hrotation,
          fun _ => rfl⟩
      · exact ⟨size, anchor, hsize, hanchor, .inr ⟨hfilled, ms, clip, rfl, hclip⟩⟩
      · rwa [hmap] at hshows

/-- An object adds a layer at a frame. -/
def HasLayer (settings : Settings R) (measurer : Measurer R) (sampler : Sampler R)
    (frame : Number R) (o : Object R) (l : Layer R) : Prop :=
  ∃ props, propsAt settings sampler o frame = .ok props ∧ IsLayer settings measurer o.kind props l

/-- What objects one inside the other hand on is what came to the first, with their layers. -/
theorem Handed.exists_layers {path : List (Object R)} {inner : Surroundings R}
    (h : Handed settings measurer sampler frame path outer inner) : ∃ layers own,
      List.Forall₂ (HasLayer settings measurer sampler frame) path layers ∧
      (∀ p, inner.transform.toMap p =
        outer.transform.toMap (layers.foldr (fun l p => l.map p) p)) ∧
      inner.opacity.element = outer.opacity.element * (layers.map Layer.opacity).prod ∧
      inner.clips = outer.clips ++ own ∧
      List.Forall₂ Shows (clipsWithin outer.transform.toMap layers) own := by
  induction h with
  | nil s => exact ⟨[], [], .nil, fun p => rfl, by simp, by simp, .nil⟩
  | @cons o rest outer inner p ho _ ih =>
    obtain ⟨layers, below, hlayers, hmap, hopacity, hclips, hshows⟩ := ih
    obtain ⟨l, own, hl, hplaced, hproduct, hown, hfirst⟩ := ho.exists_layer
    refine ⟨l :: layers, own ++ below, .cons ⟨p.props, ho.props, hl⟩ hlayers, fun q => ?_, ?_, ?_, ?_⟩
    · rw [hmap, hplaced]
      rfl
    · rw [hopacity, hproduct, List.map_cons, List.prod_cons, mul_assoc]
    · rw [hclips, hown, List.append_assoc]
    · rw [hplaced] at hshows
      exact List.rel_append hfirst hshows

/-- Objects handing on from where a document is drawn hand on what their layers come to. -/
theorem Handed.exists_inherits {path : List (Object R)} {inner : Surroundings R}
    (h : Handed settings measurer sampler frame path Surroundings.outermost inner) : ∃ layers,
      List.Forall₂ (HasLayer settings measurer sampler frame) path layers ∧
      Inherits layers inner.transform inner.opacity inner.clips := by
  obtain ⟨layers, own, hlayers, hmap, hopacity, hclips, hshows⟩ := h.exists_layers
  have hidentity : (Surroundings.outermost : Surroundings R).transform.toMap = id :=
    Affine.toMap_identity
  have hunit : (Surroundings.outermost : Surroundings R).opacity.element = 1 := Affine.element_one
  rw [hidentity] at hshows
  refine ⟨layers, hlayers, fun x y => ?_, ?_, ?_⟩
  · obtain ⟨u, v, hok, hpoint⟩ := Affine.apply_ring inner.transform x y
    exact ⟨u, v, hok, by rw [hpoint, hmap, hidentity, id]⟩
  · rw [hopacity, hunit, one_mul]
  · rwa [hclips]

end

/-- An item is that of the last of objects one inside the other: it has what their layers come to,
and whatever else a tree holds, it is drawn where the way to a position passes objects that are
alike. -/
structure IsComposed (settings : Settings R) (measurer : Measurer R) (sampler : Sampler R)
    (frame : Number R) (path : List (Object R)) (it : DrawItem R) : Prop where
  last : ∃ front o, path = front ++ [o] ∧ it.id = o.id ∧ it.kind = o.kind ∧
    propsAt settings sampler o frame = .ok it.props
  inherits : ∃ layers, List.Forall₂ (HasLayer settings measurer sampler frame) path layers ∧
    Inherits layers it.transform it.opacity it.clips
  independent : ∀ (sampler' : Sampler R) (objects' : List (Object R)) (items' : List (DrawItem R))
    (pos' : List Nat) (path' : List (Object R)),
    compose settings measurer sampler' objects' frame = .ok items' →
    Object.way objects' pos' = some path' →
    List.Forall₂ (Alike settings sampler sampler' frame) path path' → it ∈ items'

variable [RingScalar R] {settings : Settings R} {measurer : Measurer R} {sampler : Sampler R}
  {frame : Number R} {objects : List (Object R)} {items : List (DrawItem R)}

theorem Draws.isComposed {pos : List Nat} {it : DrawItem R}
    (h : Draws settings measurer sampler frame objects Surroundings.outermost pos it) :
    ∃ path, Object.way objects pos = some path ∧
      IsComposed settings measurer sampler frame path it := by
  have hdraws := h
  obtain ⟨front, o, inner, p, hway, -, hhanded, hplaced, hitem⟩ := h
  obtain ⟨layers, hlayers, hinherits⟩ := (hhanded.concat hplaced).exists_inherits
  refine ⟨front ++ [o], hway, ?_, ?_, fun sampler' objects' items' pos' path' hok hway' halike => ?_⟩
  · obtain ⟨blur, -, hitem⟩ := bind_eq_ok.mp hitem
    obtain rfl := pure_eq_ok.mp hitem
    exact ⟨front, o, rfl, rfl, rfl, hplaced.props⟩
  · obtain ⟨blur, -, hitem⟩ := bind_eq_ok.mp hitem
    obtain rfl := pure_eq_ok.mp hitem
    exact ⟨layers, hlayers, hinherits⟩
  · obtain ⟨positions', hpainted⟩ := compose_painted (fun o _ => (height o).isOrdered_of_ring) hok
    exact hpainted.mem_of_alike hdraws hway hway' halike

/-- In an arithmetic that is a commutative ring every item of a frame, each from another position,
has what the layers of the objects on the way to its position come to: the map that takes a point
through all of them, the product of their opacities and a rectangle for each of their clips. No
other object has an influence on it. -/
theorem compose_hierarchy (h : compose settings measurer sampler objects frame = .ok items) :
    ∃ positions : List (List Nat), positions.Nodup ∧ List.Forall₂ (fun pos it =>
      ∃ path, Object.way objects pos = some path ∧
        IsComposed settings measurer sampler frame path it) positions items := by
  obtain ⟨positions, hpainted⟩ := compose_painted (fun o _ => (height o).isOrdered_of_ring) h
  exact ⟨positions, hpainted.nodup, hpainted.draws.imp fun pos it hdraws => hdraws.isComposed⟩

/-- A group that is moved, scaled, clipped and half transparent, with a moved rectangle inside. -/
def framed : List (Object Rat) :=
  let rect : Shape Rat := .rect ⟨none, none, none, ⟨none, none⟩⟩
  [.group
    { Base.ofId (some "outer") with
      x := some (.int 10), scale := some (.int 2), opacity := some (.real (1/2)),
      clip := some ⟨none, none, some (.number (.int 5)), none, []⟩ }
    [.shape { Base.ofId (some "inner") with x := some (.int 3) } rect []] GroupInfo.empty []]

/-- The rectangle is moved by three in a space twice the size that is moved by ten. -/
theorem framed_composed : ∃ items,
    @compose Rat _ unturned bareStudio.settings bareStudio.measurer ⟨[]⟩ framed (.int 0) =
      .ok items ∧
    (items.map fun it => (it.id, it.transform.entries.map Number.element, it.opacity.element,
      it.clips.length)) = [(some "inner", [2, 0, 0, 2, 16, 0], 1/2, 1)] ∧
    ∃ positions : List (List Nat), positions.Nodup ∧ List.Forall₂ (fun pos it =>
      ∃ path, Object.way framed pos = some path ∧
        @IsComposed Rat _ _ unturned bareStudio.settings bareStudio.measurer ⟨[]⟩ (.int 0) path it)
      positions items := by
  let _ : Trig Rat := unturned
  have hok : (compose bareStudio.settings bareStudio.measurer ⟨[]⟩ framed (.int 0)).toOption.any
      (fun items => decide ((items.map fun it => (it.id, it.transform.entries.map Number.element,
        it.opacity.element, it.clips.length)) = [(some "inner", [2, 0, 0, 2, 16, 0], 1/2, 1)])) =
      true := by
    decide +kernel
  obtain ⟨items, hitems, hvalues⟩ := (Option.any_eq_true _ _).mp hok
  have hitems := toOption_eq_some.mp hitems
  exact ⟨items, hitems, of_decide_eq_true hvalues, compose_hierarchy hitems⟩

end Composition

end Storyboard
