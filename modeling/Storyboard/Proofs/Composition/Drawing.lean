import Storyboard.Proofs.Address
import Storyboard.Proofs.Composition.Placing
import Storyboard.Proofs.Permutations

namespace Storyboard.Composition

open Outcome

variable {R : Type} [Scalar R]

/-- A text keeps an object of a kind from being drawn: it stands for a scale, or, where the scales
leave something to draw, for a place, an angle, the opacity, a blur radius or a place of the clip, or
it is no numeral and stands for a length. -/
inductive Misfit (kind : String) (props : Members R) : Fault → Prop where
  | scale (h : ¬ Scaled props) : Misfit kind props (.numeric .operand)
  | number {name : String} (hsolid : Solid props) (hname : name ∈ placeNames)
      (htext : HasText props name) : Misfit kind props (.numeric .operand)
  | opacity (hsolid : Solid props) (htext : HasText props "opacity") :
      Misfit kind props (.numeric .operand)
  | length {name s : String} (hsolid : Solid props) (hname : name ∈ lengthNames kind)
      (hs : Members.get? name props = some (.str s)) (hempty : kind = "text" → s ≠ "")
      (hread : readReal? (R := R) s.toList = none) : Misfit kind props (.numeric .value)
  | side {name : String} {ms : Members R} (hsolid : Solid props) (hname : name ∈ ["x", "y"])
      (hclip : Members.get? "clip" props = some (.obj ms)) (htext : HasText ms name) :
      Misfit kind props (.numeric .operand)
  | blur (hsolid : Solid props) (hkind : kind ≠ "group") (htext : Unblurred props) :
      Misfit kind props (.numeric .operand)

section

variable [Trig R]

/-- A number that is out of range keeps an object of a kind from being drawn. -/
inductive Strain (settings : Settings R) (measurer : Measurer R) (kind : String)
    (props : Members R) : Fault → Prop where
  | number {name : String} (hsolid : Solid props) (hname : name ∈ placeNames)
      (hfar : Beyond (.int 0) name props) : Strain settings measurer kind props (.numeric .overflow)
  | opacity (hsolid : Solid props) (hfar : Beyond (.int 1) "opacity" props) :
      Strain settings measurer kind props (.numeric .overflow)
  | angle {n : Number R} (hsolid : Solid props)
      (hn : numberOr (.int 0) "rotation" props = .ok n) (hendless : Affine.Endless n) :
      Strain settings measurer kind props (.numeric .value)
  | scale {scale scaleX scaleY factor : Number R} {f : Fault}
      (hscales : scales props = .ok (some (scale, scaleX, scaleY)))
      (hfactor : factor ∈ [scaleX, scaleY])
      (h : (scale.mul factor >>= Number.toReal) = .error f) :
      Strain settings measurer kind props f
  | length {name : String} {n : Number R} (hsolid : Solid props) (hname : name ∈ lengthNames kind)
      (hn : Members.get? name props = some (.num n)) (hempty : kind = "text" → n.isZero = false)
      (hfar : n.Far) : Strain settings measurer kind props (.numeric .overflow)
  | size (hsolid : Solid props) (hsize : Unsized settings kind props) :
      Strain settings measurer kind props (.numeric .overflow)
  | side {name : String} {ms : Members R} (hsolid : Solid props) (hname : name ∈ ["x", "y"])
      (hclip : Members.get? "clip" props = some (.obj ms)) (hms : ms ≠ [])
      (hfar : Beyond (.int 0) name ms) : Strain settings measurer kind props (.numeric .overflow)
  | blur {size : Size R} {f : Fault} (hsolid : Solid props) (hkind : kind ≠ "group")
      (hsize : measure settings measurer kind props = .ok size) (h : Overblown props size f) :
      Strain settings measurer kind props f

/-- An object that is no group has no surface for its blur. -/
def Unlayered (settings : Settings R) (measurer : Measurer R) (kind : String) (props : Members R)
    (f : Fault) : Prop :=
  kind ≠ "group" ∧ (Unblurred props ∧ f = .numeric .operand ∨
    ∃ size, measure settings measurer kind props = .ok size ∧ Overblown props size f)

variable {settings : Settings R} {measurer : Measurer R} {kind : String} {props : Members R}
  {f : Fault}

theorem unplaced_of_misfit (h : Shaped kind props) (hmisfit : Misfit kind props f) :
    Unplaced settings kind props f ∨ Solid props ∧ Unlayered settings measurer kind props f := by
  cases hmisfit with
  | scale hscaled => exact .inl (.inl (scales_of_not_scaled h.scales hscaled))
  | number hsolid hname htext =>
    obtain ⟨scale, scaleX, scaleY, hfound⟩ := scales_of_solid h.scales hsolid
    refine .inl (.inr ⟨_, _, _, hfound, .inl (.inl ⟨_, hname, ?_⟩)⟩)
    exact (scalarOr_eq_error (h.drawn (placeNames_drawn _ hname))).mpr (.inl ⟨htext, rfl⟩)
  | opacity hsolid htext =>
    obtain ⟨scale, scaleX, scaleY, hfound⟩ := scales_of_solid h.scales hsolid
    refine .inl (.inr ⟨_, _, _, hfound, .inr (.inl ?_)⟩)
    exact (scalarOr_eq_error (h.drawn (by decide))).mpr (.inl ⟨htext, rfl⟩)
  | length hsolid hname hs hempty hread =>
    obtain ⟨scale, scaleX, scaleY, hfound⟩ := scales_of_solid h.scales hsolid
    refine .inl (.inr ⟨_, _, _, hfound, .inr (.inr (.inl (.inl ⟨_, hname, _, hs, ?_, ?_⟩)))⟩)
    · exact fun hkind => bne_iff_ne.mpr (hempty hkind)
    · rw [Json.toReal, hread]
      rfl
  | side hsolid hname hclip htext =>
    obtain ⟨scale, scaleX, scaleY, hfound⟩ := scales_of_solid h.scales hsolid
    refine .inl (.inr ⟨_, _, _, hfound, .inr (.inr (.inr ⟨_, hclip, _, hname, ?_, ?_⟩))⟩)
    · rintro rfl
      obtain ⟨s, hs⟩ := htext
      cases hs
    · exact (scalarOr_eq_error (h.side hclip hname)).mpr (.inl ⟨htext, rfl⟩)
  | blur hsolid hkind htext => exact .inr ⟨hsolid, hkind, .inl ⟨htext, rfl⟩⟩

theorem unplaced_of_strain (h : Shaped kind props) (hstrain : Strain settings measurer kind props f) :
    Unplaced settings kind props f ∨ Solid props ∧ Unlayered settings measurer kind props f := by
  cases hstrain with
  | number hsolid hname hfar =>
    obtain ⟨scale, scaleX, scaleY, hfound⟩ := scales_of_solid h.scales hsolid
    refine .inl (.inr ⟨_, _, _, hfound, .inl (.inl ⟨_, hname, ?_⟩)⟩)
    exact (scalarOr_eq_error (h.drawn (placeNames_drawn _ hname))).mpr (.inr ⟨hfar, rfl⟩)
  | opacity hsolid hfar =>
    obtain ⟨scale, scaleX, scaleY, hfound⟩ := scales_of_solid h.scales hsolid
    refine .inl (.inr ⟨_, _, _, hfound, .inr (.inl ?_)⟩)
    exact (scalarOr_eq_error (h.drawn (by decide))).mpr (.inr ⟨hfar, rfl⟩)
  | angle hsolid hn hendless =>
    obtain ⟨scale, scaleX, scaleY, hfound⟩ := scales_of_solid h.scales hsolid
    exact .inl (.inr ⟨_, _, _, hfound, .inl (.inr (.inr ⟨⟨_, hn, hendless⟩, rfl⟩))⟩)
  | scale hscales hfactor hfails =>
    exact .inl (.inr ⟨_, _, _, hscales, .inl (.inr (.inl ⟨_, hfactor, hfails⟩))⟩)
  | length hsolid hname hn hempty hfar =>
    obtain ⟨scale, scaleX, scaleY, hfound⟩ := scales_of_solid h.scales hsolid
    refine .inl (.inr ⟨_, _, _, hfound, .inr (.inr (.inl (.inl ⟨_, hname, _, hn, ?_, ?_⟩)))⟩)
    · exact fun hkind => by rw [Json.isFilled, hempty hkind]; rfl
    · exact Number.toReal_eq_error.mpr ⟨hfar, rfl⟩
  | size hsolid hsize =>
    obtain ⟨scale, scaleX, scaleY, hfound⟩ := scales_of_solid h.scales hsolid
    exact .inl (.inr ⟨_, _, _, hfound, .inr (.inr (.inl (.inr ⟨hsize, rfl⟩)))⟩)
  | side hsolid hname hclip hms hfar =>
    obtain ⟨scale, scaleX, scaleY, hfound⟩ := scales_of_solid h.scales hsolid
    refine .inl (.inr ⟨_, _, _, hfound, .inr (.inr (.inr ⟨_, hclip, _, hname, hms, ?_⟩))⟩)
    exact (scalarOr_eq_error (h.side hclip hname)).mpr (.inr ⟨hfar, rfl⟩)
  | blur hsolid hkind hsize hover => exact .inr ⟨hsolid, hkind, .inr ⟨_, hsize, hover⟩⟩

/-- Every fault of a place is that of a text or of a number out of range. -/
theorem misfit_or_strain_of_misplaced (h : Shaped kind props) (hsolid : Solid props)
    {scale scaleX scaleY : Number R} (hscales : scales props = .ok (some (scale, scaleX, scaleY)))
    (hplace : Misplaced props scale scaleX scaleY f) :
    Misfit kind props f ∨ Strain settings measurer kind props f := by
  rcases hplace with ⟨name, hname, hrefused⟩ | ⟨factor, hfactor, hfails⟩ | ⟨⟨n, hn, hendless⟩, rfl⟩
  · rcases (scalarOr_eq_error (h.drawn (placeNames_drawn _ hname))).mp hrefused with
      ⟨htext, rfl⟩ | ⟨hfar, rfl⟩
    · exact .inl (.number hsolid hname htext)
    · exact .inr (.number hsolid hname hfar)
  · exact .inr (.scale hscales hfactor hfails)
  · exact .inr (.angle hsolid hn hendless)

theorem misfit_or_strain_of_unmeasured (h : Shaped kind props) (hsolid : Solid props)
    (hlength : Unmeasured kind props f) :
    Misfit kind props f ∨ Strain settings measurer kind props f := by
  obtain ⟨name, hname, j, hj, hfilled, hrefused⟩ := hlength
  obtain ⟨q, rfl⟩ := h.simple name (List.mem_append_right _ hname) j hj
  cases q with
  | number n =>
    obtain ⟨hfar, rfl⟩ := Number.toReal_eq_error.mp hrefused
    refine .inr (.length hsolid hname hj (fun hkind => ?_) hfar)
    simpa [Json.isFilled, Json.ofQuantity] using hfilled hkind
  | text s =>
    rw [Json.ofQuantity, Json.toReal] at hrefused
    split at hrefused
    · cases hrefused
    · rename_i hread
      cases hrefused
      exact .inl (.length hsolid hname hj (fun hkind => bne_iff_ne.mp (hfilled hkind)) hread)

/-- An object has no place or no surface exactly for a text, or for a number out of range. -/
theorem misfit_or_strain_iff (h : Shaped kind props) :
    Misfit kind props f ∨ Strain settings measurer kind props f ↔
      Unplaced settings kind props f ∨ Solid props ∧ Unlayered settings measurer kind props f := by
  refine ⟨fun hf => hf.elim (unplaced_of_misfit h) (unplaced_of_strain h), ?_⟩
  rintro ((hfails | ⟨scale, scaleX, scaleY, hscales, hplace⟩) | ⟨hsolid, hkind, hblur⟩)
  · rcases scales_cases h.scales with ⟨hscaled, -, hsame⟩ | ⟨-, -, hsame⟩ | ⟨-, -, _, hsame⟩
    · cases hsame.symm.trans hfails
      exact .inl (.scale hscaled)
    · cases hsame.symm.trans hfails
    · cases hsame.symm.trans hfails
  · have hsolid : Solid props := by
      rcases scales_cases h.scales with ⟨-, -, hsame⟩ | ⟨-, -, hsame⟩ | ⟨-, hsolid, -⟩
      · cases hsame.symm.trans hscales
      · cases hsame.symm.trans hscales
      · exact hsolid
    rcases hplace with hplace | hopacity | (hlength | ⟨hsize, rfl⟩) |
      ⟨ms, hclip, name, hname, hms, hrefused⟩
    · exact misfit_or_strain_of_misplaced h hsolid hscales hplace
    · rcases (scalarOr_eq_error (h.drawn (by decide))).mp hopacity with ⟨htext, rfl⟩ | ⟨hfar, rfl⟩
      · exact .inl (.opacity hsolid htext)
      · exact .inr (.opacity hsolid hfar)
    · exact misfit_or_strain_of_unmeasured h hsolid hlength
    · exact .inr (.size hsolid hsize)
    · rcases (scalarOr_eq_error (h.side hclip hname)).mp hrefused with ⟨htext, rfl⟩ | ⟨hfar, rfl⟩
      · exact .inl (.side hsolid hname hclip htext)
      · exact .inr (.side hsolid hname hclip hms hfar)
  · rcases hblur with ⟨htext, rfl⟩ | ⟨size, hsize, hover⟩
    · exact .inl (.blur hsolid hkind htext)
    · exact .inr (.blur hsolid hkind hsize hover)

omit [Trig R] in
theorem ranged_around (radius width height : Number R) :
    Outcome.Ranged R (BlurLayer.around radius width height) := by
  refine (Number.ranged_lift _ _ _ _).bind fun _ _ => (Number.ranged_ceil _).bind fun _ _ => ?_
  refine (Number.ranged_lift _ _ _ _).bind fun _ _ => (Number.ranged_ceil _).bind fun _ _ => ?_
  exact (Number.ranged_lift _ _ _ _).bind fun _ _ => (Number.ranged_ceil _).bind fun _ _ => .pure _

theorem Strain.ranged (h : Strain settings measurer kind props f) : f.Ranged R := by
  have hbeyond {default : Number R} {name : String} {ms : Members R}
      (hfar : Beyond default name ms) : Fault.Ranged R (.numeric .overflow) := by
    obtain ⟨n, -, hn⟩ := hfar
    exact Fault.ranged_overflow hn.bounded
  cases h with
  | number _ _ hfar | opacity _ hfar | side _ _ _ _ hfar => exact hbeyond hfar
  | length _ _ _ _ hfar => exact Fault.ranged_overflow hfar.bounded
  | size _ hsize => exact Fault.ranged_overflow hsize.2.2.bounded
  | angle _ _ hendless =>
    obtain ⟨x, negative, -, hx⟩ := hendless
    exact Fault.ranged_value (limited_of_infinite hx)
  | scale _ _ hfails =>
    exact ((Number.ranged_lift _ _ _ _).bind fun n _ => Number.ranged_toReal n) _ hfails
  | blur _ _ _ hover =>
    obtain ⟨n, -, -, hfails⟩ := hover
    exact ranged_around _ _ _ _ hfails

/-- Whether a group is drawn at a frame; other objects always are. -/
def Shown (o : Object R) (frame : Number R) : Prop :=
  ∀ b cs info e, o = .group b cs info e → isVisible info frame = .ok true

/-- The children of an object are looked at: it is shown and leaves something to draw. -/
def Entered (settings : Settings R) (s : Sampler R) (frame : Number R) (o : Object R) : Prop :=
  Shown o frame ∧ ∃ props, propsAt settings s o frame = .ok props ∧ Solid props

/-- The objects of a tree whose parents are all shown and leave something to draw. -/
inductive Reached (settings : Settings R) (s : Sampler R) (frame : Number R) :
    List (Object R) → Object R → Prop where
  | here {objects o} (ho : o ∈ objects) : Reached settings s frame objects o
  | inside {objects parent o} (hparent : parent ∈ objects)
      (hentered : Entered settings s frame parent)
      (ho : Reached settings s frame parent.children o) : Reached settings s frame objects o

/-- An object keeps a frame from being drawn: it cannot be told whether it is shown, or it is shown
and has no values, or values that do not let it be drawn. -/
inductive Undrawn (settings : Settings R) (measurer : Measurer R) (s : Sampler R)
    (frame : Number R) (o : Object R) : Fault → Prop where
  | window {b : Base R} {cs : List (Object R)} {info : GroupInfo R} {e : Members R} {f : Fault}
      (ho : o = .group b cs info e) (h : isVisible info frame = .error f) :
      Undrawn settings measurer s frame o f
  | sampled {f : Fault} (hshown : Shown o frame) (h : propsAt settings s o frame = .error f) :
      Undrawn settings measurer s frame o f
  | misfit {props : Members R} {f : Fault} (hshown : Shown o frame)
      (hprops : propsAt settings s o frame = .ok props) (h : Misfit o.kind props f) :
      Undrawn settings measurer s frame o f
  | strain {props : Members R} {f : Fault} (hshown : Shown o frame)
      (hprops : propsAt settings s o frame = .ok props)
      (h : Strain settings measurer o.kind props f) : Undrawn settings measurer s frame o f

variable {s : Sampler R} {frame : Number R} {o : Object R} {objects : List (Object R)}

theorem Reached.mem_walk (h : Reached settings s frame objects o) : o ∈ Address.walk objects := by
  induction h with
  | here ho => exact Address.mem_walk ho
  | inside hparent _ _ ih => exact (Address.walk_children_sublist hparent).subset ih

theorem undrawn_iff (hshown : Shown o frame) : Undrawn settings measurer s frame o f ↔
    propsAt settings s o frame = .error f ∨ ∃ props, propsAt settings s o frame = .ok props ∧
      (Misfit o.kind props f ∨ Strain settings measurer o.kind props f) := by
  constructor
  · intro h
    cases h with
    | window ho h => cases h.symm.trans (hshown _ _ _ _ ho)
    | sampled _ h => exact .inl h
    | misfit _ hprops h => exact .inr ⟨_, hprops, .inl h⟩
    | strain _ hprops h => exact .inr ⟨_, hprops, .inr h⟩
  · rintro (h | ⟨props, hprops, h | h⟩)
    · exact .sampled hshown h
    · exact .misfit hshown hprops h
    · exact .strain hshown hprops h

/-- An object that is shown is drawn unless its values are to blame, or what is drawn inside it. -/
theorem exactly_shown {α : Type} {Q : Fault → Prop} {outer : Surroundings R}
    {rest : Option (Placement R) → Outcome α}
    (hmeasurer : ∀ t, Returns (measurer t)) (hshown : Shown o frame)
    (hshaped : ∀ props, propsAt settings s o frame = .ok props → Shaped o.kind props)
    (houter : outer.IsReal) (hnone : Returns (rest none))
    (hsome : ∀ p : Placement R, Shaped o.kind p.props → p.inner.IsReal →
      measure settings measurer o.kind p.props = .ok p.size →
        Exactly (fun f => Unlayered settings measurer o.kind p.props f ∨ Q f) (rest (some p))) :
    Exactly (fun f => Undrawn settings measurer s frame o f ∨ Entered settings s frame o ∧ Q f)
      (propsAt settings s o frame >>= fun props =>
        placement settings measurer o.kind props outer >>= rest) := by
  have h : Exactly (fun f => propsAt settings s o frame = .error f ∨
      (∃ props, propsAt settings s o frame = .ok props ∧
        (Misfit o.kind props f ∨ Strain settings measurer o.kind props f)) ∨
      Entered settings s frame o ∧ Q f) (propsAt settings s o frame >>= fun props =>
        placement settings measurer o.kind props outer >>= rest) := by
    refine (Exactly.self _).bind fun props hprops => ?_
    have hvalues := hshaped props hprops
    have hentered : Entered settings s frame o ↔ Solid props := by
      simp [Entered, hshown, hprops]
    refine (exactly_placed hmeasurer hvalues houter hnone fun p hp hreal hsize => ?_).congr
      (P := fun f => Unplaced settings o.kind props f ∨
        Solid props ∧ (Unlayered settings measurer o.kind props f ∨ Q f)) fun f => ?_
    · rw [← hp] at hvalues hsize ⊢
      exact hsome p hvalues hreal hsize
    · rw [hentered, and_or_left, ← or_assoc, ← misfit_or_strain_iff hvalues]
      simp [hprops]
  exact h.congr fun f => by rw [undrawn_iff hshown, or_assoc]

omit [Trig R] in
theorem exactly_item (o : Object R) {p : Placement R} (h : Simple p.props "blur") :
    Exactly (fun f => Unblurred p.props ∧ f = .numeric .operand ∨ Overblown p.props p.size f)
      (do return [← item o p]) :=
  ((exactly_blurOf h p.size).bind_total fun _ _ => returns_pure _).bind_total fun _ _ =>
    returns_pure _

omit [Trig R] in
theorem mem_paintOrder : o ∈ paintOrder objects ↔ o ∈ objects :=
  (Order.arrange_perm _ _ objects).mem_iff

theorem depthOfAll_children_lt {R : Type} {objects : List (Object R)} {o : Object R}
    (ho : o ∈ objects) :
    depthOfAll o.children < depthOfAll objects := by
  induction objects with
  | nil => simp at ho
  | cons first rest ih =>
    rw [depthOfAll]
    rcases List.mem_cons.mp ho with rfl | ho
    · cases o <;> simp [depth, depthOfAll, Object.children]
    · exact lt_max_of_lt_right (ih ho)

/-- An object that is no group is shown, and has nothing inside. -/
theorem exactly_paintObject_single {Q : Fault → Prop} {inner : Painter R} {outer : Surroundings R}
    (hmeasurer : ∀ t, Returns (measurer t))
    (hshaped : ∀ props, propsAt settings s o frame = .ok props → Shaped o.kind props)
    (houter : outer.IsReal) (hno : ∀ b cs info e, o ≠ .group b cs info e)
    (hkind : o.kind ≠ "group") (hleaf : ∀ f, ¬ Q f) :
    Exactly (fun f => Undrawn settings measurer s frame o f ∨ Entered settings s frame o ∧ Q f)
      (paintObject inner settings measurer s frame outer o) := by
  have hshown : Shown o frame := fun b cs info e heq => (hno b cs info e heq).elim
  unfold paintObject
  split
  · exact (hno _ _ _ _ rfl).elim
  simp only [pure_bind, Bool.not_true, Bool.false_eq_true, if_false]
  refine exactly_shown hmeasurer hshown hshaped houter (returns_pure _) fun p hp _ hsize => ?_
  refine (exactly_item _ (hp.drawn (by decide))).congr fun f => ?_
  simp [Unlayered, hkind, hsize, hleaf f]

/-- A group is drawn as its children are, unless it is hidden. -/
theorem exactly_paintObject_group {Q : Fault → Prop} {inner : Painter R} {outer : Surroundings R}
    {b : Base R} {cs : List (Object R)} {info : GroupInfo R} {e : Members R}
    (hmeasurer : ∀ t, Returns (measurer t))
    (hshaped : ∀ props, propsAt settings s (.group b cs info e) frame = .ok props →
      Shaped "group" props)
    (houter : outer.IsReal)
    (hinner : ∀ outer : Surroundings R, outer.IsReal → Exactly Q (inner cs outer)) :
    Exactly (fun f => Undrawn settings measurer s frame (.group b cs info e) f ∨
        Entered settings s frame (.group b cs info e) ∧ Q f)
      (paintObject inner settings measurer s frame outer (.group b cs info e)) := by
  rw [paintObject]
  cases hvisible : isVisible info frame with
  | error fault => exact .error (.inl (.window rfl hvisible))
  | ok visible =>
    have hshown : Shown (.group b cs info e) frame ↔ visible = true := by
      refine ⟨fun h => Except.ok.inj (hvisible.symm.trans (h b cs info e rfl)), ?_⟩
      rintro rfl _ _ _ _ heq
      cases heq
      exact hvisible
    cases visible with
    | false =>
      have hhidden : ¬ Shown (.group b cs info e) frame := by simp [hshown]
      refine .of_returns (returns_pure _) fun f hf => ?_
      rcases hf with h | h
      · cases h with
        | window ho h =>
          cases ho
          cases h.symm.trans hvisible
        | sampled h | misfit h | strain h => exact hhidden h
      · exact hhidden h.1.1
    | true =>
      simp only [ok_bind, Bool.not_true, Bool.false_eq_true, if_false]
      refine exactly_shown hmeasurer (hshown.mpr rfl) hshaped houter (returns_pure _)
        fun p _ hreal _ => (hinner p.inner hreal).congr fun f => ?_
      simp [Unlayered, Object.kind]

/-- One object is drawn, with what is inside it, unless it keeps the frame from being drawn or
something inside it does. -/
theorem exactly_paintObject {Q : Fault → Prop} {inner : Painter R} {outer : Surroundings R}
    (hmeasurer : ∀ t, Returns (measurer t))
    (hshaped : ∀ props, propsAt settings s o frame = .ok props → Shaped o.kind props)
    (houter : outer.IsReal)
    (hinner : ∀ outer : Surroundings R, outer.IsReal → Exactly Q (inner o.children outer))
    (hleaf : o.children = [] → ∀ f, ¬ Q f) :
    Exactly (fun f => Undrawn settings measurer s frame o f ∨ Entered settings s frame o ∧ Q f)
      (paintObject inner settings measurer s frame outer o) := by
  cases o with
  | group b cs info e => exact exactly_paintObject_group hmeasurer hshaped houter hinner
  | shape b s e =>
    refine exactly_paintObject_single hmeasurer hshaped houter (fun _ _ _ _ heq => by cases heq) ?_
      (hleaf rfl)
    cases s <;> simp [Object.kind, Shape.kind]
  | reference b r e =>
    refine exactly_paintObject_single hmeasurer hshaped houter (fun _ _ _ _ heq => by cases heq) ?_
      (hleaf rfl)
    obtain ⟨kind, _⟩ := r
    cases kind <;> simp [Object.kind, ReferenceKind.name]

/-- A tree is drawn unless an object that drawing looks at keeps it from being drawn. -/
theorem exactly_paint (hmeasurer : ∀ t, Returns (measurer t)) {depth : Nat}
    (hdepth : depthOfAll objects ≤ depth)
    (hshaped : ∀ o ∈ Address.walk objects, ∀ props, propsAt settings s o frame = .ok props →
      Shaped o.kind props) {outer : Surroundings R} (houter : outer.IsReal) :
    Exactly (fun f => ∃ o, Reached settings s frame objects o ∧
      Undrawn settings measurer s frame o f)
      (paint settings measurer s frame depth objects outer) := by
  induction depth generalizing objects outer with
  | zero =>
    obtain rfl : objects = [] := by
      by_contra hne
      obtain ⟨o, ho⟩ := List.exists_mem_of_ne_nil _ hne
      exact absurd (depthOfAll_children_lt ho) (by omega)
    refine .of_returns (returns_ok _) fun f hf => ?_
    obtain ⟨o, hreached, -⟩ := hf
    simpa [Address.walk] using hreached.mem_walk
  | succ depth ih =>
    refine ((Exactly.mapM (P := fun o f => Undrawn settings measurer s frame o f ∨
      Entered settings s frame o ∧ ∃ o', Reached settings s frame o.children o' ∧
        Undrawn settings measurer s frame o' f) fun o ho => ?_).bind_total
          fun _ _ => returns_pure _).congr fun f => ?_
    · have ho := mem_paintOrder.mp ho
      have hlt := depthOfAll_children_lt ho
      refine exactly_paintObject hmeasurer (hshaped o (Address.mem_walk ho)) houter ?_ ?_
      · exact fun outer houter => ih (by omega)
          (fun o' ho' => hshaped o' ((Address.walk_children_sublist ho).subset ho')) houter
      · intro hleaf f hf
        obtain ⟨o', hreached, -⟩ := hf
        rw [hleaf] at hreached
        simpa [Address.walk] using hreached.mem_walk
    · constructor
      · rintro ⟨o, ho, h | ⟨hentered, o', hreached, h⟩⟩
        · exact ⟨o, .here (mem_paintOrder.mp ho), h⟩
        · exact ⟨o', .inside (mem_paintOrder.mp ho) hentered hreached, h⟩
      · rintro ⟨o, hreached, h⟩
        cases hreached with
        | here ho => exact ⟨o, mem_paintOrder.mpr ho, .inl h⟩
        | inside hparent hentered hreached =>
          exact ⟨_, mem_paintOrder.mpr hparent, .inr ⟨hentered, o, hreached, h⟩⟩

/-- At a frame there is a list of what is drawn, or there is none because of an object that drawing
looks at. -/
theorem exactly_compose (hmeasurer : ∀ t, Returns (measurer t))
    (hshaped : ∀ o ∈ Address.walk objects, ∀ props, propsAt settings s o frame = .ok props →
      Shaped o.kind props) :
    Exactly (fun f => ∃ o, Reached settings s frame objects o ∧
      Undrawn settings measurer s frame o f) (compose settings measurer s objects frame) :=
  exactly_paint hmeasurer (Nat.le_succ _) hshaped Surroundings.isReal_outermost

end

end Storyboard.Composition
