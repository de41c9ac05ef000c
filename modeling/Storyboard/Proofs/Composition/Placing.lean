import Storyboard.Proofs.AffineRanges
import Storyboard.Proofs.Composition.Values

namespace Storyboard

open Outcome

variable {R : Type} [Scalar R]

theorem Anchor.returns_offset (a : Anchor) (width height : R) :
    Returns (a.offset (.real width) (.real height)) := by
  rw [Anchor.offset]
  exact (Number.returns_lift ⟨_, rfl⟩ ⟨_, rfl⟩).bind fun x hx =>
    (Number.returns_lift ⟨_, rfl⟩ ⟨_, rfl⟩).bind fun y hy =>
      (Number.returns_toReal.mpr (Number.isReal_lift_left ⟨_, rfl⟩ hx).not_far).bind fun _ _ =>
        (Number.returns_toReal.mpr (Number.isReal_lift_left ⟨_, rfl⟩ hy).not_far).bind fun _ _ =>
          returns_pure _

namespace Composition

variable {kind : String} {props : Members R}

/-- A text stands under a name. -/
def HasText (props : Members R) (name : String) : Prop :=
  ∃ s, Members.get? name props = some (.str s)

/-- Nothing stands under a name, or a number or a text. -/
def Simple (props : Members R) (name : String) : Prop :=
  ∀ j, Members.get? name props = some j → ∃ q, j = .ofQuantity q

omit [Scalar R] in
theorem Simple.cases {name : String} (h : Simple props name) :
    Members.get? name props = none ∨ (∃ n, Members.get? name props = some (.num n)) ∨
      ∃ s, Members.get? name props = some (.str s) := by
  cases hget : Members.get? name props with
  | none => exact .inl rfl
  | some j =>
    obtain ⟨q, rfl⟩ := h j hget
    cases q with
    | number n => exact .inr (.inl ⟨n, rfl⟩)
    | text s => exact .inr (.inr ⟨s, rfl⟩)

/-- The values of an object of a kind, as far as drawing depends on what keyframes hold: numbers or
texts under the names of numbers, and a clip with such parts. -/
structure Shaped (kind : String) (props : Members R) : Prop where
  simple : ∀ name ∈ drawnNames ++ lengthNames kind, Simple props name
  anchor : ∀ j, Members.get? "anchor" props = some j → ∃ s, j = .str s
  clip : ∀ j, Members.get? "clip" props = some j →
    ∃ ms, j = .obj ms ∧ Simple ms "x" ∧ Simple ms "y"

omit [Scalar R] in
theorem Shaped.drawn (h : Shaped kind props) {name : String} (hname : name ∈ drawnNames) :
    Simple props name :=
  h.simple name (List.mem_append_left _ hname)

omit [Scalar R] in
theorem Shaped.scales (h : Shaped kind props) :
    ∀ name ∈ ["scale", "scaleX", "scaleY"], Simple props name := fun _ hname =>
  h.drawn (List.mem_append_left ["x", "y", "rotation", "opacity", "blur"] hname)

omit [Scalar R] in
theorem Shaped.side (h : Shaped kind props) {ms : Members R}
    (hms : Members.get? "clip" props = some (.obj ms)) {name : String} (hname : name ∈ ["x", "y"]) :
    Simple ms name := by
  obtain ⟨_, hsame, hx, hy⟩ := h.clip _ hms
  cases hsame
  rcases List.mem_pair.mp hname with rfl | rfl
  · exact hx
  · exact hy

omit [Scalar R] in
theorem Sourced.simple {tracks : List (Track R)} {o : Object R} {property : String}
    {j : Json R} (h : Sourced tracks o property j) : ∃ q, j = .ofQuantity q := by
  obtain ⟨id, k, q, -, -, -, rfl⟩ := h
  exact ⟨q, rfl⟩

omit [Scalar R] in
theorem Values.shaped {tracks : List (Track R)} {o : Object R} (h : Values tracks o props) :
    Shaped o.kind props where
  simple name hname j hj := by
    rcases h.number _ (Members.mem_of_get? hj) hname with ⟨n, hn⟩ | hsourced
    · exact ⟨.number n, hn⟩
    · exact hsourced.simple
  anchor j hj := h.anchor _ (Members.mem_of_get? hj) rfl
  clip j hj := by
    obtain ⟨ms, rfl, hms⟩ := h.clip _ (Members.mem_of_get? hj) rfl
    have hside {name : String} (hname : name = "x" ∨ name = "y") : Simple ms name := by
      intro v hv
      rcases hms _ (Members.mem_of_get? hv) hname with ⟨c, q, -, -, hq⟩ | hsourced
      · exact ⟨q, hq⟩
      · exact hsourced.simple
    exact ⟨ms, rfl, hside (.inl rfl), hside (.inr rfl)⟩

/-- What an object is placed by, beside its scales. -/
def placeNames : List String := ["x", "y", "rotation"]

theorem placeNames_drawn : ∀ name ∈ placeNames, name ∈ drawnNames := by decide

/-- A number, or what stands for it where there is none, is beyond the range of scalars. -/
def Beyond (default : Number R) (name : String) (props : Members R) : Prop :=
  ∃ n, numberOr default name props = .ok n ∧ n.Far

/-- A value that is used as a scalar is refused if it is a text, or a number beyond their range. -/
theorem scalarOr_eq_error {name : String} (h : Simple props name) {default : Number R} {f : Fault} :
    (numberOr default name props >>= Number.toReal) = .error f ↔
      HasText props name ∧ f = .numeric .operand ∨
        Beyond default name props ∧ f = .numeric .overflow := by
  rw [numberOr, HasText, Beyond, numberOr]
  rcases h.cases with hget | ⟨n, hget⟩ | ⟨s, hget⟩
  · simp [hget, Number.toReal_eq_error]
  · simp [hget, Number.toReal_eq_error]
  · simp [hget, numericFault, bind_eq_error, @eq_comm _ f]

/-- A scale that is zero or below. -/
def Flat (props : Members R) (name : String) : Prop :=
  ∃ n, Members.get? name props = some (.num n) ∧ isFlat n = true

/-- The scales are numbers, and none of them leaves nothing to draw. -/
def Solid (props : Members R) : Prop :=
  ∀ name ∈ ["scale", "scaleX", "scaleY"], ¬ HasText props name ∧ ¬ Flat props name

/-- The scales are numbers, as far as none before them leaves nothing to draw. -/
def Scaled (props : Members R) : Prop :=
  ¬ HasText props "scale" ∧ (¬ Flat props "scale" →
    ¬ HasText props "scaleX" ∧ (¬ Flat props "scaleX" → ¬ HasText props "scaleY"))

theorem scale_cases {name : String} (h : Simple props name) :
    (HasText props name ∧ ¬ Flat props name ∧
        numberOr (.int 1) name props = .error (.numeric .operand)) ∨
      ¬ HasText props name ∧ ∃ n, numberOr (.int 1) name props = .ok n ∧
        (isFlat n = true ↔ Flat props name) := by
  rw [HasText, Flat, numberOr]
  rcases h.cases with hget | ⟨n, hget⟩ | ⟨s, hget⟩
  · have hone : isFlat (.int 1 : Number R) = false := rfl
    exact .inr ⟨by simp [hget], .int 1, by simp [hget], by simp [hget, hone]⟩
  · exact .inr ⟨by simp [hget], n, by simp [hget], by simp [hget]⟩
  · exact .inl (by simp [hget, numericFault])

/-- What becomes of the scales of an object. -/
theorem scales_cases (h : ∀ name ∈ ["scale", "scaleX", "scaleY"], Simple props name) :
    (¬ Scaled props ∧ ¬ Solid props ∧ scales props = .error (.numeric .operand)) ∨
      (Scaled props ∧ ¬ Solid props ∧ scales props = .ok none) ∨
      Scaled props ∧ Solid props ∧ ∃ found, scales props = .ok (some found) := by
  have hsolid : Solid props ↔ (¬ HasText props "scale" ∧ ¬ Flat props "scale") ∧
      (¬ HasText props "scaleX" ∧ ¬ Flat props "scaleX") ∧
      ¬ HasText props "scaleY" ∧ ¬ Flat props "scaleY" := by
    simp [Solid]
  rw [hsolid, scales, Scaled]
  rcases scale_cases (h "scale" (by decide)) with ⟨htext, -, hfails⟩ | ⟨htext, n, hn, hflat⟩
  · exact .inl ⟨fun hs => hs.1 htext, fun hs => hs.1.1 htext, by rw [hfails]; rfl⟩
  rw [hn, ok_bind]
  by_cases hs : Flat props "scale"
  · simp [hflat.mpr hs, hs, htext]
  rw [if_neg (mt hflat.mp hs)]
  rcases scale_cases (h "scaleX" (by decide)) with ⟨htextX, -, hfails⟩ | ⟨htextX, n, hn, hflatX⟩
  · exact .inl ⟨fun hall => (hall.2 hs).1 htextX, fun hall => hall.2.1.1 htextX,
      by rw [hfails]; rfl⟩
  rw [hn, ok_bind]
  by_cases hsX : Flat props "scaleX"
  · simp [hflatX.mpr hsX, hsX, hs, htext, htextX]
  rw [if_neg (mt hflatX.mp hsX)]
  rcases scale_cases (h "scaleY" (by decide)) with ⟨htextY, -, hfails⟩ | ⟨htextY, n, hn, hflatY⟩
  · exact .inl ⟨fun hall => (hall.2 hs).2 hsX htextY, fun hall => hall.2.2.1 htextY,
      by rw [hfails]; rfl⟩
  rw [hn, ok_bind]
  by_cases hsY : Flat props "scaleY"
  · simp [hflatY.mpr hsY, hsY, hs, hsX, htext, htextX, htextY]
  · simp [mt hflatY.mp hsY, hsY, hs, hsX, htext, htextX, htextY]

theorem scales_of_not_scaled (h : ∀ name ∈ ["scale", "scaleX", "scaleY"], Simple props name)
    (hscaled : ¬ Scaled props) : scales props = .error (.numeric .operand) := by
  rcases scales_cases h with ⟨-, -, hfails⟩ | ⟨hs, -, -⟩ | ⟨hs, -, -⟩
  · exact hfails
  · exact absurd hs hscaled
  · exact absurd hs hscaled

theorem scales_of_solid (h : ∀ name ∈ ["scale", "scaleX", "scaleY"], Simple props name)
    (hsolid : Solid props) : ∃ scale scaleX scaleY,
      scales props = .ok (some (scale, scaleX, scaleY)) := by
  rcases scales_cases h with ⟨-, hs, -⟩ | ⟨-, hs, -⟩ | ⟨-, -, ⟨scale, scaleX, scaleY⟩, hfound⟩
  · exact absurd hsolid hs
  · exact absurd hsolid hs
  · exact ⟨scale, scaleX, scaleY, hfound⟩

/-- A length that an object of a kind is measured by is refused as a scalar. The size of a text may
be left empty. -/
def Unmeasured (kind : String) (props : Members R) (f : Fault) : Prop :=
  ∃ name ∈ lengthNames kind, ∃ j, Members.get? name props = some j ∧
    (kind = "text" → j.isFilled = true) ∧ j.toReal = .error f

/-- The size of texts is needed, and it is out of range. -/
def Unsized (settings : Settings R) (kind : String) (props : Members R) : Prop :=
  kind = "text" ∧ ((Members.get? "size" props).getD .null).isFilled = false ∧
    settings.textSize.Far

theorem exactly_lengthOr {name : String} (h : Simple props name) (default : R) :
    Exactly (fun f => ∃ j, Members.get? name props = some j ∧ j.toReal = .error f)
      (lengthOr default name props) := by
  rw [lengthOr]
  rcases h.cases with hget | ⟨n, hget⟩ | ⟨s, hget⟩
  · exact .of_returns (by simp [hget]) fun f hf => by simp [hget] at hf
  · rw [hget]
    exact (Exactly.self (Json.num n).toReal).congr fun f => by simp
  · rw [hget]
    exact (Exactly.self (Json.str s : Json R).toReal).congr fun f => by simp

/-- An object that is no text may be measured by two lengths. -/
theorem exactly_lengths (settings : Settings R) (h : ∀ name ∈ lengthNames kind, Simple props name)
    {first second : String} (hnames : lengthNames kind = [first, second]) (hkind : kind ≠ "text")
    (default : R) (size : R → R → Size R) :
    Exactly (fun f => Unmeasured kind props f ∨
      Unsized settings kind props ∧ f = .numeric .overflow) (do
        let a ← lengthOr default first props
        let b ← lengthOr default second props
        return size a b) := by
  refine ((exactly_lengthOr (h first (by simp [hnames])) _).bind fun _ _ =>
    (exactly_lengthOr (h second (by simp [hnames])) _).bind_total fun _ _ =>
      returns_pure _).congr fun f => ?_
  simp [Unmeasured, Unsized, hnames, hkind]

theorem exactly_textMeasure (settings : Settings R) {measurer : Measurer R}
    (hmeasurer : ∀ t, Returns (measurer t)) :
    Exactly (fun f => Unmeasured "text" props f ∨
      Unsized settings "text" props ∧ f = .numeric .overflow)
      (measure settings measurer "text" props) := by
  rw [measure]
  cases hfilled : ((Members.get? "size" props).getD .null).isFilled with
  | false =>
    simp only [Bool.false_eq_true, if_false]
    refine (settings.textSize.exactly_toReal.bind_total fun _ _ => hmeasurer _).congr fun f => ?_
    cases hget : Members.get? "size" props with
    | none => simp [Unmeasured, Unsized, lengthNames, hget, Json.isFilled]
    | some j =>
      rw [hget, Option.getD_some] at hfilled
      simp [Unmeasured, Unsized, lengthNames, hget, hfilled]
  | true =>
    simp only [if_true]
    refine ((Exactly.self _).bind_total fun _ _ => hmeasurer _).congr fun f => ?_
    cases hget : Members.get? "size" props with
    | none =>
      rw [hget] at hfilled
      cases hfilled
    | some j =>
      rw [hget, Option.getD_some] at hfilled
      simp [Unmeasured, Unsized, lengthNames, hget, hfilled]

theorem exactly_measure (settings : Settings R) {measurer : Measurer R}
    (hmeasurer : ∀ t, Returns (measurer t))
    (h : ∀ name ∈ lengthNames kind, Simple props name) :
    Exactly (fun f => Unmeasured kind props f ∨
      Unsized settings kind props ∧ f = .numeric .overflow)
      (measure settings measurer kind props) := by
  by_cases htext : kind = "text"
  · rw [htext]
    exact exactly_textMeasure settings hmeasurer
  unfold measure
  split
  · exact exactly_lengths settings h rfl htext _ _
  · exact exactly_lengths settings h rfl htext _ _
  · exact absurd rfl htext
  · refine ((exactly_lengthOr (h "radius" (by decide)) _).bind_total fun _ _ =>
      returns_pure _).congr fun f => ?_
    simp [Unmeasured, Unsized, lengthNames]
  · exact exactly_lengths settings h rfl htext _ _
  · have hnames : lengthNames kind = [] := by
      unfold lengthNames
      split <;> simp_all
    refine .of_returns (returns_ok _) fun f hf => ?_
    simp_all [Unmeasured, Unsized]

/-- A place of a clip is a text, or a number beyond the range of scalars. -/
def Unclipped (props : Members R) (f : Fault) : Prop :=
  ∃ ms, Members.get? "clip" props = some (.obj ms) ∧ ∃ name ∈ ["x", "y"], ms ≠ [] ∧
    (numberOr (.int 0) name ms >>= Number.toReal) = .error f

theorem exactly_clipRect (clip : Members R) (size : Size R) (offset : R × R)
    (transform : Affine R) :
    Exactly (fun f => ∃ name ∈ ["x", "y"],
      (numberOr (.int 0) name clip >>= Number.toReal) = .error f)
      (clipRect clip size offset transform) := by
  have h : Exactly (fun f => (numberOr (.int 0) "x" clip >>= Number.toReal) = .error f ∨
      (numberOr (.int 0) "y" clip >>= Number.toReal) = .error f ∨ False)
      (clipRect clip size offset transform) := by
    refine Number.exactly_bind_toReal fun x hx => ?_
    refine (Number.exactly_lift_right x ⟨_, rfl⟩).bind fun _ _ => ?_
    refine Number.exactly_bind_toReal fun y hy => ?_
    refine ((Number.exactly_lift_right y ⟨_, rfl⟩).bind_total fun _ _ => returns_pure _).congr ?_
    exact fun f => (or_false _).symm ▸ Iff.rfl
  exact h.congr fun f => by simp

theorem exactly_ownClip (h : Shaped kind props) (size : Size R) (offset : R × R)
    (transform : Affine R) :
    Exactly (Unclipped props) (ownClip props size offset transform) := by
  rw [ownClip]
  cases hget : Members.get? "clip" props with
  | none => exact .of_returns (returns_pure _) fun f hf => by simp [Unclipped, hget] at hf
  | some j =>
    obtain ⟨ms, rfl, -, -⟩ := h.clip j hget
    cases ms with
    | nil => exact .of_returns (returns_pure _) fun f hf => by simp [Unclipped, hget] at hf
    | cons m ms =>
      refine ((exactly_clipRect (m :: ms) size offset transform).bind_total
        fun _ _ => returns_pure _).congr fun f => ?_
      simp [Unclipped, hget]

/-- A blur radius is a text that is not empty. -/
def Unblurred (props : Members R) : Prop :=
  ∃ s, Members.get? "blur" props = some (.str s) ∧ s ≠ ""

/-- The surface for a blur cannot be laid out. -/
def Overblown (props : Members R) (size : Size R) (f : Fault) : Prop :=
  ∃ n, numberOr (.int 0) "blur" props = .ok n ∧ (Number.int 0).lt n = true ∧
    BlurLayer.around n (.real size.width) (.real size.height) = .error f

theorem exactly_blurOf (h : Simple props "blur") (size : Size R) :
    Exactly (fun f => Unblurred props ∧ f = .numeric .operand ∨ Overblown props size f)
      (blurOf props size) := by
  rw [blurOf]
  rcases h.cases with hget | ⟨n, hget⟩ | ⟨s, hget⟩
  · have hzero : (Json.int 0 : Json R).isFilled = false := rfl
    have hstill : (Number.int 0 : Number R).lt (.int 0) = false := Exact.lt_irrefl _
    refine .of_returns (by simp [hget, hzero]) fun f hf => ?_
    simp [Unblurred, Overblown, numberOr, hget, hstill] at hf
  · have hn : numberOr (.int 0) "blur" props = .ok n := by rw [numberOr, hget]
    have hfault (f : Fault) : Unblurred props ∧ f = .numeric .operand ∨ Overblown props size f ↔
        (Number.int 0).lt n = true ∧
          BlurLayer.around n (.real size.width) (.real size.height) = .error f := by
      simp [Unblurred, Overblown, hget, hn]
    refine Exactly.congr ?_ fun f => (hfault f).symm
    rw [hget, Option.getD_some, hn, ok_bind, Json.isFilled]
    cases hpositive : (Number.int 0).lt n with
    | false => exact .of_returns (by simp) fun f hf => by simp at hf
    | true =>
      rw [Number.isZero_of_lt hpositive]
      exact ((Exactly.self _).bind_total fun _ _ => returns_pure _).congr fun f => by simp
  · by_cases hs : s = ""
    · refine .of_returns (by simp [hget, Json.isFilled, hs]) fun f hf => ?_
      simp [Unblurred, Overblown, numberOr, hget, hs] at hf
    · have hn : numberOr (.int 0) "blur" props = .error (.numeric .operand) := by
        rw [numberOr, hget]
        rfl
      rw [hget, Option.getD_some, hn, Json.isFilled, bne_iff_ne.mpr hs]
      exact .error (.inl ⟨⟨s, hget, hs⟩, rfl⟩)

section

variable [Trig R]

/-- The map of an object cannot be found: for a value of its place or its angle, or for the product
of two of its scales. -/
def Misplaced (props : Members R) (scale scaleX scaleY : Number R) (f : Fault) : Prop :=
  (∃ name ∈ placeNames, (numberOr (.int 0) name props >>= Number.toReal) = .error f) ∨
    (∃ factor ∈ [scaleX, scaleY], (scale.mul factor >>= Number.toReal) = .error f) ∨
    (∃ n, numberOr (.int 0) "rotation" props = .ok n ∧ Affine.Endless n) ∧ f = .numeric .value

theorem exactly_turn {m : Affine R} (hm : m.IsReal) (props : Members R) :
    Exactly (fun f => (numberOr (.int 0) "rotation" props >>= Number.toReal) = .error f ∨
        (∃ n, numberOr (.int 0) "rotation" props = .ok n ∧ Affine.Endless n) ∧ f = .numeric .value)
      (numberOr (.int 0) "rotation" props >>= fun degrees => m.rotate degrees) := by
  refine Number.exactly_bind_toReal fun n hn => (Affine.exactly_rotate hm n).congr fun f => ?_
  simp [hn]

theorem exactly_place {parent : Affine R} (hparent : parent.IsReal) (props : Members R)
    (scale scaleX scaleY : Number R) :
    Exactly (Misplaced props scale scaleX scaleY) (place parent props scale scaleX scaleY) := by
  have h : Exactly (fun f =>
      (numberOr (.int 0) "x" props >>= Number.toReal) = .error f ∨
      (numberOr (.int 0) "y" props >>= Number.toReal) = .error f ∨
      (scale.mul scaleX >>= Number.toReal) = .error f ∨
      (scale.mul scaleY >>= Number.toReal) = .error f ∨
      (numberOr (.int 0) "rotation" props >>= Number.toReal) = .error f ∨
      (∃ n, numberOr (.int 0) "rotation" props = .ok n ∧ Affine.Endless n) ∧ f = .numeric .value)
      (place parent props scale scaleX scaleY) := by
    refine Number.exactly_bind_toReal fun x hx => ?_
    refine x.exactly_toReal.bind fun _ hreal => Number.exactly_bind_toReal fun y hy => ?_
    have hnear : ¬ x.Far := Number.returns_toReal.mp ⟨_, hreal⟩
    have hmoves := (Affine.exactly_translate hparent x y).congr
      (Q := fun f => y.Far ∧ f = .numeric .overflow) fun f => by simp [hnear]
    refine hmoves.bind fun moved hmoved => Number.exactly_bind_toReal fun sx _ => ?_
    have hmoved := Affine.isReal_multiply hparent hmoved
    -- The first factor is not looked at before the second one is there.
    refine Exactly.congr (Number.exactly_bind_toReal (Q := fun f =>
      sx.Far ∧ f = .numeric .overflow ∨ _) fun sy _ => ?_) fun f => or_left_comm
    refine (((Affine.exactly_scale hmoved sx sy).congr fun f => or_and_right).bind
      fun scaled hscaled => exactly_turn (Affine.isReal_multiply hmoved hscaled) props).congr ?_
    exact fun f => (or_congr_left or_comm).trans or_assoc
  refine h.congr fun f => ?_
  simp only [Misplaced, placeNames, List.exists_mem_cons_iff, List.not_mem_nil, false_and,
    exists_false, or_false, or_assoc]
  tauto

theorem isReal_place {parent transform : Affine R} (hparent : parent.IsReal)
    {scale scaleX scaleY : Number R} (h : place parent props scale scaleX scaleY = .ok transform) :
    transform.IsReal := by
  obtain ⟨x, -, h⟩ := bind_eq_ok.mp h
  obtain ⟨_, -, h⟩ := bind_eq_ok.mp h
  obtain ⟨y, -, h⟩ := bind_eq_ok.mp h
  obtain ⟨moved, hmoved, h⟩ := bind_eq_ok.mp h
  obtain ⟨sx, -, h⟩ := bind_eq_ok.mp h
  obtain ⟨sy, -, h⟩ := bind_eq_ok.mp h
  obtain ⟨scaled, hscaled, h⟩ := bind_eq_ok.mp h
  obtain ⟨degrees, -, h⟩ := bind_eq_ok.mp h
  exact Affine.isReal_rotate
    (Affine.isReal_multiply (Affine.isReal_multiply hparent hmoved) hscaled) h

/-- What an object hands down is a map and an opacity made of scalars. -/
structure Surroundings.IsReal (s : Surroundings R) : Prop where
  transform : s.transform.IsReal
  opacity : s.opacity.IsReal

omit [Trig R] in
theorem Surroundings.isReal_outermost : (outermost : Surroundings R).IsReal :=
  ⟨Affine.isReal_identity, Affine.isReal_one⟩

variable {settings : Settings R} {measurer : Measurer R} {outer : Surroundings R}

/-- What is known of an object that has a place. -/
theorem placement_eq_some (houter : outer.IsReal) {p : Placement R}
    (h : placement settings measurer kind props outer = .ok (some p)) :
    p.props = props ∧ p.inner.IsReal ∧ measure settings measurer kind props = .ok p.size ∧
      ∃ found, scales props = .ok (some found) := by
  obtain ⟨found, hfound, h⟩ := bind_eq_ok.mp h
  obtain _ | ⟨scale, scaleX, scaleY⟩ := found
  · cases h
  obtain ⟨transform, htransform, h⟩ := bind_eq_ok.mp h
  obtain ⟨number, -, h⟩ := bind_eq_ok.mp h
  obtain ⟨opacity, hopacity, h⟩ := bind_eq_ok.mp h
  obtain ⟨size, hsize, h⟩ := bind_eq_ok.mp h
  obtain ⟨anchor, -, h⟩ := bind_eq_ok.mp h
  obtain ⟨offset, -, h⟩ := bind_eq_ok.mp h
  obtain ⟨clips, -, h⟩ := bind_eq_ok.mp h
  obtain rfl := Option.some.inj (pure_eq_ok.mp h)
  exact ⟨rfl, ⟨isReal_place houter.transform htransform,
    Number.isReal_lift_left houter.opacity hopacity⟩, hsize, _, hfound⟩

theorem placement_eq_none (h : placement settings measurer kind props outer = .ok none) :
    scales props = .ok none := by
  obtain ⟨found, hfound, h⟩ := bind_eq_ok.mp h
  obtain _ | ⟨scale, scaleX, scaleY⟩ := found
  · exact hfound
  obtain ⟨transform, -, h⟩ := bind_eq_ok.mp h
  obtain ⟨number, -, h⟩ := bind_eq_ok.mp h
  obtain ⟨opacity, -, h⟩ := bind_eq_ok.mp h
  obtain ⟨size, -, h⟩ := bind_eq_ok.mp h
  obtain ⟨anchor, -, h⟩ := bind_eq_ok.mp h
  obtain ⟨offset, -, h⟩ := bind_eq_ok.mp h
  obtain ⟨clips, -, h⟩ := bind_eq_ok.mp h
  cases h

/-- An object has no place, size and clip. -/
def Unplaced (settings : Settings R) (kind : String) (props : Members R) (f : Fault) : Prop :=
  scales props = .error f ∨ ∃ scale scaleX scaleY,
    scales props = .ok (some (scale, scaleX, scaleY)) ∧
      (Misplaced props scale scaleX scaleY f ∨
        (numberOr (.int 1) "opacity" props >>= Number.toReal) = .error f ∨
        (Unmeasured kind props f ∨ Unsized settings kind props ∧ f = .numeric .overflow) ∨
        Unclipped props f)

omit [Scalar R] [Trig R] in
theorem returns_ofProperty (h : Shaped kind props) :
    Returns (Anchor.ofProperty (Members.get? "anchor" props)) := by
  cases hget : Members.get? "anchor" props with
  | none => exact returns_ok _
  | some j =>
    obtain ⟨s, rfl⟩ := h.anchor j hget
    exact returns_ok _

theorem exactly_placement (hmeasurer : ∀ t, Returns (measurer t)) (h : Shaped kind props)
    (houter : outer.IsReal) :
    Exactly (Unplaced settings kind props) (placement settings measurer kind props outer) := by
  refine (Exactly.self (scales props)).bind fun found hfound => ?_
  obtain _ | ⟨scale, scaleX, scaleY⟩ := found
  · exact .of_returns (returns_pure _) fun f hf => by simp [hfound] at hf
  refine Exactly.congr (P := fun f => Misplaced props scale scaleX scaleY f ∨
    (numberOr (.int 1) "opacity" props >>= Number.toReal) = .error f ∨
    (Unmeasured kind props f ∨ Unsized settings kind props ∧ f = .numeric .overflow) ∨
    Unclipped props f) ?_ fun f => by simp [hfound]
  refine (exactly_place houter.transform props scale scaleX scaleY).bind fun transform _ => ?_
  refine Number.exactly_bind_toReal fun number _ => ?_
  refine (Number.exactly_lift_left houter.opacity number).bind fun opacity _ => ?_
  have hmeasure := exactly_measure settings hmeasurer fun name hname =>
    h.simple name (List.mem_append_right _ hname)
  refine hmeasure.bind fun size _ => .bind_of (returns_ofProperty h) fun anchor _ => ?_
  refine .bind_of (anchor.returns_offset _ _) fun offset _ => ?_
  exact (exactly_ownClip h size offset transform).bind_total fun _ _ => returns_pure _

/-- What follows on an object that has a place. -/
theorem exactly_placed {α : Type} {Q : Fault → Prop} {rest : Option (Placement R) → Outcome α}
    (hmeasurer : ∀ t, Returns (measurer t)) (h : Shaped kind props) (houter : outer.IsReal)
    (hnone : Returns (rest none)) (hsome : ∀ p : Placement R, p.props = props → p.inner.IsReal →
      measure settings measurer kind props = .ok p.size → Exactly Q (rest (some p))) :
    Exactly (fun f => Unplaced settings kind props f ∨ Solid props ∧ Q f)
      (placement settings measurer kind props outer >>= rest) := by
  refine (exactly_placement hmeasurer h houter).bind fun found hfound => ?_
  have hscales := scales_cases h.scales
  cases found with
  | none =>
    refine .of_returns hnone fun f hf => ?_
    have hflat := placement_eq_none hfound
    rcases hscales with ⟨-, hsolid, -⟩ | ⟨-, hsolid, -⟩ | ⟨-, -, found, hsome⟩
    · exact hsolid hf.1
    · exact hsolid hf.1
    · cases hsome.symm.trans hflat
  | some p =>
    obtain ⟨hprops, hreal, hsize, found, hscaled⟩ := placement_eq_some houter hfound
    refine (hsome p hprops hreal hsize).congr fun f => (and_iff_right ?_).symm
    rcases hscales with ⟨-, -, hfails⟩ | ⟨-, -, hflat⟩ | ⟨-, hsolid, -⟩
    · cases hfails.symm.trans hscaled
    · cases hflat.symm.trans hscaled
    · exact hsolid

end

end Composition

end Storyboard
