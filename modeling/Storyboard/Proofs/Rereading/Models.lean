import Storyboard.Proofs.Rereading.Documents

namespace Storyboard

variable {R : Type}

open Codec Fields

namespace Model

def Value (R : Type) : Model → Type
  | plain => Members R
  | keyframe => Keyframe R
  | track => Track R
  | effectUse => EffectUse R
  | effectKeyframe => EffectKeyframe R
  | effect => Effect R
  | transition => Transition R
  | groupTransition => GroupTransition R
  | clip => Clip R
  | base => Base R × Members R
  | text | image | rect | line | point | circle | ellipse | path | group | componentReference
  | sceneReference => Object R
  | moveTo | lineTo => Position R × Members R
  | closePath => Unit × Members R
  | quadraticCurve => QuadraticCurve R × Members R
  | bezierCurve => BezierCurve R × Members R
  | arc => Arc R × Members R
  | tangentArc => TangentArc R × Members R
  | parameter => Parameter R
  | component => Component R
  | scene => Scene R
  | project => Project R
  | document => Document R
  | timeline => Timeline R

variable [Scalar R]

/-- What every object can declare, as a record of its own. -/
def baseCodec : Codec R (Base R × Members R) :=
  ((fun b e => (b, e)) <$> Base.fields.within Prod.fst <*> Fields.rest Prod.snd).record

/-- Objects of one kind outside of any document and list. -/
def objectCodec (kind : String) : Codec R (Object R) where
  read j :=
    match Object.readKind? Object.alone kind with
    | some readIt => readIt j
    | none => Checked.fail .tagUnknown
  write := Object.write

def codec : (m : Model) → Codec R (m.Value R)
  | plain => (Fields.rest id).record
  | keyframe => Keyframe.codec
  | track => Track.codec
  | effectUse => EffectUse.codec
  | effectKeyframe => EffectKeyframe.codec
  | effect => Effect.codec
  | transition => Transition.codec
  | groupTransition => GroupTransition.codec Object.maxLevels
  | clip => Clip.codec
  | base => baseCodec
  | text => objectCodec "text"
  | image => objectCodec "image"
  | rect => objectCodec "rect"
  | line => objectCodec "line"
  | point => objectCodec "point"
  | circle => objectCodec "circle"
  | ellipse => objectCodec "ellipse"
  | path => objectCodec "path"
  | group => objectCodec "group"
  | componentReference => objectCodec "component"
  | sceneReference => objectCodec "scene"
  | moveTo => (PathCommand.tagged "moveTo" Position.fields).record
  | lineTo => (PathCommand.tagged "lineTo" Position.fields).record
  | closePath => (PathCommand.tagged "closePath" (Fields.const ())).record
  | quadraticCurve => (PathCommand.tagged "quadraticCurveTo" QuadraticCurve.fields).record
  | bezierCurve => (PathCommand.tagged "bezierCurveTo" BezierCurve.fields).record
  | arc => (PathCommand.tagged "arc" Arc.fields).record
  | tangentArc => (PathCommand.tagged "arcTo" TangentArc.fields).record
  | parameter => Parameter.codec
  | component => Component.codec
  | scene => Scene.codec
  | project => Project.codec
  | document => Document.codec
  | timeline => Timeline.codec

/-- What has to hold of a value for it to settle. -/
def Steady : (m : Model) → m.Value R → Prop
  | groupTransition, t => t.Steady
  | effectKeyframe, k => k.value ≠ .null
  | effect, e => e.Steady
  | base, b => ∀ n ∈ Base.names, n.Settled (baseCodec.write b)
  | text, o | image, o | rect, o | line, o | point, o | circle, o | ellipse, o | path, o | group, o
  | componentReference, o | sceneReference, o => Object.AllSteady [o]
  | component, c => Object.AllSteady c.objects
  | scene, s => Object.AllSteady s.objects
  | document, d => d.Steady
  | timeline, t => Object.AllSteady t.objects
  | _, _ => True

omit [Scalar R] in
theorem settles_plain : (Fields.rest id : Fields R (Members R) (Members R)).record.Gives
    (Fields.rest id).record.Settles := by
  intro j _ given h
  cases j with
  | obj ms =>
    obtain ⟨hnames, hgiven⟩ := read_record_obj_eq_ok.mp h
    have hms : ms = given := Except.ok.inj hgiven
    subst hms
    have hback : (Fields.rest id).record.read (.obj (Members.filled ms)) =
        .ok (Members.filled ms) :=
      read_record_obj_eq_ok.mpr ⟨fun m hm => hnames m (Members.mem_of_mem_filled hm), rfl⟩
    refine ⟨Members.filled ms, ⟨nofun, reread_eq_some.mpr hback⟩, ?_⟩
    change Json.Same (.obj (Members.filled (Members.filled ms))) (.obj (Members.filled ms))
    rw [Members.filled_filled]
    exact .refl _
  | _ => cases h

theorem settles_base : (baseCodec : Codec R (Base R × Members R)).Gives fun b =>
    baseCodec.Settles b ↔ Steady base b := by
  refine gives_record (.map (.within Base.settles) ?_)
  rintro b ⟨back, same, h, hto, -⟩ extras hextras
  refine (settles_record_iff (P := True) (.map (.within h)) (usable .base) hextras
    (.start fun _ _ => rfl) (fun _ => ?_) fun _ _ _ => trivial).trans (and_iff_left trivial)
  obtain ⟨b', rfl, hsame⟩ := hto trivial
  exact ⟨_, rfl, hsame⟩

theorem settles_object (kind : String) : (objectCodec kind : Codec R (Object R)).Gives fun o =>
    (objectCodec kind).Settles o ↔ Object.AllSteady [o] := by
  cases hkind : Object.readKind? (R := R) Object.alone kind with
  | none =>
    intro j _ o h
    simp only [objectCodec, hkind] at h
    cases h
  | some readIt =>
    have hcodec : objectCodec kind = ⟨readIt, Object.write⟩ := by
      simp only [objectCodec, hkind]
    rw [hcodec]
    refine fun j hproper o h => (Object.readsKindBack (fun room child hgroup => ?_) hkind j hproper
      o h).2
    cases hgroup
    exact Object.readsBack false (Object.maxLevels - 1)

theorem settles (m : Model) : (m.codec : Codec R (m.Value R)).Gives fun a =>
    m.codec.Settles a ↔ m.Steady a := by
  intro j hproper a h
  cases m with
  | plain => exact iff_true_intro (settles_plain j hproper a h)
  | keyframe => exact iff_true_intro (Keyframe.settles j hproper a h)
  | track => exact iff_true_intro (Track.settles j hproper a h)
  | effectUse => exact iff_true_intro (EffectUse.settles j hproper a h)
  | effectKeyframe => exact EffectKeyframe.settles_iff j hproper a h
  | effect => exact Effect.settles_iff j hproper a h
  | transition => exact iff_true_intro (Transition.settles j hproper a h)
  | groupTransition => exact GroupTransition.settles_iff _ j hproper a h
  | clip => exact iff_true_intro (Clip.settles j hproper a h)
  | base => exact settles_base j hproper a h
  | text => exact settles_object "text" j hproper a h
  | image => exact settles_object "image" j hproper a h
  | rect => exact settles_object "rect" j hproper a h
  | line => exact settles_object "line" j hproper a h
  | point => exact settles_object "point" j hproper a h
  | circle => exact settles_object "circle" j hproper a h
  | ellipse => exact settles_object "ellipse" j hproper a h
  | path => exact settles_object "path" j hproper a h
  | group => exact settles_object "group" j hproper a h
  | componentReference => exact settles_object "component" j hproper a h
  | sceneReference => exact settles_object "scene" j hproper a h
  | moveTo => exact iff_true_intro (PathCommand.settles_position "moveTo" j hproper a h)
  | lineTo => exact iff_true_intro (PathCommand.settles_position "lineTo" j hproper a h)
  | closePath => exact iff_true_intro (PathCommand.settles_closePath j hproper a h)
  | quadraticCurve => exact iff_true_intro (PathCommand.settles_quadraticCurve j hproper a h)
  | bezierCurve => exact iff_true_intro (PathCommand.settles_bezierCurve j hproper a h)
  | arc => exact iff_true_intro (PathCommand.settles_arc j hproper a h)
  | tangentArc => exact iff_true_intro (PathCommand.settles_arcTo j hproper a h)
  | parameter => exact iff_true_intro (Parameter.settles j hproper a h)
  | component => exact Component.settles_iff j hproper a h
  | scene => exact Scene.settles_iff j hproper a h
  | project => exact iff_true_intro (Project.settles j hproper a h)
  | document => exact Document.settles_iff j hproper a h
  | timeline => exact Timeline.settles_iff j hproper a h

theorem write_ne_null (m : Model) (a : m.Value R) : m.codec.write a ≠ .null := by
  cases m <;> first | exact write_record_ne_null _ | exact Object.write_ne_null _

/-- What is written for a value is read back, and the same is written for it again, exactly if the
value is steady. -/
theorem read_write_steady (m : Model) {j : Json R} (hproper : j.Proper) {a : m.Value R}
    (h : m.codec.read j = .ok a) :
    (∃ a', m.codec.read (m.codec.write a) = .ok a' ∧
      Json.Same (m.codec.write a') (m.codec.write a)) ↔ m.Steady a := by
  refine Iff.trans ?_ (m.settles j hproper a h)
  constructor
  · rintro ⟨a', hread, hsame⟩
    exact ⟨a', ⟨m.write_ne_null a, reread_eq_some.mpr hread⟩, hsame⟩
  · rintro ⟨a', ⟨-, hread⟩, hsame⟩
    exact ⟨a', reread_eq_some.mp hread, hsame⟩

omit [Scalar R] in
theorem exists_of_test {α : Type} {c : Codec R α} {j : Json R} (test : α → Bool)
    (h : (c.read j).toOption.any test = true) : ∃ a, c.read j = .ok a ∧ test a = true := by
  cases hread : c.read j with
  | error issues =>
    rw [hread] at h
    cases h
  | ok a =>
    rw [hread] at h
    exact ⟨a, rfl, h⟩

/-- A rectangle whose scale is given under both spellings: the written one goes before the other,
which stays as it is. -/
def scaled : Json Rat :=
  .obj [("scale_x", .num (.int 2)), ("width", .num (.int 10)), ("scaleX", .num (.int 3))]

theorem read_write_scaled : ∃ a a', rect.codec.read scaled = .ok a ∧
    rect.codec.read (rect.codec.write a) = .ok a' ∧
      Json.Same (rect.codec.write a') (rect.codec.write a) := by
  have hproper : scaled.Proper := by
    refine .obj ?_ ?_
    · simp only [List.forall_mem_cons]
      exact ⟨.num _, .num _, .num _, List.forall_mem_nil _⟩
    · simp
  have htest : ((objectCodec "rect").read scaled).toOption.any (fun o : Object Rat =>
      o.children.isEmpty && o.transition?.isNone &&
        decide (∀ n ∈ o.model.names, n.Settled o.write)) = true := by
    decide +kernel
  obtain ⟨o, ho, hsteady⟩ := exists_of_test _ htest
  simp only [Bool.and_eq_true, List.isEmpty_iff, Option.isNone_iff_eq_none, decide_eq_true_eq]
    at hsteady
  obtain ⟨⟨hchildren, htransition⟩, hsettled⟩ := hsteady
  have hsteady : Object.AllSteady [o] := by
    rw [Object.allSteady_cons, hchildren]
    refine ⟨⟨hsettled, fun t ht => ?_⟩, Object.allSteady_nil, Object.allSteady_nil⟩
    rw [htransition] at ht
    cases ht
  obtain ⟨o', hread, hsame⟩ := (read_write_steady rect hproper ho).mpr hsteady
  exact ⟨o, o', ho, hread, hsame⟩

/-- A scale under the other spelling is kept beside the declared members where the written one is
null, and becomes the scale when it is read again. The null value of a keyframe of an effect is not
written, and without it the keyframe is refused. -/
theorem read_write_drifts :
    (∃ o o', (objectCodec (R := Rat) "rect").read
        (.obj [("scaleX", .null), ("scale_x", .num (.int 2))]) = .ok o ∧
      (objectCodec "rect").read ((objectCodec "rect").write o) = .ok o' ∧
        ¬ Json.Same ((objectCodec "rect").write o') ((objectCodec "rect").write o)) ∧
    ∃ k, (EffectKeyframe.codec (R := Rat)).read
        (.obj [("time", .num (.int 0)), ("value", .null)]) = .ok k ∧
      ∀ k', EffectKeyframe.codec.read (EffectKeyframe.codec.write k) ≠ .ok k' := by
  constructor
  · have htest : ((objectCodec "rect").read
        (.obj [("scaleX", .null), ("scale_x", .num (.int 2))])).toOption.any
          (fun o : Object Rat => ((objectCodec "rect").read o.write).toOption.any fun o' =>
            (o'.write.member? "scaleX").isSome && (o.write.member? "scaleX").isNone) = true := by
      decide +kernel
    obtain ⟨o, ho, htest⟩ := exists_of_test _ htest
    obtain ⟨o', ho', htest⟩ := exists_of_test _ htest
    refine ⟨o, o', ho, ho', fun hsame => ?_⟩
    rw [Bool.and_eq_true, Option.isSome_iff_exists, Option.isNone_iff_eq_none] at htest
    obtain ⟨⟨j, hj⟩, hnone⟩ := htest
    have hscale := hsame.member? "scaleX"
    change Option.Rel _ (o'.write.member? "scaleX") (o.write.member? "scaleX") at hscale
    rw [hj, hnone] at hscale
    cases hscale
  · have htest : (EffectKeyframe.codec.read
        (.obj [("time", .num (.int 0)), ("value", .null)])).toOption.any
          (fun k : EffectKeyframe Rat => (EffectKeyframe.codec.read
            (EffectKeyframe.codec.write k)).toOption.isNone) = true := by
      decide +kernel
    obtain ⟨k, hk, htest⟩ := exists_of_test _ htest
    refine ⟨k, hk, fun k' hread => ?_⟩
    rw [hread] at htest
    cases htest

end Model

end Storyboard
