import Storyboard.Effect
import Storyboard.Object.Schema
import Storyboard.Proofs.Rereading.Names
import Storyboard.Proofs.Rereading.Values

namespace Storyboard

variable {R : Type}

open Codec Fields

theorem Keyframe.settles : (codec : Codec R (Keyframe R)).Gives codec.Settles := by
  refine gives_record <| .seq gives_raw <| .skip <| .start ?_
  intro start value easing heasing extras hextras
  exact settles_record (.optional heasing <| .required (exact_quantity _) <| .map <|
      rereads_required (exact_quantity _))
    (Model.usable .keyframe) hextras (by simp) rfl (.refl _) rfl

theorem Track.settles : (codec : Codec R (Track R)).Gives codec.Settles := by
  refine gives_record <| .seq (gives_required Keyframe.settles.list) <| .skip <| .start ?_
  intro target property keyframes hkeyframes extras hextras
  obtain ⟨keyframes', hread, hsame⟩ := (settles_list write_record_ne_null).mpr hkeyframes
  exact settles_record (.required hread <| .required (exact_text _) <| .map <|
      rereads_required (exact_text _))
    (Model.usable .track) hextras (by simp) rfl (.append (.refl _) (.single hsame)) rfl

theorem EffectUse.settles : (codec : Codec R (EffectUse R)).Gives codec.Settles := by
  refine gives_record <| .skip <| .skip <| .skip <| .start ?_
  intro target effect start duration extras hextras
  exact settles_record (.optional (exact_quantity.option _) <| .defaulted (exact_quantity _) <|
      .required (exact_text _) <| .map <| rereads_required (exact_text _))
    (Model.usable .effectUse) hextras (by simp) rfl (.refl _) rfl

theorem Transition.settles : (codec : Codec R (Transition R)).Gives codec.Settles := by
  refine gives_record <| .skip <| .start ?_
  intro effect duration extras hextras
  exact settles_record (.optional (exact_quantity.option _) <| .map <|
      rereads_required (exact_text _))
    (Model.usable .transition) hextras (by simp) rfl (.refl _) rfl

/-- The way into a group was not given under its other spelling beside a null. -/
def GroupTransition.Steady (t : GroupTransition R) : Prop :=
  ∀ n ∈ Model.groupTransition.names, n.Settled ((codec Object.maxLevels).write t)

theorem GroupTransition.settles_iff (room : Nat) :
    (codec room : Codec R (GroupTransition R)).Gives fun t =>
      (codec room).Settles t ↔ t.Steady := by
  refine gives_record <| .seq (gives_optional (Transition.settles.within room)) <|
    .map (gives_optional (Transition.settles.within room)) ?_
  intro entry hentry leave hleave extras hextras
  obtain ⟨entry', hentry', hsame⟩ :=
    Settles.option fun a ha => (hentry a ha).2.within (hentry a ha).1
  obtain ⟨leave', hleave', hsame'⟩ :=
    Settles.option fun a ha => (hleave a ha).2.within (hleave a ha).1
  refine (settles_record_iff (P := True) (.optional hleave' <| .map <| rereads_optional hentry')
    (Model.usable .groupTransition) hextras (.skip <| .start fun _ _ _ => rfl) (fun _ => ?_)
    fun _ _ _ => trivial).trans (and_iff_left trivial)
  exact ⟨_, rfl, .append (hsame.written rfl rfl) (hsame'.written rfl rfl)⟩

/-- No value of a keyframe is null. -/
def Effect.Steady (e : Effect R) : Prop :=
  ∀ p ∈ e.properties, ∀ k ∈ p.2, k.value ≠ .null

section

variable [Scalar R]

/-- A keyframe is read back exactly if it has a value. -/
theorem EffectKeyframe.settles : (codec : Codec R (EffectKeyframe R)).Gives fun k =>
    (k.value ≠ .null → codec.Settles k) ∧ (k.value = .null → codec.reread k = none) := by
  refine gives_record <| .seq gives_raw <| .skip <| .start ?_
  intro time value easing heasing extras hextras
  refine ⟨fun hvalue => ?_, fun hvalue => ?_⟩
  · have hfilled : (some value).filter (fun j => !j.isNull) = some value := by
      cases value <;> first | exact absurd rfl hvalue | rfl
    exact settles_record (.optional heasing <| .seq (.map <| rereads_required (exact_scalar _)) <|
        rereads_anything hfilled)
      (Model.usable .effectKeyframe) hextras (by simp) rfl (.refl _) rfl
  · have hnull : (some value).filter (fun j => !j.isNull) = none := by
      rw [show value = .null from hvalue]
      rfl
    have hread : codec.Rereads ⟨time, value, easing, extras⟩ _ :=
      rereads_record (.optional heasing <| .seq (.map <| rereads_required (exact_scalar _)) <|
          rereads_anything hnull)
        (Model.usable .effectKeyframe) hextras (by simp)
    exact hread.2

theorem EffectKeyframe.settles_iff : (codec : Codec R (EffectKeyframe R)).Gives fun k =>
    codec.Settles k ↔ k.value ≠ .null := by
  intro j hproper k h
  obtain ⟨hsettles, hnone⟩ := EffectKeyframe.settles j hproper k h
  refine ⟨?_, hsettles⟩
  rintro ⟨k', ⟨-, hread⟩, -⟩ hnull
  rw [hnone hnull] at hread
  cases hread

theorem Effect.settles_iff : (codec : Codec R (Effect R)).Gives fun e =>
    codec.Settles e ↔ e.Steady := by
  refine gives_record <| .seq (gives_defaulted EffectKeyframe.settles.list.map (by simp)) <|
    .skip <| .start ?_
  intro description duration properties hproperties extras hextras
  constructor
  · rintro ⟨e', ⟨-, hback⟩, -⟩ p hp k hk hnull
    have hmap : (Codec.map (Codec.list EffectKeyframe.codec)).Rereads properties _ :=
      ⟨by simp [Codec.map], rfl⟩
    have hread : codec.Rereads ⟨description, duration, properties, extras⟩ _ :=
      rereads_record (.defaulted hmap <| .required (exact_scalar _) <| .map <|
          rereads_optional (exact_text.option _))
        (Model.usable .effect) hextras (by simp)
    obtain ⟨g, hg, -⟩ := Option.map_eq_some_iff.mp (hread.2.symm.trans hback)
    obtain ⟨-, properties', -, hproperties', -⟩ := applied_eq_some.mp hg
    obtain ⟨keyframes', hkeyframes'⟩ :=
      Option.isSome_iff_exists.mp (isSome_reread_of_map hproperties' p hp)
    have hkeyframe := isSome_reread_of_list hkeyframes' k hk
    rw [(hproperties p hp k hk).2 hnull] at hkeyframe
    cases hkeyframe
  · intro hsteady
    obtain ⟨properties', hread, hsame⟩ := Settles.map fun p hp =>
      (settles_list write_record_ne_null).mpr fun k hk =>
        (hproperties p hp k hk).1 (hsteady p hp k hk)
    exact settles_record (.defaulted hread <| .required (exact_scalar _) <| .map <|
        rereads_optional (exact_text.option _))
      (Model.usable .effect) hextras (by simp) rfl (.append (.refl _) (.single hsame)) rfl

end

end Storyboard
