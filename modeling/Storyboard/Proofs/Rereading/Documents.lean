import Storyboard.Proofs.Rereading.Objects

namespace Storyboard

variable {R : Type} [Scalar R]

open Codec Fields

theorem Project.settles : (codec : Codec R (Project R)).Gives codec.Settles := by
  refine gives_record <| .seq (gives_required (gives_wholeFrom 0)) <|
    .seq (gives_required gives_positive) <| .skip <| .start ?_
  intro width height fps hfps frames hframes extras hextras
  exact settles_record (.required hframes <| .required hfps <| .required (exact_whole _) <| .map <|
      rereads_required (exact_whole _))
    (Model.usable .project) hextras (by simp) rfl (.refl _) rfl

omit [Scalar R] in
theorem Parameter.settles : (codec : Codec R (Parameter R)).Gives codec.Settles := by
  refine gives_record <| .seq gives_raw <| .start ?_
  intro kind default hdefault extras hextras
  exact settles_record (.optional hdefault <| .map <|
      rereads_optional ((exact_choice ParameterKind.ofName?_name).option _))
    (Model.usable .parameter) hextras (by simp) rfl (.refl _) rfl

section

variable {ρ : Type}

instance (get : ρ → List (Object R)) : (objectsField get).Trims :=
  inferInstanceAs (Fields.Trims (Fields.defaulted _ _ _ _))

omit [Scalar R] in
instance (get : ρ → List (Entry R)) : (animationsField get).Trims :=
  inferInstanceAs (Fields.Trims (Fields.defaulted _ _ _ _))

/-- Objects are read back exactly if all their parts are steady. -/
theorem gives_objectsField {get : ρ → List (Object R)} : (objectsField get).Gives fun objects =>
    ∃ back, (Codec.list Object.codec).Rereads objects back ∧
      ((∃ v, back = some v ∧ Json.Same ((Codec.list Object.codec).write v)
        ((Codec.list Object.codec).write objects)) ↔ Object.AllSteady objects) := by
  have hobject : (Object.codec (R := R)).Gives fun o =>
      Object.codec.Settles o ↔ Object.AllSteady [o] := Object.readsBack true Object.maxLevels
  have hitems : (objectsField get).Gives fun objects =>
      ∀ o ∈ objects, Object.codec.Settles o ↔ Object.AllSteady [o] :=
    gives_defaulted hobject.list (by simp)
  exact fun ms hproper objects hread =>
    Object.exists_rereads_children (hitems ms hproper objects hread)

omit [Scalar R] in
theorem gives_animationsField {get : ρ → List (Entry R)} :
    (animationsField get).Gives (Codec.list (Entry.codec Object.maxLevels)).Settles := by
  have hitems : (animationsField get).Gives fun entries =>
      ∀ e ∈ entries, (Entry.codec Object.maxLevels).Settles e :=
    gives_defaulted (Entry.settles _).list (by simp)
  exact fun ms hproper entries hread =>
    (settles_list Entry.write_ne_null).mpr (hitems ms hproper entries hread)

end

theorem Scene.settles_iff : (codec : Codec R (Scene R)).Gives fun s =>
    codec.Settles s ↔ Object.AllSteady s.objects := by
  refine gives_record <| .seq gives_animationsField <| .seq gives_objectsField <| .start ?_
  rintro duration objects ⟨back, hread, hiff⟩ animations ⟨animations', hread', hsame'⟩ extras
    hextras
  refine (settles_record_iff (P := Object.AllSteady objects) (.defaulted hread' <|
      .defaulted hread <| .map <| rereads_optional (exact_quantity.option _))
    (Model.usable .scene) hextras (.skip <| .skip <| .start fun _ _ _ _ => rfl)
    (fun hsteady => ?_) ?_).trans (and_iff_right (by simp))
  · obtain ⟨objects', rfl, hsame⟩ := hiff.mpr hsteady
    exact ⟨_, rfl, .append (.append (.refl _) (.single hsame)) (.single hsame')⟩
  · rintro g hg ⟨⟨-, hsame⟩, -⟩
    cases back with
    | none => cases hg
    | some objects' =>
      obtain rfl := Option.some.inj hg
      exact hiff.mp ⟨objects', rfl, hsame⟩

theorem Component.settles_iff : (codec : Codec R (Component R)).Gives fun c =>
    codec.Settles c ↔ Object.AllSteady c.objects := by
  refine gives_record <| .skip <| .skip <| .seq gives_animationsField <| .seq gives_objectsField <|
    .map (gives_defaulted Parameter.settles.map (by simp)) ?_
  rintro parameters hparameters objects ⟨back, hread, hiff⟩ animations
    ⟨animations', hread', hsame'⟩ width height extras hextras
  obtain ⟨parameters', hread'', hsame''⟩ := Settles.map hparameters
  refine (settles_record_iff (P := Object.AllSteady objects) (.optional (exact_number.option _) <|
      .optional (exact_number.option _) <| .defaulted hread' <| .defaulted hread <| .map <|
      rereads_defaulted hread'')
    (Model.usable .component) hextras
    (.skip <| .skip <| .skip <| .skip <| .start fun _ _ _ _ _ _ => rfl)
    (fun hsteady => ?_) ?_).trans (and_iff_right (by simp))
  · obtain ⟨objects', rfl, hsame⟩ := hiff.mpr hsteady
    exact ⟨_, rfl, .append (.append (.append (.append (.single hsame'') (.single hsame))
      (.single hsame')) (.refl _)) (.refl _)⟩
  · rintro g hg ⟨⟨⟨⟨-, hsame⟩, -⟩, -⟩, -⟩
    cases back with
    | none => cases hg
    | some objects' =>
      obtain rfl := Option.some.inj hg
      exact hiff.mp ⟨objects', rfl, hsame⟩

/-- The speed was not given under its other spelling beside a null, and all objects are steady. -/
structure Document.Steady (d : Document R) : Prop where
  settled : ∀ n ∈ Model.document.names, n.Settled (codec.write d)
  objects : Object.AllSteady d.objects

theorem Document.settles_iff : (codec : Codec R (Document R)).Gives fun d =>
    codec.Settles d ↔ d.Steady := by
  refine gives_record <| .seq gives_animationsField <| .seq gives_objectsField <| .skip <|
    .map (gives_required Project.settles) ?_
  rintro project ⟨project', hread'', hsame''⟩ speed objects ⟨back, hread, hiff⟩ animations
    ⟨animations', hread', hsame'⟩ extras hextras
  refine (settles_record_iff (P := Object.AllSteady objects) (.defaulted hread' <|
      .defaulted hread <| .optional (exact_scalar.option _) <| .map <| rereads_required hread'')
    (Model.usable .document) hextras (.skip <| .skip <| .skip <| .start fun _ _ _ _ _ => rfl)
    (fun hsteady => ?_) ?_).trans ⟨fun h => ⟨h.1, h.2⟩, fun h => ⟨h.settled, h.objects⟩⟩
  · obtain ⟨objects', rfl, hsame⟩ := hiff.mpr hsteady
    exact ⟨_, rfl,
      .append (.append (.append (.single hsame'') (.refl _)) (.single hsame)) (.single hsame')⟩
  · rintro g hg ⟨⟨-, hsame⟩, -⟩
    cases back with
    | none => cases hg
    | some objects' =>
      obtain rfl := Option.some.inj hg
      exact hiff.mp ⟨objects', rfl, hsame⟩

theorem Timeline.settles_iff : (codec : Codec R (Timeline R)).Gives fun t =>
    codec.Settles t ↔ Object.AllSteady t.objects := by
  refine gives_record <| .seq (gives_defaulted Track.settles.list (by simp)) <|
    .seq gives_objectsField <| .map (gives_required Project.settles) ?_
  rintro project ⟨project', hread'', hsame''⟩ objects ⟨back, hread, hiff⟩ tracks htracks extras
    hextras
  obtain ⟨tracks', hread', hsame'⟩ := (settles_list write_record_ne_null).mpr htracks
  refine (settles_record_iff (P := Object.AllSteady objects) (.defaulted hread' <|
      .defaulted hread <| .map <| rereads_required hread'')
    (Model.usable .timeline) hextras (.skip <| .skip <| .start fun _ _ _ _ => rfl)
    (fun hsteady => ?_) ?_).trans (and_iff_right (by simp))
  · obtain ⟨objects', rfl, hsame⟩ := hiff.mpr hsteady
    exact ⟨_, rfl, .append (.append (.single hsame'') (.single hsame)) (.single hsame')⟩
  · rintro g hg ⟨⟨-, hsame⟩, -⟩
    cases back with
    | none => cases hg
    | some objects' =>
      obtain rfl := Option.some.inj hg
      exact hiff.mp ⟨objects', rfl, hsame⟩

end Storyboard
