import Storyboard.Proofs.Composition.Compiled
import Storyboard.Proofs.Merging
import Storyboard.Proofs.Resolved

namespace Storyboard

open Outcome

variable {R : Type}

namespace Composition

theorem clipPart?_append (part : String) : clipPart? ("clip." ++ part) = some part := by
  have hlead : "clip.".toList.isPrefixOf ("clip." ++ part).toList = true := by
    rw [String.toList_append]
    exact List.isPrefixOf_iff_prefix.mpr (List.prefix_append _ _)
  rw [clipPart?, if_pos hlead, String.toList_append, List.drop_left, String.ofList_toList]

theorem clipPart?_eq_some {name part : String} :
    clipPart? name = some part ↔ name = "clip." ++ part := by
  refine ⟨eq_of_clipPart?, ?_⟩
  rintro rfl
  exact clipPart?_append part

theorem clip_ne_append (part : String) : "clip" ≠ "clip." ++ part := by
  intro h
  have hpart := clipPart?_eq_some.mpr h
  rw [show clipPart? "clip" = none by decide +kernel] at hpart
  cases hpart

/-- Parts of a clip under texts. -/
def textParts (ms : Members R) : Parts R := ms.map fun m => (.str m.1, m.2)

/-- The sampled values that stand for properties of the object itself. -/
def plainOf (overrides : Members R) : Members R :=
  overrides.filter fun o => (clipPart? o.1).isNone

/-- The sampled values that stand for parts of the clip, under the names of the parts. -/
def partsOf (overrides : Members R) : Members R :=
  overrides.filterMap fun o => (clipPart? o.1).map (·, o.2)

theorem get?_partsOf {overrides : Members R} {part : String} :
    Members.get? part (partsOf overrides) = Members.get? ("clip." ++ part) overrides := by
  induction overrides with
  | nil => rfl
  | cons first rest ih =>
    obtain ⟨n, v⟩ := first
    rw [partsOf, List.filterMap_cons, Members.get?_cons]
    cases hpart : clipPart? n with
    | none =>
      have hne : n ≠ "clip." ++ part := by
        rintro rfl
        rw [clipPart?_append] at hpart
        cases hpart
      rw [if_neg hne]
      exact ih
    | some k =>
      obtain rfl := eq_of_clipPart? hpart
      have hsame : "clip." ++ k = "clip." ++ part ↔ k = part := by
        rw [← clipPart?_eq_some, clipPart?_append, Option.some.injEq]
      simp only [Option.map_some, Members.get?_cons, hsame]
      split
      · rfl
      · exact ih

theorem distinct_partsOf {overrides : Members R} (h : Members.Distinct overrides) :
    Members.Distinct (partsOf overrides) := by
  have hnames : (partsOf overrides).map Prod.fst =
      (overrides.map Prod.fst).filterMap clipPart? := by
    simp [partsOf, List.map_filterMap, List.filterMap_map, Function.comp_def]
  rw [Members.Distinct, hnames]
  refine List.Nodup.filterMap (fun a b part ha hb => ?_) h
  rw [eq_of_clipPart? ha, eq_of_clipPart? hb]

variable [Scalar R]

theorem setPart_textParts (name : String) (v : Json R) (ms : Members R) :
    setPart (.str name, v) (textParts ms) = textParts (Members.insert name v ms) := by
  induction ms with
  | nil => rfl
  | cons first rest ih =>
    obtain ⟨n, w⟩ := first
    have hstep : setPart (.str name, v) (textParts ((n, w) :: rest)) =
        if n == name then (.str n, v) :: textParts rest
        else (.str n, w) :: setPart (.str name, v) (textParts rest) := rfl
    rw [hstep, Members.insert, ih]
    split <;> rfl

theorem partMembers_textParts (ms : Members R) : partMembers (textParts ms) = Members.ofList ms := by
  rw [partMembers, textParts, List.map_map]
  exact congrArg Members.ofList (List.map_id ms)

/-- Sampled values go into the properties or into the clip, and an animated clip is kept. -/
theorem foldl_override_textParts (overrides props clip : Members R) (animated : Bool) :
    overrides.foldl override ⟨props, textParts clip, animated⟩ =
      ⟨Members.merge props (plainOf overrides), textParts (Members.merge clip (partsOf overrides)),
        animated || !(partsOf overrides).isEmpty⟩ := by
  induction overrides generalizing props clip animated with
  | nil => simp [plainOf, partsOf, Members.merge]
  | cons o rest ih =>
    rw [List.foldl_cons, override]
    cases hpart : clipPart? o.1 with
    | none =>
      simp only [ih]
      simp [plainOf, partsOf, hpart, Members.merge]
    | some part =>
      simp only [setPart_textParts, ih]
      simp [plainOf, partsOf, hpart, Members.merge]

/-- The parts of the clip among properties. -/
def clipOf (props : Members R) : Members R :=
  match Members.get? "clip" props with
  | some (.obj parts) => Members.ofList parts
  | _ => []

/-- Properties with values put over them: every property with a value has it, a value for a part of
the clip leaves the other parts alone, and nothing else changes. -/
structure Overridden (declared : Members R) (values : String → Option (Json R))
    (props : Members R) : Prop where
  plain : ∀ name, name ≠ "clip" → clipPart? name = none →
    Members.get? name props = (values name).or (Members.get? name declared)
  dotted : ∀ part, Members.get? ("clip." ++ part) props = Members.get? ("clip." ++ part) declared
  clip : (∃ parts, Members.get? "clip" props = some (.obj parts) ∧ ∀ part,
      Members.get? part parts = (values ("clip." ++ part)).or (Members.get? part (clipOf declared))) ∨
    (∀ part, values ("clip." ++ part) = none) ∧ clipOf declared = [] ∧
      Members.get? "clip" props = Members.get? "clip" declared

/-- The clip among properties is an object in which each of certain parts stands at most once, if
there is one. -/
def ClipFits (parts : List String) (declared : Members R) : Prop :=
  ∀ j, Members.get? "clip" declared = some j →
    ∃ ms, j = .obj ms ∧ ∀ part ∈ parts, (ms.map Prod.fst).count part ≤ 1

theorem ClipFits.clipParts_eq_ok {parts : List String} {declared : Members R}
    (h : ClipFits parts declared) :
    ∃ ms, clipParts ((Members.get? "clip" declared).getD .null) = .ok (textParts ms) ∧
      clipOf declared = Members.ofList ms ∧
      ∀ part ∈ parts, (ms.map Prod.fst).count part ≤ 1 := by
  cases hget : Members.get? "clip" declared with
  | none => exact ⟨[], rfl, by rw [clipOf, hget]; rfl, fun part _ => by simp⟩
  | some j =>
    obtain ⟨ms, rfl, hcount⟩ := h j hget
    refine ⟨ms, ?_, by rw [clipOf, hget], hcount⟩
    rw [Option.getD_some, clipParts]
    cases ms <;> rfl

omit [Scalar R] in
/-- Sampled values for properties of the object itself change no other property. -/
theorem get?_merge_plainOf {overrides : Members R} (hdistinct : Members.Distinct overrides)
    (declared : Members R) (name : String) :
    Members.get? name (Members.merge declared (plainOf overrides)) =
      if clipPart? name = none then
        (Members.get? name overrides).or (Members.get? name declared)
      else Members.get? name declared := by
  have hplains : Members.Distinct (plainOf overrides) :=
    (List.filter_sublist.map Prod.fst).nodup hdistinct
  rw [Members.get?_merge hplains, plainOf, Members.get?_filter (p := fun n => (clipPart? n).isNone)]
  cases clipPart? name <;> simp

/-- A clip is put over the properties if there was one or if one is sampled. -/
theorem mergeProps_eq_ok {declared overrides ms : Members R}
    (h : clipParts ((Members.get? "clip" declared).getD .null) = .ok (textParts ms)) :
    mergeProps declared overrides =
      .ok (if partsOf overrides = [] ∧ ms = [] then Members.merge declared (plainOf overrides)
        else Members.insert "clip" (.obj (Members.ofList (Members.merge ms (partsOf overrides))))
          (Members.merge declared (plainOf overrides))) := by
  have hmerged : mergeProps declared overrides =
      .ok (if !(partsOf overrides).isEmpty ||
          !(textParts (Members.merge ms (partsOf overrides))).isEmpty then
        Members.insert "clip" (.obj (Members.ofList (Members.merge ms (partsOf overrides))))
          (Members.merge declared (plainOf overrides))
      else Members.merge declared (plainOf overrides)) := by
    rw [mergeProps, h, ok_bind, foldl_override_textParts, ← partMembers_textParts]
    rfl
  have hempty : (!(partsOf overrides).isEmpty ||
      !(textParts (Members.merge ms (partsOf overrides))).isEmpty) = true ↔
        ¬ (partsOf overrides = [] ∧ ms = []) := by
    cases hparts : partsOf overrides with
    | nil => simp [textParts, Members.merge]
    | cons o rest => simp
  rw [hmerged]
  simp only [hempty, ite_not]

/-- Values that stand under distinct names, none of them for the clip as a whole, are put over
declared properties. -/
theorem mergeProps_overridden {parts : List String} {declared overrides : Members R}
    (hdeclared : ClipFits parts declared) (hdistinct : Members.Distinct overrides)
    (hclip : Members.get? "clip" overrides = none)
    (hparts : ∀ o ∈ partsOf overrides, o.1 ∈ parts) :
    ∃ props, mergeProps declared overrides = .ok props ∧
      Overridden declared (fun name => Members.get? name overrides) props := by
  obtain ⟨ms, hms, hown, hcount⟩ := hdeclared.clipParts_eq_ok
  have hplain := get?_merge_plainOf hdistinct declared
  have hdotted (part : String) :
      Members.get? ("clip." ++ part) (Members.merge declared (plainOf overrides)) =
        Members.get? ("clip." ++ part) declared := by
    rw [hplain, clipPart?_append, if_neg (by simp)]
  refine ⟨_, mergeProps_eq_ok hms, ?_⟩
  split
  · rename_i hempty
    obtain ⟨hnone, hclipless⟩ := hempty
    refine ⟨fun name hname hnone => ?_, hdotted, .inr ⟨fun part => ?_, ?_, ?_⟩⟩
    · rw [hplain, if_pos hnone]
    · rw [← get?_partsOf, hnone]
      rfl
    · rw [hown, hclipless]
      rfl
    · rw [hplain, hclip]
      split <;> rfl
  · refine ⟨fun name hname hnone => ?_, fun part => ?_,
      .inl ⟨Members.ofList (Members.merge ms (partsOf overrides)), ?_, fun part => ?_⟩⟩
    · rw [Members.get?_insert, if_neg (Ne.symm hname), hplain, if_pos hnone]
    · rw [Members.get?_insert, if_neg (clip_ne_append part), hdotted]
    · rw [Members.get?_insert, if_pos rfl]
    · rw [Members.get?_ofList_merge (distinct_partsOf hdistinct) fun m hm =>
        hcount _ (hparts m hm), get?_partsOf, hown]

end Composition

/-- Neither a clip as a whole can be animated nor anything of it but its sides. -/
theorem Object.side_of_canAnimate {o : Object R} {property : String}
    (h : o.canAnimate property = true) : property ≠ "clip" ∧
      ∀ part, Composition.clipPart? property = some part → part ∈ sideNames := by
  have hcheck : ∀ name ∈ commonProperties ++ ["width", "height", "radius", "radiusX", "radiusY",
      "content", "size", "color", "font", "align", "x2", "y2", "stroke", "strokeWidth", "fill"],
      name ≠ "clip" ∧ (Composition.clipPart? name).all (sideNames.contains ·) = true := by
    decide +kernel
  have hkind : kindProperties o.kind ⊆ ["width", "height", "radius", "radiusX", "radiusY",
      "content", "size", "color", "font", "align", "x2", "y2", "stroke", "strokeWidth", "fill"] := by
    unfold kindProperties
    split <;> simp
  obtain ⟨hne, hside⟩ := hcheck property (by
    simp only [canAnimate, Bool.or_eq_true, Bool.and_eq_true, List.contains_iff_mem,
      beq_iff_eq] at h
    rcases h with ((h | h) | ⟨rfl, -⟩) | ⟨rfl, -⟩
    · exact List.mem_append_left _ h
    · exact List.mem_append_right _ (hkind h)
    · simp
    · simp)
  refine ⟨hne, fun part hpart => ?_⟩
  rw [hpart] at hside
  simpa using hside

theorem Fields.names_optional {ρ α : Type} (name : FieldName) (c : Codec R α)
    (get : ρ → Option α) (r : ρ) :
    (((Fields.optional name c get).write r).map Prod.fst).Sublist [name.wire] := by
  simp only [Fields.optional]
  cases get r with
  | none => exact List.nil_sublist _
  | some a => exact List.Sublist.refl _

/-- Each side stands at most once in a clip whose other parts have other names. -/
theorem Clip.count_side {c : Clip R} (hplain : ∀ m ∈ c.extras, m.1 ∉ sideNames) {part : String}
    (hpart : part ∈ sideNames) : ((Clip.fields.write c).map Prod.fst).count part ≤ 1 := by
  have hrest : (((Fields.rest Clip.extras).write c).map Prod.fst).count part = 0 := by
    refine List.count_eq_zero.mpr fun hmem => ?_
    obtain ⟨m, hm, rfl⟩ := List.mem_map.mp hmem
    exact hplain m (List.mem_of_mem_filter hm) hpart
  have hsides := (((Fields.names_optional "x" Codec.quantity Clip.x c).append
    (Fields.names_optional "y" Codec.quantity Clip.y c)).append
    (Fields.names_optional "width" Codec.quantity Clip.width c)).append
    (Fields.names_optional "height" Codec.quantity Clip.height c)
  have hsplit : (Clip.fields.write c).map Prod.fst =
      (((Fields.optional "x" Codec.quantity Clip.x).write c).map Prod.fst ++
        ((Fields.optional "y" Codec.quantity Clip.y).write c).map Prod.fst ++
        ((Fields.optional "width" Codec.quantity Clip.width).write c).map Prod.fst ++
        ((Fields.optional "height" Codec.quantity Clip.height).write c).map Prod.fst) ++
        ((Fields.rest Clip.extras).write c).map Prod.fst := by
    rw [← List.map_append, ← List.map_append, ← List.map_append, ← List.map_append]
    rfl
  rw [hsplit, List.count_append, hrest, Nat.add_zero]
  exact (hsides.count_le part).trans (List.nodup_iff_count_le_one.mp (by decide) part)

variable [Scalar R]

/-- The clip among the declared properties of an object is an object with each side at most once. -/
theorem Object.Plain.clipFits {o : Object R} (h : o.Plain) :
    Composition.ClipFits sideNames o.staticProps := by
  intro j hj
  obtain ⟨c, hc, rfl⟩ := (h.typed_staticProps (Members.mem_of_get? hj)).2.2 rfl
  exact ⟨_, rfl, fun part hpart => Clip.count_side (h.clip c hc) hpart⟩

namespace Studio.Stages

variable {s : Studio R} {folder : Place} {doc : Document R} {c c' : Catalog R}
  {timeline : Timeline R} {expanded flat : List (Object R)} {tracks : List (Track R)}

/-- The tracks of a compiled timeline animate no clip as a whole and nothing of it but its sides. -/
theorem side_of_track (h : s.Stages folder doc c timeline c' expanded flat tracks) :
    ∀ t ∈ timeline.tracks, t.property ≠ "clip" ∧
      ∀ part, Composition.clipPart? t.property = some part → part ∈ sideNames := by
  intro t ht
  obtain ⟨o, -, hcan, -⟩ := Track.check_eq_ok.mp (Track.checkAll_eq_ok.mp h.fits t ht)
  exact Object.side_of_canAnimate hcan

end Studio.Stages

namespace Composition

variable [Trig R] {settings : Settings R} {tracks : List (Track R)} {s : Sampler R} {o : Object R}
  {frame : Number R}

/-- The value that tracks give a property of an object at a frame: the one sampled from the
keyframes of all tracks of the object and the property in the order of their starts. -/
def valueAt (settings : Settings R) (tracks : List (Track R)) (o : Object R) (frame : Number R)
    (property : String) : Outcome (Option (Json R)) :=
  match o.id with
  | none => .ok none
  | some id =>
    (Track.sample settings
      (Order.sort Keyframe.startsBefore (Sampler.keyframesFor tracks id property)) frame).map
        (Option.map Json.ofQuantity)

/-- What the properties of an object come to at a frame if all tracks of it take effect. -/
structure Animated (settings : Settings R) (tracks : List (Track R)) (o : Object R)
    (frame : Number R) (result : Outcome (Members R)) : Prop where
  keyed : ∀ property v, valueAt settings tracks o frame property = .ok v →
    (v.isSome ↔ ∃ t ∈ tracks, o.id = some t.target ∧ t.property = property ∧ t.keyframes ≠ [])
  changes : ∀ values, (∀ property, valueAt settings tracks o frame property =
    .ok (values property)) → ∃ props, result = .ok props ∧ Overridden o.staticProps values props
  refused : ∀ property fault, valueAt settings tracks o frame property = .error fault →
    ¬ Returns result

theorem isSome_of_sample {ks : List (Keyframe R)} {v : Option (Quantity R)}
    (h : Track.sample settings ks frame = .ok v) : v.isSome ↔ ks ≠ [] := by
  cases ks with
  | nil =>
    cases h
    simp
  | cons first rest =>
    have hsome : v.isSome := by
      obtain ⟨after, -, h⟩ := bind_eq_ok.mp h
      split at h
      · cases h
        rfl
      · dsimp only at h
        split at h
        · cases h
          rfl
        · obtain ⟨before, -, h⟩ := bind_eq_ok.mp h
          split at h
          · cases h
            rfl
          · split at h
            · obtain ⟨value, -, h⟩ := bind_eq_ok.mp h
              cases h
              rfl
            · cases h
              rfl
    simp [hsome]

/-- A property has a value exactly if some track of the object and the property has a keyframe. -/
theorem valueAt_isSome {property : String} {v : Option (Json R)}
    (h : valueAt settings tracks o frame property = .ok v) :
    v.isSome ↔ ∃ t ∈ tracks, o.id = some t.target ∧ t.property = property ∧ t.keyframes ≠ [] := by
  rw [valueAt] at h
  cases hid : o.id with
  | none =>
    rw [hid] at h
    cases h
    simp
  | some id =>
    rw [hid] at h
    obtain ⟨q, hq, rfl⟩ := map_eq_ok.mp h
    have hsorted : Order.sort Keyframe.startsBefore (Sampler.keyframesFor tracks id property) ≠ [] ↔
        Sampler.keyframesFor tracks id property ≠ [] := by
      rw [ne_eq, ne_eq, not_iff_not]
      exact ⟨fun hnil => List.Perm.eq_nil (hnil ▸ (Order.sort_perm _ _).symm),
        fun hnil => by rw [hnil]; rfl⟩
    rw [Option.isSome_map, isSome_of_sample hq, hsorted, Sampler.keyframesFor_ne_nil]
    simp only [Option.some.injEq]
    exact exists_congr fun t => and_congr_right fun _ => and_congr_left fun _ => eq_comm

/-- A property of an object that no track names has no value. -/
theorem valueAt_of_untouched {property : String}
    (h : ∀ t ∈ tracks, o.id = some t.target → t.property ≠ property) :
    valueAt settings tracks o frame property = .ok none := by
  rw [valueAt]
  cases hid : o.id with
  | none => rfl
  | some id =>
    have hnil : Sampler.keyframesFor tracks id property = [] := by
      by_contra hne
      obtain ⟨t, ht, rfl, hproperty, -⟩ := Sampler.keyframesFor_ne_nil.mp hne
      exact h t ht hid hproperty
    dsimp only
    rw [hnil]
    rfl

/-- A clip is animated by its sides only. -/
def SidesOnly (tracks : List (Track R)) : Prop :=
  ∀ t ∈ tracks, t.property ≠ "clip" ∧ ∀ part, clipPart? t.property = some part → part ∈ sideNames

/-- The values of tracks are put over the properties of an object, since only the sides of its clip
are animated. -/
theorem mergeProps_values {values : String → Option (Json R)} {overrides : Members R}
    (hfits : ClipFits sideNames o.staticProps) (hsides : SidesOnly tracks)
    (hvalues : ∀ property, valueAt settings tracks o frame property = .ok (values property))
    (hnames : Members.Distinct overrides) (hfound : ∀ name, Members.get? name overrides = values name) :
    ∃ props, mergeProps o.staticProps overrides = .ok props ∧
      Overridden o.staticProps values props := by
  -- What has a value is the property of some track, and that is neither the clip nor a part of it
  -- which is no side.
  have htrack {name : String} (hsome : (values name).isSome) : ∃ t ∈ tracks, t.property = name := by
    obtain ⟨t, ht, -, hproperty, -⟩ := (valueAt_isSome (hvalues name)).mp hsome
    exact ⟨t, ht, hproperty⟩
  have hclip : Members.get? "clip" overrides = none := by
    rw [hfound, ← Option.not_isSome_iff_eq_none]
    intro hsome
    obtain ⟨t, ht, hproperty⟩ := htrack hsome
    exact (hsides t ht).1 hproperty
  have hparts : ∀ m ∈ partsOf overrides, m.1 ∈ sideNames := by
    intro m hm
    have hsome := (distinct_partsOf hnames).get?_eq_some hm
    rw [get?_partsOf, hfound] at hsome
    obtain ⟨t, ht, hproperty⟩ := htrack (Option.isSome_iff_exists.mpr ⟨_, hsome⟩)
    exact (hsides t ht).2 m.1 (hproperty ▸ clipPart?_append m.1)
  obtain ⟨props, hmerged, hoverridden⟩ := mergeProps_overridden hfits hnames hclip hparts
  refine ⟨props, hmerged, ?_⟩
  rwa [funext hfound] at hoverridden

theorem Animated.of_id {id : String} (hid : o.id = some id) (hne : id ≠ "")
    (hfits : ClipFits sideNames o.staticProps) (hsides : SidesOnly tracks)
    (hdistinct : Members.Distinct (s.tracksFor id))
    (hsampler : ∀ property, (Members.get? property (s.tracksFor id)).getD [] =
      Order.sort Keyframe.startsBefore (Sampler.keyframesFor tracks id property)) :
    Animated settings tracks o frame (propsAt settings s o frame) := by
  have hsampled (property : String) : valueAt settings tracks o frame property =
      (s.sampleProperty settings id property frame).map (Option.map Json.ofQuantity) := by
    rw [valueAt, hid, Sampler.sampleProperty, hsampler]
  have hprops : propsAt settings s o frame = s.sampleTarget settings id frame >>= fun sampled =>
      mergeProps o.staticProps (sampled.map fun v => (v.1, Json.ofQuantity v.2)) := by
    rw [propsAt, hid]
    simp [hne]
  refine ⟨fun property v => valueAt_isSome, fun values hvalues => ?_,
    fun property fault hfault hreturns => ?_⟩
  · have hquantities (property : String) : ∃ q,
        s.sampleProperty settings id property frame = .ok q ∧
          q.map Json.ofQuantity = values property :=
      map_eq_ok.mp ((hsampled property).symm.trans (hvalues property))
    choose quantities hquantity hvalue using hquantities
    obtain ⟨sampled, hsampled, hdistinct, hget⟩ :=
      Sampler.sampleTarget_eq_ok hdistinct hquantity
    have hnames : Members.Distinct (sampled.map fun v => (v.1, Json.ofQuantity v.2)) := by
      rw [Members.Distinct, List.map_map]
      exact hdistinct
    obtain ⟨props, hmerged, hoverridden⟩ := mergeProps_values hfits hsides hvalues hnames
      fun name => by rw [Members.get?_map, hget, hvalue]
    exact ⟨props, by rw [hprops, hsampled]; exact hmerged, hoverridden⟩
  · rw [hprops] at hreturns
    rw [hsampled] at hfault
    cases hsample : s.sampleProperty settings id property frame with
    | ok q =>
      rw [hsample] at hfault
      cases hfault
    | error fault' => exact Sampler.not_returns_sampleTarget hsample hreturns.of_bind

/-- An object that is not looked up among the targets keeps its declared properties. -/
theorem propsAt_of_unnamed (hid : o.id = none ∨ o.id = some "")
    (hfits : ClipFits sideNames o.staticProps) :
    ∃ props, propsAt settings s o frame = .ok props ∧
      Overridden o.staticProps (fun _ => none) props := by
  have hprops : propsAt settings s o frame = mergeProps o.staticProps [] := by
    rcases hid with hid | hid <;> rw [propsAt, hid] <;> rfl
  rw [hprops]
  have hnothing : Members.Distinct ([] : Members R) := List.nodup_nil
  exact mergeProps_overridden hfits hnothing rfl fun m hm => by cases hm

theorem Animated.of_none (hid : o.id = none) (hfits : ClipFits sideNames o.staticProps) :
    Animated settings tracks o frame (propsAt settings s o frame) := by
  have hnone (property : String) : valueAt settings tracks o frame property = .ok none := by
    rw [valueAt, hid]
  refine ⟨fun property v => valueAt_isSome, fun values hvalues => ?_,
    fun property fault hfault => ?_⟩
  · have hall : values = fun _ => none := funext fun property =>
      (Except.ok.inj ((hnone property).symm.trans (hvalues property))).symm
    rw [hall]
    exact propsAt_of_unnamed (.inl hid) hfits
  · rw [hnone] at hfault
    cases hfault

end Composition

/-- A compiled document can be prepared for sampling. At every frame every object has its declared
properties with those changed that have a keyframe in some track of the object, to the values sampled
from the merged keyframes, in the clip part by part. Only an object whose id is the empty text keeps
what it declares, whatever tracks it has. -/
theorem compile_animates [Trig R] {s : Studio R} {folder : Place} {j : Json R} {doc : Document R}
    {c c' : Catalog R} {timeline : Timeline R} (settings : Settings R)
    (hread : readDocument Document.codec j = .ok doc)
    (h : (s.compile folder doc).Yields c timeline c') :
    ∃ sampler, Sampler.ofTracks timeline.tracks = .ok sampler ∧
      ∀ o ∈ Address.walk timeline.objects, ∀ frame : Number R,
        (o.id ≠ some "" → Composition.Animated settings timeline.tracks o frame
          (Composition.propsAt settings sampler o frame)) ∧
        (o.id = some "" → ∃ props, Composition.propsAt settings sampler o frame = .ok props ∧
          Composition.Overridden o.staticProps (fun _ => none) props) := by
  obtain ⟨expanded, flat, tracks, hstages, -, -⟩ := Studio.compile_yields.mp h
  obtain ⟨sampler, hsampler, hkept⟩ := Sampler.ofTracks_of_whole hstages.whole_starts
  refine ⟨sampler, hsampler, fun o ho frame => ?_⟩
  have hfits := (hstages.allPlain (Document.allPlain hread) o ho).clipFits
  refine ⟨fun hne => ?_, fun hid => Composition.propsAt_of_unnamed (.inr hid) hfits⟩
  cases hid : o.id with
  | none => exact .of_none hid hfits
  | some id =>
    have hfilled : id ≠ "" := fun h => hne (by rw [hid, h])
    obtain ⟨hdistinct, hsorted⟩ := hkept id
    exact .of_id hid hfilled hfits hstages.side_of_track hdistinct hsorted

/-- A document with a clipped rectangle under an id, whose place and clip are animated. -/
def clippedUnder (id : String) : Json Rat :=
  .obj [
    ("project", .obj [("width", .int 320), ("height", .int 240), ("fps", .int 30),
      ("frames", .int 60)]),
    ("objects", .arr [.obj [("type", .str "rect"), ("id", .str id), ("width", .int 10),
      ("height", .int 10), ("clip", .obj [("x", .int 1), ("y", .int 2)])]]),
    ("animations", .arr [
      .obj [("target", .str id), ("property", .str "x"),
        ("keyframes", .arr [.obj [("start", .int 0), ("value", .int 5)]])],
      .obj [("target", .str id), ("property", .str "clip.x"),
        ("keyframes", .arr [.obj [("start", .int 0), ("value", .int 3)]])]])]

/-- A clipped rectangle is moved, and so is its clip. -/
theorem clippedUnder_name_animated : ∃ doc timeline c' sampler,
    readDocument Document.codec (clippedUnder "r") = .ok doc ∧
      (bareStudio.compile ⟨[]⟩ doc).Yields ⟨⟨[]⟩, ⟨[], []⟩⟩ timeline c' ∧
      Address.ids timeline.objects = ["r"] ∧
      timeline.tracks.map (fun t => (t.target, t.property)) = [("r", "x"), ("r", "clip.x")] ∧
      Sampler.ofTracks timeline.tracks = .ok sampler ∧
      ∀ o ∈ Address.walk timeline.objects, ∀ frame : Number Rat, o.id ≠ some "" →
        @Composition.Animated Rat _ unturned bareStudio.settings timeline.tracks o frame
          (@Composition.propsAt Rat _ unturned bareStudio.settings sampler o frame) := by
  have hok : (readDocument Document.codec (clippedUnder "r")).toOption.any (fun doc =>
      ((bareStudio.compile ⟨[]⟩ doc).exec ⟨⟨[]⟩, ⟨[], []⟩⟩).1.toOption.any fun timeline =>
        decide (Address.ids timeline.objects = ["r"]) &&
          decide (timeline.tracks.map (fun t => (t.target, t.property)) =
            [("r", "x"), ("r", "clip.x")])) = true := by
    decide +kernel
  obtain ⟨doc, hread, hok⟩ := (Option.any_eq_true _ _).mp hok
  obtain ⟨timeline, c', hrun, hok⟩ := Run.yields_of_test _ hok
  obtain ⟨hids, htracks⟩ := Bool.and_eq_true_iff.mp hok
  have hread := toOption_eq_some.mp hread
  obtain ⟨sampler, hsampler, hframes⟩ :=
    @compile_animates Rat _ unturned _ _ _ _ _ _ _ bareStudio.settings hread hrun
  exact ⟨doc, timeline, c', sampler, hread, hrun, of_decide_eq_true hids, of_decide_eq_true htracks,
    hsampler, fun o ho frame => (hframes o ho frame).1⟩

/-- A clipped rectangle whose id is the empty text stays where it is, although it has a track of its
own. -/
theorem clippedUnder_empty_unmoved : ∃ doc timeline c' sampler o,
    readDocument Document.codec (clippedUnder "") = .ok doc ∧
      (bareStudio.compile ⟨[]⟩ doc).Yields ⟨⟨[]⟩, ⟨[], []⟩⟩ timeline c' ∧
      Sampler.ofTracks timeline.tracks = .ok sampler ∧ o ∈ Address.walk timeline.objects ∧
      ¬ @Composition.Animated Rat _ unturned bareStudio.settings timeline.tracks o (.int 0)
        (@Composition.propsAt Rat _ unturned bareStudio.settings sampler o (.int 0)) := by
  let _ : Trig Rat := unturned
  have hok : (readDocument Document.codec (clippedUnder "")).toOption.any (fun doc =>
      ((bareStudio.compile ⟨[]⟩ doc).exec ⟨⟨[]⟩, ⟨[], []⟩⟩).1.toOption.any fun timeline =>
        (Sampler.ofTracks timeline.tracks).toOption.any fun sampler =>
          (Address.walk timeline.objects).any fun o =>
            (timeline.tracks.all fun t => t.property == "x" || t.property == "clip.x") &&
            (Composition.valueAt bareStudio.settings timeline.tracks o (.int 0) "x").toOption.any
              Option.isSome &&
            (Composition.valueAt bareStudio.settings timeline.tracks o (.int 0)
              "clip.x").toOption.isSome &&
            (Composition.propsAt bareStudio.settings sampler o (.int 0)).toOption.any fun props =>
              (Members.get? "x" props).isNone) = true := by
    decide +kernel
  obtain ⟨doc, hread, hok⟩ := (Option.any_eq_true _ _).mp hok
  obtain ⟨timeline, c', hrun, hok⟩ := Run.yields_of_test _ hok
  obtain ⟨sampler, hsampler, hok⟩ := (Option.any_eq_true _ _).mp hok
  obtain ⟨o, ho, hok⟩ := List.any_eq_true.mp hok
  simp only [Bool.and_eq_true] at hok
  obtain ⟨⟨⟨hproperties, hx⟩, hclip⟩, hlost⟩ := hok
  obtain ⟨vx, hx, hsome⟩ := (Option.any_eq_true _ _).mp hx
  obtain ⟨vclip, hclip⟩ := Option.isSome_iff_exists.mp hclip
  obtain ⟨props, hprops, hlost⟩ := (Option.any_eq_true _ _).mp hlost
  rw [toOption_eq_some] at hx hclip hprops
  refine ⟨doc, timeline, c', sampler, o, toOption_eq_some.mp hread, hrun,
    toOption_eq_some.mp hsampler, ho, fun hanimated => ?_⟩
  have hvalues (property : String) : Returns
      (Composition.valueAt bareStudio.settings timeline.tracks o (.int 0) property) := by
    by_cases hnamed : property = "x" ∨ property = "clip.x"
    · rcases hnamed with rfl | rfl
      · exact ⟨vx, hx⟩
      · exact ⟨vclip, hclip⟩
    · refine ⟨none, Composition.valueAt_of_untouched fun t ht _ hproperty => hnamed ?_⟩
      simpa [hproperty] using List.all_eq_true.mp hproperties t ht
  choose values hvalues using hvalues
  obtain ⟨props', hprops', hoverridden⟩ := hanimated.changes values hvalues
  obtain rfl := Except.ok.inj (hprops.symm.trans hprops')
  have hmoved := hoverridden.plain "x" (by decide) (by decide +kernel)
  obtain rfl := Except.ok.inj (hx.symm.trans (hvalues "x"))
  obtain ⟨v, hv⟩ := Option.isSome_iff_exists.mp hsome
  rw [hv, Option.some_or] at hmoved
  rw [hmoved] at hlost
  cases hlost

end Storyboard
