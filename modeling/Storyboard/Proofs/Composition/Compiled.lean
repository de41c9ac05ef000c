import Storyboard.Proofs.Composition.Drawing
import Storyboard.Proofs.Composition.Extras
import Storyboard.Proofs.Resolved
import Storyboard.Recording

namespace Storyboard

open Outcome

variable {R : Type} [Scalar R]

/-- Time values of a group, as far as there are any, are numbers. -/
def GroupInfo.Timed {R : Type} (info : GroupInfo R) : Prop :=
  (∀ q, info.start = some q → ∃ n, q = .number n) ∧
    ∀ q, info.duration = some q → ∃ n, q = .number n

theorem GroupInfo.timed_empty {R : Type} : GroupInfo.Timed (.empty : GroupInfo R) :=
  ⟨fun _ h => (by cases h), fun _ h => (by cases h)⟩

theorem Composition.ranged_isVisible {info : GroupInfo R} (h : info.Timed) (frame : Number R) :
    Outcome.Ranged R (isVisible info frame) := by
  have hedge (n : Number R) : Outcome.Ranged R (windowEdge (.number n)) :=
    (Number.ranged_toReal n).map Number.real
  rw [isVisible]
  split
  · exact .pure _
  · rename_i start hstart
    obtain ⟨n, rfl⟩ := h.1 start hstart
    refine (hedge n).bind fun first _ => ?_
    split
    · exact .pure _
    · split
      · exact .pure _
      · rename_i duration hduration
        obtain ⟨m, rfl⟩ := h.2 duration hduration
        refine (hedge m).bind fun length _ => ?_
        exact (Number.ranged_lift _ _ first length).bind fun stop _ => .pure _

namespace Flattening

omit [Scalar R] in
theorem timed_compiledInfo (info : GroupInfo R) (start : Int) (duration : Option Int) :
    (compiledInfo info start duration).Timed := by
  refine ⟨fun q hq => ?_, fun q hq => ?_⟩
  · simp only [compiledInfo] at hq
    split at hq
    · cases hq
      exact ⟨_, rfl⟩
    · cases hq
  · obtain ⟨n, -, rfl⟩ := Option.map_eq_some_iff.mp hq
    exact ⟨_, rfl⟩

theorem timed_absoluteAll {fps : Number R} {l : Level} {scope : TimeScope R}
    {objects compiled : List (Object R)} (h : absoluteAll fps l scope objects = .ok compiled) :
    ∀ o ∈ Address.walk compiled, o.groupInfo.Timed := by
  induction objects using Object.forest generalizing l scope compiled with
  | nil =>
    cases h
    exact fun o ho => by simp [Address.walk] at ho
  | shape b s e rest ih | reference b r e rest ih =>
    obtain ⟨c, others, hc, hothers, rfl⟩ := absoluteAll_cons_eq_ok.mp h
    cases hc
    rw [Address.walk_cons, List.forall_mem_append, List.forall_mem_cons]
    exact ⟨⟨GroupInfo.timed_empty, fun o ho => by simp [Address.walk, Object.children] at ho⟩,
      ih hothers⟩
  | group b cs info e rest ihChildren ihRest =>
    obtain ⟨c, others, hc, hothers, rfl⟩ := absoluteAll_cons_eq_ok.mp h
    obtain ⟨own, children, duration, -, hchildren, -, rfl⟩ := absolute_group_eq_ok.mp hc
    rw [Address.walk_cons, List.forall_mem_append, List.forall_mem_cons]
    exact ⟨⟨timed_compiledInfo info own.start duration, ihChildren hchildren⟩, ihRest hothers⟩

end Flattening

omit [Scalar R] in
theorem Object.canAnimate_part (o : Object R) :
    o.canAnimate "anchor" = false ∧ o.canAnimate "clip" = false := by
  have hkind (name : String) (hname : name = "anchor" ∨ name = "clip") :
      name ∉ kindProperties o.kind := by
    rcases hname with rfl | rfl <;> unfold kindProperties <;> split <;> decide
  constructor
  · simp [canAnimate, commonProperties, hkind "anchor" (.inl rfl)]
  · simp [canAnimate, commonProperties, hkind "clip" (.inr rfl)]

namespace Studio.Stages

variable {s : Studio R} {folder : Place} {doc : Document R} {c c' : Catalog R}
  {timeline : Timeline R} {expanded flat : List (Object R)} {tracks : List (Track R)}

theorem timed (h : s.Stages folder doc c timeline c' expanded flat tracks) :
    ∀ o ∈ Address.walk timeline.objects, o.groupInfo.Timed := by
  obtain ⟨habsolute, -, -⟩ := Flattening.flatten_yields h.flattens
  obtain ⟨hresolved, -⟩ := resolveClipLengths_eq_ok h.clips
  intro o ho
  obtain ⟨o₀, ho₀, halike⟩ := exists_related_of_mem (Object.walk_resolveAllClips hresolved) ho
  rw [halike.groupInfo]
  exact Flattening.timed_absoluteAll habsolute o₀ ho₀

/-- Neither the anchor nor a clip as a whole is ever animated. -/
theorem property_ne (h : s.Stages folder doc c timeline c' expanded flat tracks) :
    ∀ t ∈ timeline.tracks, t.property ≠ "anchor" ∧ t.property ≠ "clip" := by
  intro t ht
  obtain ⟨o, -, hcan, -⟩ := Track.check_eq_ok.mp (Track.checkAll_eq_ok.mp h.fits t ht)
  constructor
  · intro hname
    rw [hname, o.canAnimate_part.1] at hcan
    cases hcan
  · intro hname
    rw [hname, o.canAnimate_part.2] at hcan
    cases hcan

end Studio.Stages

/-- The properties that only numbers can stand for. -/
def numberNames : List String :=
  ["x", "y", "opacity", "rotation", "scale", "scaleX", "scaleY", "clip.x", "clip.y"]

/-- A text can stand for a value of a property. -/
structure TextSuits (R : Type) [Scalar R] (property s : String) : Prop where
  number : property ∉ numberNames
  length : property ∈ measuredNames →
    (readReal? (R := R) s.toList).isSome ∨ property = "size" ∧ s = ""
  blur : property = "blur" → s = ""

/-- All values of keyframes suit their properties, and no clip has a text for a place. -/
structure Timeline.Suited (t : Timeline R) : Prop where
  keyframes : ∀ track ∈ t.tracks, ∀ k ∈ track.keyframes, ∀ s, k.value = .text s →
    TextSuits R track.property s
  clips : ∀ o ∈ Address.walk t.objects, ∀ c, o.base.clip = some c → ∀ name s,
    c.side? name ≠ some (.text s)

namespace Composition

variable {t : Timeline R} {o : Object R} {props : Members R}

theorem kind_of_size {kind : String} (h : "size" ∈ lengthNames kind) : kind = "text" := by
  unfold lengthNames at h
  split at h <;> simp_all

theorem Sourced.suits (hsuited : t.Suited) {property s : String}
    (h : Sourced t.tracks o property (.str s)) : TextSuits R property s := by
  obtain ⟨id, k, q, -, ⟨track, htrack, -, rfl, hk⟩, hheld, hq⟩ := h
  cases q with
  | number n => cases hq
  | text s' =>
    cases hq
    rcases hheld with ⟨n, hn⟩ | hvalue
    · cases hn
    · exact hsuited.keyframes track htrack k hk s hvalue.symm

theorem Values.textSuits (h : Values t.tracks o props) (hsuited : t.Suited) {name s : String}
    (hname : name ∈ drawnNames ++ lengthNames o.kind)
    (hget : Members.get? name props = some (.str s)) : TextSuits R name s := by
  rcases h.number _ (Members.mem_of_get? hget) hname with ⟨n, hn⟩ | hsourced
  · cases hn
  · exact hsourced.suits hsuited

theorem Values.not_hasText (h : Values t.tracks o props) (hsuited : t.Suited) {name : String}
    (hdrawn : name ∈ drawnNames) (hname : name ∈ numberNames) : ¬ HasText props name := by
  intro htext
  obtain ⟨s, hs⟩ := htext
  exact (h.textSuits hsuited (List.mem_append_left _ hdrawn) hs).number hname

theorem Values.not_hasText_side (h : Values t.tracks o props) (hsuited : t.Suited)
    (ho : o ∈ Address.walk t.objects) {ms : Members R}
    (hms : Members.get? "clip" props = some (.obj ms)) {name : String} (hname : name ∈ ["x", "y"]) :
    ¬ HasText ms name := by
  intro htext
  obtain ⟨s, hs⟩ := htext
  obtain ⟨_, hsame, hparts⟩ := h.clip _ (Members.mem_of_get? hms) rfl
  cases hsame
  have hname := List.mem_pair.mp hname
  rcases hparts _ (Members.mem_of_get? hs) hname with ⟨c, q, hc, hq, hvalue⟩ | hsourced
  · cases q with
    | number n => cases hvalue
    | text s' =>
      cases hvalue
      exact hsuited.clips o ho c hc name s hq
  · refine (hsourced.suits hsuited).number ?_
    rcases hname with rfl | rfl <;> simp [numberNames]

/-- Values that suit their properties have no text where drawing needs a number. -/
theorem Values.not_misfit (h : Values t.tracks o props) (hsuited : t.Suited)
    (ho : o ∈ Address.walk t.objects) (f : Fault) : ¬ Misfit o.kind props f := by
  intro hmisfit
  cases hmisfit with
  | scale hscaled =>
    refine hscaled ⟨?_, fun _ => ⟨?_, fun _ => ?_⟩⟩ <;>
      exact h.not_hasText hsuited (by decide) (by decide)
  | number _ hname htext =>
    refine h.not_hasText hsuited (placeNames_drawn _ hname) ?_ htext
    exact (by decide : ∀ name ∈ placeNames, name ∈ numberNames) _ hname
  | opacity _ htext => exact h.not_hasText hsuited (by decide) (by decide) htext
  | length _ hname hs hempty hread =>
    have hsuits := h.textSuits hsuited (List.mem_append_right _ hname) hs
    rcases hsuits.length (lengthNames_subset _ hname) with hnumeral | ⟨rfl, hnone⟩
    · rw [hread] at hnumeral
      cases hnumeral
    · exact hempty (kind_of_size hname) hnone
  | side _ hname hclip htext => exact h.not_hasText_side hsuited ho hclip hname htext
  | blur _ _ htext =>
    obtain ⟨s, hs, hne⟩ := htext
    exact hne ((h.textSuits hsuited (List.mem_append_left _ (by decide)) hs).blur rfl)

end Composition

section

variable [Trig R]

/-- How a frame of a compiled timeline comes about. -/
structure Renderer.Composes (r : Renderer R) (frame : Int) : Prop where
  /-- The values of an object come from what it declares and from keyframes. -/
  values : ∀ o ∈ Address.walk r.timeline.objects, ∀ props,
    Composition.propsAt r.settings r.sampler o (.int frame) = .ok props →
      Composition.Values r.timeline.tracks o props
  /-- An object has values unless there is no way between two of its keyframes. -/
  sampled : ∀ o ∈ Address.walk r.timeline.objects,
    Only (fun f => ∃ id, o.id = some id ∧
      Sampler.Breaks r.settings r.timeline.tracks id frame f)
      (Composition.propsAt r.settings r.sampler o (.int frame))
  /-- There is a list of what is drawn unless an object that drawing looks at prevents it. -/
  drawn : Exactly (fun f => ∃ o,
    Composition.Reached r.settings r.sampler (.int frame) r.timeline.objects o ∧
      Composition.Undrawn r.settings r.measurer r.sampler (.int frame) o f)
    (r.sampleFrame (.int frame))
  /-- An object prevents it with a text for a number, or else with a number out of range. -/
  ranged : ∀ o ∈ Address.walk r.timeline.objects, ∀ f,
    Composition.Undrawn r.settings r.measurer r.sampler (.int frame) o f →
      (∃ props, Composition.propsAt r.settings r.sampler o (.int frame) = .ok props ∧
        Composition.Misfit o.kind props f) ∨ f.Sampled r.settings

theorem Renderer.Composes.only {r : Renderer R} {frame : Int} (h : r.Composes frame)
    (hsuited : r.timeline.Suited) :
    Only (Fault.Sampled r.settings) (r.sampleFrame (.int frame)) := by
  refine h.drawn.only.mono fun f hf => ?_
  obtain ⟨o, hreached, hundrawn⟩ := hf
  have ho := hreached.mem_walk
  rcases h.ranged o ho f hundrawn with ⟨props, hprops, hmisfit⟩ | hsampled
  · exact absurd hmisfit ((h.values o ho props hprops).not_misfit hsuited ho f)
  · exact hsampled

/-- The frames of a timeline that goes through all stages of its compilation. -/
theorem Studio.Stages.composes {s : Studio R} {folder : Place} {doc : Document R}
    {c c' : Catalog R} {timeline : Timeline R} {expanded flat : List (Object R)}
    {tracks : List (Track R)} (h : s.Stages folder doc c timeline c' expanded flat tracks)
    (hplain : ∀ o ∈ Address.walk timeline.objects, o.Plain) {measurer : Measurer R}
    (hmeasurer : ∀ t, Returns (measurer t)) (frame : Int) :
    Renderer.Composes ⟨s.settings, measurer, timeline, Sampler.arranged timeline.tracks⟩ frame := by
  have hfrom := Sampler.From.arranged timeline.tracks
  have hvalues : ∀ o ∈ Address.walk timeline.objects, ∀ props,
      Composition.propsAt s.settings (Sampler.arranged timeline.tracks) o (.int frame) =
        .ok props → Composition.Values timeline.tracks o props := fun o ho props hprops =>
    Composition.values_of_propsAt hfrom (hplain o ho) h.property_ne hprops
  have hsampled : ∀ o ∈ Address.walk timeline.objects, Only (fun f => ∃ id, o.id = some id ∧
      Sampler.Breaks s.settings timeline.tracks id frame f)
      (Composition.propsAt s.settings (Sampler.arranged timeline.tracks) o (.int frame)) :=
    fun o ho => Composition.only_propsAt hfrom (hplain o ho) h.property_ne h.whole_starts frame
  refine ⟨hvalues, hsampled, ?_, fun o ho f hundrawn => ?_⟩
  · exact Composition.exactly_compose hmeasurer fun o ho props hprops =>
      (hvalues o ho props hprops).shaped
  · cases hundrawn with
    | window hgroup hwindow =>
      have htimed := h.timed o ho
      rw [hgroup] at htimed
      exact .inr (.inl (Composition.ranged_isVisible htimed _ _ hwindow))
    | sampled _ hrefused =>
      obtain ⟨id, -, property, a, b, -, -, hbreaks⟩ := hsampled o ho f hrefused
      exact .inr hbreaks.sampled
    | misfit _ hprops hmisfit => exact .inl ⟨_, hprops, hmisfit⟩
    | strain _ _ hstrain => exact .inr (.inl hstrain.ranged)

/-- A compiled document can be prepared for sampling, and at every frame there is a list of what is
drawn unless an object that drawing looks at has a text for a number, or a number is out of the range
of the arithmetic. Where all texts suit the properties for which they stand only numbers out of range
are left, and in an arithmetic without a range there is a list at every frame. -/
theorem compile_composes {s : Studio R} {folder : Place} {j : Json R}
    {doc : Document R} {c c' : Catalog R} {timeline : Timeline R} {measurer : Measurer R}
    (hread : readDocument Document.codec j = .ok doc)
    (h : (s.compile folder doc).Yields c timeline c') (hmeasurer : ∀ t, Returns (measurer t)) :
    ∃ r, Renderer.ofTimeline s.settings measurer timeline = .ok r ∧ ∀ frame : Int,
      r.Composes frame ∧
      (timeline.Suited → Only (Fault.Sampled s.settings) (r.sampleFrame (.int frame))) ∧
      (timeline.Suited → ¬ Limited R → (Number.int 0).lt s.settings.bezierError = true →
        Returns (r.sampleFrame (.int frame))) := by
  obtain ⟨expanded, flat, tracks, hstages, -, -⟩ := Studio.compile_yields.mp h
  have hplain := hstages.allPlain (Document.allPlain hread)
  have hsampler : Sampler.ofTracks timeline.tracks = .ok (Sampler.arranged timeline.tracks) := by
    refine Sampler.ofTracks_of_ordered fun t ht k hk => ?_
    obtain ⟨n, hn⟩ := hstages.whole_starts t ht k hk
    exact ⟨_, hn, Number.isOrdered_int n⟩
  refine ⟨⟨s.settings, measurer, timeline, Sampler.arranged timeline.tracks⟩,
    by rw [Renderer.ofTimeline, hsampler]; rfl, fun frame => ?_⟩
  have hcomposes := hstages.composes hplain hmeasurer frame
  exact ⟨hcomposes, hcomposes.only, fun hsuited => (hcomposes.only hsuited).returns_of_sampled⟩

end

/-- A document with a rectangle and one value for its horizontal place. -/
def placedAt (value : Json Rat) : Json Rat :=
  .obj [
    ("project", .obj [("width", .int 320), ("height", .int 240), ("fps", .int 30),
      ("frames", .int 60)]),
    ("objects", .arr [.obj [("type", .str "rect"), ("id", .str "r"), ("width", .int 10),
      ("height", .int 10)]]),
    ("animations", .arr [.obj [("target", .str "r"), ("property", .str "x"),
      ("keyframes", .arr [.obj [("start", .int 0), ("value", value)]])]])]

/-- A rectangle is drawn at a number. -/
theorem placedAt_number_drawn : ∃ doc timeline c' r,
    readDocument Document.codec (placedAt (.int 5)) = .ok doc ∧
      (bareStudio.compile ⟨[]⟩ doc).Yields ⟨⟨[]⟩, ⟨[], []⟩⟩ timeline c' ∧
      Renderer.ofTimeline bareStudio.settings bareStudio.measurer timeline = .ok r ∧
      timeline.Suited ∧ Returns (@Renderer.sampleFrame Rat _ unturned r (.int 7)) := by
  have hok : (readDocument Document.codec (placedAt (.int 5))).toOption.any (fun doc =>
      ((bareStudio.compile ⟨[]⟩ doc).exec ⟨⟨[]⟩, ⟨[], []⟩⟩).1.toOption.any fun timeline =>
        (timeline.tracks.all fun t => t.keyframes.all fun k => k.value = .number (.int 5)) &&
          (Address.walk timeline.objects).all fun o => o.base.clip.isNone) = true := by
    decide +kernel
  obtain ⟨doc, hread, hok⟩ := (Option.any_eq_true _ _).mp hok
  obtain ⟨timeline, c', hrun, hok⟩ := Run.yields_of_test _ hok
  obtain ⟨hnumbers, hclips⟩ := Bool.and_eq_true_iff.mp hok
  have hsuited : timeline.Suited := by
    refine ⟨fun t ht k hk s hs => ?_, fun o ho c hc => ?_⟩
    · have hnumber := List.all_eq_true.mp (List.all_eq_true.mp hnumbers t ht) k hk
      rw [hs] at hnumber
      cases of_decide_eq_true hnumber
    · have hnone := List.all_eq_true.mp hclips o ho
      rw [hc] at hnone
      cases hnone
  have hread := toOption_eq_some.mp hread
  have herror : (Number.int 0).lt bareStudio.settings.bezierError = true := by
    decide +kernel
  obtain ⟨r, hr, hframes⟩ :=
    @compile_composes Rat _ unturned _ _ _ _ _ _ _ bareStudio.measurer hread hrun
      (fun _ => returns_ok _)
  exact ⟨doc, timeline, c', r, hread, hrun, hr, hsuited,
    (hframes 7).2.2 hsuited not_limited_rat herror⟩

/-- A rectangle is compiled with a text for its place, and then it cannot be drawn. -/
theorem placedAt_text_refused : ∃ doc timeline c' r,
    readDocument Document.codec (placedAt (.str "fast")) = .ok doc ∧
      (bareStudio.compile ⟨[]⟩ doc).Yields ⟨⟨[]⟩, ⟨[], []⟩⟩ timeline c' ∧
      Renderer.ofTimeline bareStudio.settings bareStudio.measurer timeline = .ok r ∧
      (@Renderer.sampleFrame Rat _ unturned r (.int 0)).map List.length =
        .error (.numeric .operand) := by
  have hok : (readDocument Document.codec (placedAt (.str "fast"))).toOption.any (fun doc =>
      ((bareStudio.compile ⟨[]⟩ doc).exec ⟨⟨[]⟩, ⟨[], []⟩⟩).1.toOption.any fun timeline =>
        (Renderer.ofTimeline bareStudio.settings bareStudio.measurer timeline).toOption.any
          fun r => decide ((@Renderer.sampleFrame Rat _ unturned r (.int 0)).map List.length =
            .error (.numeric .operand))) = true := by
    decide +kernel
  obtain ⟨doc, hread, hok⟩ := (Option.any_eq_true _ _).mp hok
  obtain ⟨timeline, c', hrun, hok⟩ := Run.yields_of_test _ hok
  obtain ⟨r, hr, hrefused⟩ := (Option.any_eq_true _ _).mp hok
  exact ⟨doc, timeline, c', r, toOption_eq_some.mp hread, hrun, toOption_eq_some.mp hr,
    of_decide_eq_true hrefused⟩

end Storyboard
