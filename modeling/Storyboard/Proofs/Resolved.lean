import Storyboard.Proofs.Checks
import Storyboard.Proofs.Compilation
import Storyboard.Proofs.Expansion.Instance
import Storyboard.Proofs.Flattening.Addressing
import Storyboard.Proofs.Offsets
import Storyboard.Proofs.Tracks

namespace Storyboard

variable {R : Type} [Scalar R]

/-- What flattening leaves of a group: no animations, and whole frames for its window, which has a
start wherever it has a duration. -/
structure GroupInfo.Settled (info : GroupInfo R) : Prop where
  animations : info.animations = []
  resolved : info.resolved = []
  start : ∀ q, info.start = some q → ∃ n : Int, q = .number (.int n)
  duration : ∀ q, info.duration = some q → ∃ n : Int, q = .number (.int n)
  window : info.duration.isSome → info.start.isSome

omit [Scalar R] in
theorem GroupInfo.settled_empty : (GroupInfo.empty : GroupInfo R).Settled := by
  constructor <;> simp [GroupInfo.empty]

namespace Object

/-- Whether an object refers to a file. -/
def isReference : Object R → Bool
  | reference .. => true
  | _ => false

/-- The check of an object looks neither at what its id is nor at when a group starts. -/
theorem Valid.like {o o' : Object R} (h : o.Valid)
    (hmissing : o'.missingProperties = o.missingProperties) (hsizes : o'.sizes = o.sizes)
    (hopacity : o'.base.opacity = o.base.opacity) (hkind : o'.kind = o.kind)
    (hspeed : o'.groupInfo.speed = o.groupInfo.speed)
    (htransition : o'.groupInfo.transition = o.groupInfo.transition)
    (hduration : o'.groupInfo.duration.isSome = o.groupInfo.duration.isSome)
    (hid : o'.id.isSome = o.id.isSome) : o'.Valid where
  complete := hmissing ▸ h.complete
  sizes := hsizes ▸ h.sizes
  opacity := hopacity ▸ h.opacity
  speed := hspeed ▸ h.speed
  transition := by
    rw [htransition, hid]
    exact h.transition
  leave := by
    rw [htransition, hduration]
    exact h.leave
  component := by
    rw [hkind, hid]
    exact h.component

theorem Valid.withClip {o : Object R} (h : o.Valid) (clip : Option (Clip R)) :
    (o.withClip clip).Valid := by
  cases o <;> exact h.like rfl rfl rfl rfl rfl rfl rfl rfl

omit [Scalar R] in
theorem isReference_withClip (o : Object R) (clip : Option (Clip R)) :
    (o.withClip clip).isReference = o.isReference := by
  cases o <;> rfl

section

variable {settings : Settings R} {measurer : Measurer R}

theorem mem_walk_resolveAllClips {objects out : List (Object R)} {o' : Object R}
    (h : resolveAllClips settings measurer objects = .ok out) (ho' : o' ∈ Address.walk out) :
    ∃ o ∈ Address.walk objects, resolveClips settings measurer o = .ok o' := by
  induction objects using descent generalizing out with
  | nil =>
    cases h
    simp [Address.walk] at ho'
  | cons x rest ihChildren ihRest =>
    obtain ⟨y, others, hy, hothers, rfl⟩ := resolveAllClips_cons_eq_ok.mp h
    simp only [Address.walk_cons, List.cons_append, List.mem_cons, List.mem_append] at ho' ⊢
    rcases ho' with rfl | ho' | ho'
    · exact ⟨x, .inl rfl, hy⟩
    · obtain ⟨o, ho, hresolve⟩ := ihChildren (resolveClips_alike hy).2 ho'
      exact ⟨o, .inr (.inl ho), hresolve⟩
    · obtain ⟨o, ho, hresolve⟩ := ihRest hothers ho'
      exact ⟨o, .inr (.inr ho), hresolve⟩

/-- Clips do not matter to the check of an object. -/
theorem resolveClips_valid {o o' : Object R} (h : resolveClips settings measurer o = .ok o')
    (hvalid : o.Valid) : o'.Valid ∧ o'.isReference = o.isReference := by
  cases o with
  | shape b s e | reference b r e =>
    obtain ⟨clip, rfl⟩ := resolveClip_eq_ok h
    exact ⟨hvalid.withClip clip, isReference_withClip _ clip⟩
  | group b cs info e =>
    rw [resolveClips] at h
    obtain ⟨children, -, h⟩ := Outcome.bind_eq_ok.mp h
    obtain ⟨clip, rfl⟩ := resolveClip_eq_ok h
    have hgroup : (group b children info e).Valid := hvalid.like rfl rfl rfl rfl rfl rfl rfl rfl
    exact ⟨hgroup.withClip clip, isReference_withClip _ clip⟩

end

end Object

/-- Every reference becomes a group that stands for its file. -/
theorem Instance.isReference_expandedAll {fps : Number R} {lead : String} {offset : Int}
    {instances : List (Instance R)} {objects : List (Object R)}
    (h : expandedAll fps lead offset instances = .ok objects) :
    ∀ o ∈ Address.walk objects, o.isReference = false := by
  induction instances using forest generalizing lead offset objects with
  | nil =>
    cases h
    simp [Address.walk]
  | shape b s e rest ih =>
    obtain ⟨o, others, ho, hothers, rfl⟩ := expandedAll_cons_eq_ok.mp h
    cases ho
    rw [Address.walk_cons]
    exact List.forall_mem_cons.mpr ⟨rfl, ih hothers⟩
  | group b cs info e rest ihChildren ihRest =>
    obtain ⟨o, others, ho, hothers, rfl⟩ := expandedAll_cons_eq_ok.mp h
    obtain ⟨start, children, -, hchildren, rfl⟩ := expanded_group_eq_ok.mp ho
    rw [Address.walk_cons, List.cons_append, List.forall_mem_cons, List.forall_mem_append]
    exact ⟨rfl, ihChildren hchildren, ihRest hothers⟩
  | opened b r e place file cs rest ihChildren ihRest =>
    obtain ⟨o, others, ho, hothers, rfl⟩ := expandedAll_cons_eq_ok.mp h
    obtain ⟨start, children, resolved, -, hchildren, -, rfl⟩ := expanded_opened_eq_ok.mp ho
    rw [Address.walk_cons, List.cons_append, List.forall_mem_cons, List.forall_mem_append]
    exact ⟨rfl, ihChildren hchildren, ihRest hothers⟩

namespace Flattening

/-- An object of a flattened tree is an object of the tree, compiled on some level. -/
theorem mem_walk_absoluteAll {fps : Number R} {l : Level} {scope : TimeScope R}
    {objects compiled : List (Object R)} {c : Object R}
    (h : absoluteAll fps l scope objects = .ok compiled) (hc : c ∈ Address.walk compiled) :
    ∃ l' scope' o, o ∈ Address.walk objects ∧ absolute fps l' scope' o = .ok c := by
  induction objects using Object.descent generalizing l scope compiled with
  | nil =>
    cases h
    simp [Address.walk] at hc
  | cons x rest ihChildren ihRest =>
    obtain ⟨y, others, hy, hothers, rfl⟩ := absoluteAll_cons_eq_ok.mp h
    simp only [Address.walk_cons, List.cons_append, List.mem_cons, List.mem_append] at hc ⊢
    rcases hc with rfl | hc | hc
    · exact ⟨l, scope, x, .inl rfl, hy⟩
    · obtain ⟨own, hchildren, -⟩ := absolute_children hy
      obtain ⟨l', scope', o, ho, habsolute⟩ := ihChildren hchildren hc
      exact ⟨l', scope', o, .inr (.inl ho), habsolute⟩
    · obtain ⟨l', scope', o, ho, habsolute⟩ := ihRest hothers hc
      exact ⟨l', scope', o, .inr (.inr ho), habsolute⟩

theorem durationFrames_isSome {fps : Number R} {q : Option (Quantity R)} {duration : Option Int}
    (h : durationFrames fps q = .ok duration) : duration.isSome = q.isSome := by
  cases q with
  | none =>
    cases h
    rfl
  | some q =>
    obtain ⟨n, -, rfl⟩ := Outcome.map_eq_ok.mp h
    rfl

theorem settled_compiledInfo {fps : Number R} {info : GroupInfo R} {duration : Option Int}
    (start : Int) (h : durationFrames fps info.duration = .ok duration) :
    (compiledInfo info start duration).Settled where
  animations := rfl
  resolved := rfl
  start := by
    intro q hq
    rw [compiledInfo] at hq
    split at hq
    · exact ⟨start, (Option.some.inj hq).symm⟩
    · cases hq
  duration := by
    intro q hq
    obtain ⟨n, -, rfl⟩ := Option.map_eq_some_iff.mp hq
    exact ⟨n, rfl⟩
  window := by
    intro hwindow
    have hdeclared : info.duration.isSome = true := by
      rw [← durationFrames_isSome h]
      simpa [compiledInfo] using hwindow
    simp [compiledInfo, hdeclared]

/-- Flattening keeps an object valid, and settles it if it is a group. -/
theorem absolute_valid {fps : Number R} {l : Level} {scope : TimeScope R} {o c : Object R}
    (h : absolute fps l scope o = .ok c) (hvalid : o.Valid) :
    c.Valid ∧ c.isReference = o.isReference ∧ c.groupInfo.Settled := by
  have hid (b : Base R) : (l.fullId b.id).isSome = b.id.isSome := Option.isSome_map
  cases o with
  | shape b s e | reference b r e =>
    cases h
    exact ⟨hvalid.like rfl rfl rfl rfl rfl rfl rfl (hid b), rfl, GroupInfo.settled_empty⟩
  | group b cs info e =>
    obtain ⟨own, children, duration, -, -, hduration, rfl⟩ := absolute_group_eq_ok.mp h
    have hsome : (duration.map fun n => Quantity.number (R := R) (.int n)).isSome =
        info.duration.isSome := by
      rw [Option.isSome_map, durationFrames_isSome hduration]
    exact ⟨hvalid.like rfl rfl rfl rfl rfl rfl hsome (hid b), rfl,
      settled_compiledInfo own.start hduration⟩

end Flattening

/-- A compiled tree has no references, its groups are settled, its ids are distinct, and the check
of trees finds no problem in it. -/
theorem compile_resolved {s : Studio R} {folder : Place} {doc : Document R} {c c' : Catalog R}
    {timeline : Timeline R} (h : (s.compile folder doc).Yields c timeline c') :
    (∀ o ∈ Address.walk timeline.objects, o.isReference = false ∧ o.groupInfo.Settled) ∧
      (Address.ids timeline.objects).Nodup ∧
      Object.treeProblems timeline.objects "" = [] := by
  obtain ⟨expanded, flat, tracks, hstages, -, -⟩ := Studio.compile_yields.mp h
  obtain ⟨instances, -, hexpanded⟩ := Expansion.expandObjects_yields hstages.expands
  obtain ⟨hflat, hnodup, -⟩ := Flattening.flatten_yields hstages.flattens
  obtain ⟨hclips, -⟩ := resolveClipLengths_eq_ok hstages.clips
  have hall : ∀ o ∈ Address.walk timeline.objects,
      o.Valid ∧ o.isReference = false ∧ o.groupInfo.Settled := by
    intro o ho
    obtain ⟨o₁, ho₁, hresolve⟩ := Object.mem_walk_resolveAllClips hclips ho
    obtain ⟨l, scope, o₀, ho₀, habsolute⟩ := Flattening.mem_walk_absoluteAll hflat ho₁
    obtain ⟨hvalid₁, hkind₁, hsettled⟩ := Flattening.absolute_valid habsolute
      (Object.valid_of_checkTree hstages.checked ho₀)
    obtain ⟨hvalid, hkind⟩ := Object.resolveClips_valid hresolve hvalid₁
    refine ⟨hvalid, ?_, ?_⟩
    · rw [hkind, hkind₁]
      exact Instance.isReference_expandedAll hexpanded o₀ ho₀
    · rw [(Object.resolveClips_alike hresolve).1.groupInfo]
      exact hsettled
  have hids : (Address.ids timeline.objects).Nodup := by
    rw [Object.ids_resolveAllClips hclips]
    exact hnodup
  exact ⟨fun o ho => (hall o ho).2, hids,
    Object.treeProblems_of_nodup hids fun o ho => (hall o ho).1⟩

/-- A group that stands for a file, with a group in it, each with its start. -/
theorem paced_resolved : ∃ timeline c',
    (bareStudio.compile ⟨[]⟩ (pacedDocument 2)).Yields ⟨pacedFiles 3, ⟨[], []⟩⟩ timeline c' ∧
      (Address.walk timeline.objects).map (fun o => (o.id, o.groupInfo.start)) =
        [(some "k", some (.number (.int 10))), (some "k.g", some (.number (.int 17)))] ∧
      (∀ o ∈ Address.walk timeline.objects, o.isReference = false ∧ o.groupInfo.Settled) ∧
      (Address.ids timeline.objects).Nodup ∧ Object.treeProblems timeline.objects "" = [] := by
  have hok : ((bareStudio.compile ⟨[]⟩ (pacedDocument 2)).exec
      ⟨pacedFiles 3, ⟨[], []⟩⟩).1.toOption.any (fun timeline =>
        decide ((Address.walk timeline.objects).map (fun o => (o.id, o.groupInfo.start)) =
          [(some "k", some (.number (.int 10))), (some "k.g", some (.number (.int 17)))])) =
        true := by
    decide +kernel
  obtain ⟨timeline, c', hrun, hwalk⟩ := Run.yields_of_test _ hok
  exact ⟨timeline, c', hrun, of_decide_eq_true hwalk, compile_resolved hrun⟩

namespace Flattening

variable {d : Disk} {library : EffectLibrary R} {fps : Number R} {root : TimeScope R}
  {objects compiled : List (Object R)} {out : List (Track R)}

theorem EmitsEffect.inOrder {use : EffectUse R} {target : Object R} {start : Int}
    {frames : FrameMap R} (h : EmitsEffect d library fps use target start frames out) :
    ∀ t ∈ out, Keyframe.InOrder t.keyframes := by
  obtain ⟨effect, tracks, -, -, hall⟩ := h
  intro t' ht'
  obtain ⟨t, -, keyframes, hplaced, rfl⟩ := exists_related_of_mem hall ht'
  exact Track.placed_inOrder hplaced

theorem EmitsEntry.inOrder {path : String} {frames : FrameMap R} {entry : Entry R}
    (h : EmitsEntry d library fps objects path frames entry out) :
    ∀ t ∈ out, Keyframe.InOrder t.keyframes := by
  obtain ⟨target, -, h⟩ := h
  cases entry with
  | effect use =>
    obtain ⟨start, -, h⟩ := h
    exact h.inOrder
  | track t =>
    obtain ⟨keyframes, hplaced, rfl⟩ := h
    intro t' ht'
    obtain rfl := List.mem_singleton.mp ht'
    exact Track.placed_inOrder hplaced

/-- The keyframes of every track are put in order, whatever the track comes from. -/
theorem Source.Emits.inOrder {src : Source R} (h : src.Emits d library fps root objects out) :
    ∀ t ∈ out, Keyframe.InOrder t.keyframes := by
  obtain ⟨own, level, -, -, h⟩ := h
  rcases src with ⟨position, way, e | e | t | t⟩
  · exact EmitsEntry.inOrder h
  · exact EmitsEntry.inOrder h
  · obtain ⟨around, o, outer, c, -, -, -, path, -, h⟩ := h
    exact h.inOrder
  · obtain ⟨around, o, outer, c, n, -, -, -, -, path, -, h⟩ := h
    exact h.inOrder

/-- Every track of a flattened tree has the id of an object of the tree as its target, and keyframes
in order. -/
theorem flatten_tracks {entries : List (Entry R)} {speed : Option (Number R)}
    {tracks : List (Track R)} {library' : EffectLibrary R}
    (h : (flatten d fps objects entries speed).Yields library (compiled, tracks) library') :
    ∀ t ∈ tracks, t.target ∈ Address.ids compiled ∧ Keyframe.InOrder t.keyframes := by
  obtain ⟨hcompiled, -, hemitted⟩ := flatten_yields h
  intro t ht
  obtain ⟨src, hsrc, out, hout, hemits⟩ := hemitted.exists_source ht
  obtain ⟨c, hmeans, -, htargets⟩ := hemits.means
  obtain ⟨p, front, hw⟩ := hmeans.way hcompiled (sourcesOfAll_spec hsrc).1
  exact ⟨Address.mem_ids_of_way hw (htargets t hout), hemits.inOrder t hout⟩

end Flattening

/-- What a track is in a tree that it moves: the id of an object as its target, a property of the
object that the target leads to, and keyframes in order with easings that are accepted. -/
structure Track.Fits (objects : List (Object R)) (t : Track R) : Prop where
  target : t.target ∈ Address.ids objects
  property : ∃ o, Address.find objects t.target "" = some o ∧ t.property ∈ o.animatable
  keyframes : Keyframe.InOrder t.keyframes
  easings : ∀ k ∈ t.keyframes, ∀ context, Easing.checkOption context k.easing = .ok ()

namespace Studio.Stages

variable {s : Studio R} {folder : Place} {doc : Document R} {c c' : Catalog R}
  {timeline : Timeline R} {expanded flat : List (Object R)} {tracks : List (Track R)}

/-- All keyframes of a compiled timeline start at whole frames. -/
theorem whole_starts (h : s.Stages folder doc c timeline c' expanded flat tracks) :
    ∀ t ∈ timeline.tracks, ∀ k ∈ t.keyframes, ∃ n : Int, k.start = .number (.int n) := by
  obtain ⟨-, hresolved⟩ := resolveClipLengths_eq_ok h.clips
  intro t ht k hk
  obtain ⟨t₀, ht₀, hclip⟩ := exists_related_of_mem hresolved ht
  obtain ⟨-, hinOrder⟩ := Flattening.flatten_tracks h.flattens t₀ ht₀
  obtain ⟨-, -, hstarts⟩ := Track.resolveClip_eq_ok hclip
  obtain ⟨frames, hframes, -⟩ := hinOrder.of_starts hstarts
  have hmem : k.start ∈ t.keyframes.map Keyframe.start := List.mem_map_of_mem hk
  rw [hframes] at hmem
  obtain ⟨n, -, hn⟩ := List.mem_map.mp hmem
  exact ⟨n, hn.symm⟩

end Studio.Stages

/-- All tracks of a compiled document fit its tree. -/
theorem compile_fits {s : Studio R} {folder : Place} {doc : Document R} {c c' : Catalog R}
    {timeline : Timeline R} (h : (s.compile folder doc).Yields c timeline c') :
    ∀ t ∈ timeline.tracks, t.Fits timeline.objects := by
  obtain ⟨expanded, flat, tracks, hstages, -, -⟩ := Studio.compile_yields.mp h
  obtain ⟨hclips, hresolved⟩ := resolveClipLengths_eq_ok hstages.clips
  intro t ht
  obtain ⟨t₀, ht₀, hclip⟩ := exists_related_of_mem hresolved ht
  obtain ⟨htarget₀, hinOrder₀⟩ := Flattening.flatten_tracks hstages.flattens t₀ ht₀
  obtain ⟨htarget, -, hstarts⟩ := Track.resolveClip_eq_ok hclip
  obtain ⟨o, hfind, hcan, heasings⟩ :=
    Track.check_eq_ok.mp (Track.checkAll_eq_ok.mp hstages.fits t ht)
  refine ⟨?_, ⟨o, hfind, Object.mem_animatable.mpr hcan⟩, hinOrder₀.of_starts hstarts,
    fun k hk context => Easing.checkOption_eq_ok.mpr (heasings k hk)⟩
  rw [Object.ids_resolveAllClips hclips, htarget]
  exact htarget₀

/-- The animation of the file moves the group in it, from the frame at which the file starts. -/
theorem paced_fits : ∃ timeline c',
    (bareStudio.compile ⟨[]⟩ (pacedDocument 2)).Yields ⟨pacedFiles 3, ⟨[], []⟩⟩ timeline c' ∧
      timeline.tracks.map (fun t => (t.target, t.property, t.keyframes.map Keyframe.start)) =
        [("k.g", "opacity", [.number (.int 13)])] ∧
      ∀ t ∈ timeline.tracks, t.Fits timeline.objects := by
  have hok : ((bareStudio.compile ⟨[]⟩ (pacedDocument 2)).exec
      ⟨pacedFiles 3, ⟨[], []⟩⟩).1.toOption.any (fun timeline =>
        decide (timeline.tracks.map (fun t =>
          (t.target, t.property, t.keyframes.map Keyframe.start)) =
            [("k.g", "opacity", [.number (.int 13)])])) = true := by
    decide +kernel
  obtain ⟨timeline, c', hrun, htracks⟩ := Run.yields_of_test _ hok
  exact ⟨timeline, c', hrun, of_decide_eq_true htracks, compile_fits hrun⟩

end Storyboard
