import Storyboard.Proofs.Pace.Objects
import Storyboard.Proofs.Percentages
import Storyboard.Proofs.Rereading.Objects
import Storyboard.Proofs.Resolved

namespace Storyboard

variable {R : Type} [Scalar R]

theorem Number.eq_of_div_real {x y : R} {n : Number R}
    (h : (Number.real x).div (.real y) = .ok n) : n = .real (Scalar.div x y) := by
  change (if (Scalar.exact y).eq (.finite 0) then numericFault .zeroDivision
    else pure (Number.real (Scalar.div x y)) : Outcome (Number R)) = .ok n at h
  split at h
  · cases h
  · exact (Outcome.pure_eq_ok.mp h).symm

namespace Percentage

/-- A percentage becomes its part of a side, and anything else stays. -/
inductive Replaced (side : R) : Quantity R → Quantity R → Prop where
  | same {q : Quantity R} (h : isPercent q = false) : Replaced side q q
  | share (f : Figure) (h : f.lineBreak = false) :
    Replaced side (.text f.text) (.number (.real (f.share side)))

theorem Replaced.whole {side : R} {q q' : Quantity R} (h : Replaced side q q') :
    isPercent q' = false := by
  cases h with
  | same h => exact h
  | share f h => rfl

/-- What a percentage becomes, if it becomes anything. -/
theorem replaced_of_resolve {side : R} {q q' : Quantity R}
    (h : resolve q (.real side) = .ok q') : Replaced side q q' := by
  by_cases hpercent : isPercent q = true
  · cases q with
    | number n => cases hpercent
    | text s =>
      obtain ⟨f, rfl⟩ := isPercentage_iff.mp hpercent
      have hfigure : isPercentage f.text = true := hpercent
      rw [resolve, if_pos hfigure, Percentage.part_text f] at h
      cases hbreak : f.lineBreak with
      | true =>
        rw [hbreak] at h
        cases h
      | false =>
        rw [hbreak] at h
        obtain ⟨n, hn, rfl⟩ := Outcome.map_eq_ok.mp h
        obtain ⟨share, hshare, hn⟩ := Outcome.bind_eq_ok.mp hn
        obtain rfl := Number.eq_of_div_real hshare
        rw [Number.mul_real (Number.toReal_real side)] at hn
        cases hn
        exact .share f hbreak
  · rw [Bool.not_eq_true] at hpercent
    rw [resolve_of_isPercent hpercent] at h
    cases h
    exact .same hpercent

end Percentage

open Percentage (Replaced isPercent)

/-- The animated properties that are sides of a clip. -/
def clipProperties : List String := ["clip.x", "clip.y", "clip.width", "clip.height"]

/-- A clip with each percentage replaced by its part of a size: of the width for what lies across,
of the height for what lies down. -/
structure Clip.Resolved (size : Size R) (c c' : Clip R) : Prop where
  x : Option.Rel (Replaced size.width) c.x c'.x
  width : Option.Rel (Replaced size.width) c.width c'.width
  y : Option.Rel (Replaced size.height) c.y c'.y
  height : Option.Rel (Replaced size.height) c.height c'.height
  extras : c'.extras = c.extras

/-- The sides that a clip gives. -/
def Clip.sides (c : Clip R) : List (Quantity R) :=
  c.x.toList ++ c.y.toList ++ c.width.toList ++ c.height.toList

/-- Two objects of which the clip of the first has become that of the second: its percentages are
parts of the size that the first declares. -/
inductive Object.ClipResolved (settings : Settings R) (measurer : Measurer R) (o o' : Object R) :
    Prop where
  | none (h : o.base.clip = none) (h' : o'.base.clip = none)
  | some {c c' : Clip R} {size : Size R} (h : o.base.clip = some c) (h' : o'.base.clip = some c')
    (hsize : o.measure settings measurer = .ok size) (hclip : c.Resolved size c')

/-- The size that the target of a track declares, a square of the default side if there is no such
target. -/
inductive Track.Sized (settings : Settings R) (measurer : Measurer R) (objects : List (Object R))
    (t : Track R) : Size R → Prop where
  | found {o : Object R} {size : Size R} (hfind : Address.find objects t.target "" = some o)
    (hsize : o.measure settings measurer = .ok size) : Sized settings measurer objects t size
  | missing (hfind : Address.find objects t.target "" = none) :
    Sized settings measurer objects t ⟨defaultSide, defaultSide⟩

/-- What becomes of a track: where it animates a side of a clip, the percentages of its keyframes
are parts of the size that its target declares. -/
inductive Track.Resolved (settings : Settings R) (measurer : Measurer R)
    (objects : List (Object R)) (t : Track R) : Track R → Prop where
  | other (h : t.property ∉ clipProperties) : Resolved settings measurer objects t t
  | whole (h : ∀ k ∈ t.keyframes, isPercent k.value = false) :
    Resolved settings measurer objects t t
  | parts {name : String} {size : Size R} {length : R} {keyframes : List (Keyframe R)}
    (hname : t.property = "clip." ++ name)
    (hsize : t.Sized settings measurer objects size)
    (hlength : size.along name = some length)
    (h : List.Forall₂ (fun k k' => ∃ q, Replaced length k.value q ∧ k' = { k with value := q })
      t.keyframes keyframes) :
    Resolved settings measurer objects t { t with keyframes := keyframes }

namespace Object

mutual

/-- An object without the clips of itself and of all that it holds. -/
def unclipped : Object R → Object R
  | .group b cs info e => .group { b with clip := none } (unclippedAll cs) info e
  | .shape b s e => .shape { b with clip := none } s e
  | .reference b r e => .reference { b with clip := none } r e

def unclippedAll : List (Object R) → List (Object R)
  | [] => []
  | o :: rest => unclipped o :: unclippedAll rest

end

omit [Scalar R] in
theorem withClip_self {o : Object R} {clip : Option (Clip R)} (h : o.base.clip = clip) :
    o.withClip clip = o := by
  subst h
  cases o <;> rfl

omit [Scalar R] in
theorem unclipped_withClip (o : Object R) (clip : Option (Clip R)) :
    (o.withClip clip).unclipped = o.unclipped := by
  cases o <;> rfl

end Object

/-- Every side of a clip is one of the sides that it gives. -/
theorem Clip.resolve_eq_ok {c c' : Clip R} {size : Size R} (h : c.resolve size = .ok c') :
    c.Resolved size c' := by
  have hside {q q' : Option (Quantity R)} {length : R} (hq : resolveSide q length = .ok q') :
      Option.Rel (Replaced length) q q' := by
    cases q with
    | none =>
      cases hq
      exact .none
    | some q =>
      obtain ⟨q', hq', rfl⟩ := Outcome.map_eq_ok.mp hq
      exact .some (Percentage.replaced_of_resolve hq')
  obtain ⟨x, hx, h⟩ := Outcome.bind_eq_ok.mp h
  obtain ⟨width, hwidth, h⟩ := Outcome.bind_eq_ok.mp h
  obtain ⟨y, hy, h⟩ := Outcome.bind_eq_ok.mp h
  obtain ⟨height, hheight, h⟩ := Outcome.bind_eq_ok.mp h
  rw [Outcome.pure_eq_ok] at h
  subst h
  exact ⟨hside hx, hside hwidth, hside hy, hside hheight, rfl⟩

/-- A clip without percentages. -/
def Clip.Whole (c : Clip R) : Prop := ∀ q ∈ c.sides, isPercent q = false

theorem Clip.Resolved.whole {c c' : Clip R} {size : Size R} (h : c.Resolved size c') :
    c'.Whole := by
  have hside {q q' : Option (Quantity R)} {length : R} (hq : Option.Rel (Replaced length) q q') :
      ∀ p ∈ q'.toList, isPercent p = false := by
    cases hq with
    | none => simp
    | some hreplaced => simpa using hreplaced.whole
  intro q hq
  simp only [sides, List.mem_append] at hq
  rcases hq with ((hq | hq) | hq) | hq
  · exact hside h.x q hq
  · exact hside h.y q hq
  · exact hside h.width q hq
  · exact hside h.height q hq

theorem Object.whole_of_clipResolved {settings : Settings R} {measurer : Measurer R}
    {o o' : Object R} (h : o.ClipResolved settings measurer o') {c' : Clip R}
    (hc' : o'.base.clip = some c') : c'.Whole := by
  cases h with
  | none hclip hclip' =>
    rw [hclip'] at hc'
    cases hc'
  | some hclip hclip' hsize hc =>
    obtain rfl := Option.some_inj.mp (hclip'.symm.trans hc')
    exact hc.whole

theorem Clip.Whole.resolve {c : Clip R} (h : c.Whole) (size : Size R) : c.resolve size = .ok c := by
  have hside {q : Option (Quantity R)} (length : R) (hq : ∀ p ∈ q.toList, p ∈ c.sides) :
      resolveSide q length = .ok q := by
    cases q with
    | none => rfl
    | some q => rw [resolveSide, Percentage.resolve_of_isPercent (h q (hq q (by simp)))]; rfl
  rw [Clip.resolve, hside, hside, hside, hside]
  · rfl
  all_goals
    intro p hp
    simp [sides, hp]

/-- The sides of clips are the animated properties under `clip`. -/
theorem eq_of_clipProperty? {property name : String} (h : clipProperty? property = some name) :
    property = "clip." ++ name ∧ name ∈ sideNames := by
  rw [clipProperty?] at h
  split at h
  · rename_i hlead
    obtain ⟨rest, hrest⟩ := List.isPrefixOf_iff_prefix.mp hlead
    rw [← hrest, List.drop_left] at h
    dsimp only at h
    split at h
    · rename_i hside
      cases h
      refine ⟨?_, by simpa [sideNames] using hside⟩
      apply String.toList_injective
      rw [String.toList_append, ← hrest]
      exact congrArg _ String.toList_ofList.symm
    · cases h
  · cases h

theorem clipProperty?_eq_none {property : String} :
    clipProperty? property = none ↔ property ∉ clipProperties := by
  constructor
  · intro h hmem
    have hsome : ∀ p ∈ clipProperties, clipProperty? p ≠ none := by decide
    exact hsome property hmem h
  · intro h
    by_contra hsome
    obtain ⟨name, hname⟩ := Option.ne_none_iff_exists'.mp hsome
    obtain ⟨rfl, hside⟩ := eq_of_clipProperty? hname
    have hmem : ∀ name ∈ sideNames, "clip." ++ name ∈ clipProperties := by decide
    exact h (hmem name hside)

namespace Object

section

variable {settings : Settings R} {measurer : Measurer R}

/-- The clip of an object is resolved by the size of that object. -/
theorem clipResolved_of_resolveClip {o o' : Object R}
    (h : resolveClip settings measurer o = .ok o') : o.ClipResolved settings measurer o' := by
  rw [resolveClip] at h
  split at h
  · rename_i hclip
    cases h
    exact .none hclip hclip
  · rename_i c hclip
    obtain ⟨size, hsize, h⟩ := Outcome.bind_eq_ok.mp h
    obtain ⟨c', hc, h⟩ := Outcome.bind_eq_ok.mp h
    rw [Outcome.pure_eq_ok] at h
    subst h
    exact .some hclip (by rw [withClip, base_withBase]) hsize (Clip.resolve_eq_ok hc)

/-- What a group holds does not count for its size. -/
theorem clipResolved_of_resolveClips {o o' : Object R}
    (h : resolveClips settings measurer o = .ok o') : o.ClipResolved settings measurer o' := by
  cases o with
  | shape b s e | reference b r e => exact clipResolved_of_resolveClip h
  | group b cs info e =>
    rw [resolveClips] at h
    obtain ⟨children, -, h⟩ := Outcome.bind_eq_ok.mp h
    cases clipResolved_of_resolveClip h with
    | none hclip hclip' => exact .none hclip hclip'
    | some hclip hclip' hsize hc =>
      rw [measure_group] at hsize
      exact .some hclip hclip' ((measure_group _ _ b cs info e).trans hsize) hc

/-- The clips of a tree are resolved each by the size of its own object. -/
theorem clips_resolveAllClips {objects out : List (Object R)}
    (h : resolveAllClips settings measurer objects = .ok out) :
    List.Forall₂ (ClipResolved settings measurer) (Address.walk objects) (Address.walk out) := by
  induction objects using descent generalizing out with
  | nil =>
    cases h
    exact .nil
  | cons o rest ihChildren ihRest =>
    obtain ⟨o', others, ho, hothers, rfl⟩ := resolveAllClips_cons_eq_ok.mp h
    rw [Address.walk_cons, Address.walk_cons]
    have hunder := ihChildren (resolveClips_alike ho).2
    exact List.rel_append (.cons (clipResolved_of_resolveClips ho) hunder) (ihRest hothers)

/-- Nothing of a tree changes but the clips. -/
theorem unclipped_resolveAllClips {objects out : List (Object R)}
    (h : resolveAllClips settings measurer objects = .ok out) :
    unclippedAll out = unclippedAll objects := by
  induction objects using forest generalizing out with
  | nil =>
    cases h
    rfl
  | shape b s e rest ih | reference b r e rest ih =>
    obtain ⟨o', others, ho, hothers, rfl⟩ := resolveAllClips_cons_eq_ok.mp h
    obtain ⟨clip, rfl⟩ := resolveClip_eq_ok ho
    rw [unclippedAll, unclippedAll, unclipped_withClip, ih hothers]
  | group b cs info e rest ihChildren ihRest =>
    obtain ⟨o', others, ho, hothers, rfl⟩ := resolveAllClips_cons_eq_ok.mp h
    obtain ⟨children, hchildren, hclip⟩ := Outcome.bind_eq_ok.mp ho
    obtain ⟨clip, rfl⟩ := resolveClip_eq_ok hclip
    rw [unclippedAll, unclippedAll, unclipped_withClip, ihRest hothers, unclipped, unclipped,
      ihChildren hchildren]

theorem get?_base_withClip {b : Base R} {clip : Option (Clip R)} {name : String}
    (h : name ≠ "clip") :
    Members.get? name (Base.fields.write { b with clip := clip }) =
      Members.get? name (Base.fields.write b) := by
  have hclip (b : Base R) :
      Members.get? name ((Fields.optional "clip" Clip.codec Base.clip).write b) = none := by
    rw [Fields.optional]
    cases hclip : b.clip with
    | none => simp [hclip, Members.get?]
    | some c => simp [hclip, Members.get?, FieldName.same, Ne.symm h]
  simp only [Base.fields, Fields.write_seq, Fields.write_map, Members.get?_append, hclip]
  rfl

/-- The clip of an object is no property that it is measured by. -/
theorem get?_staticProps_withClip (o : Object R) (clip : Option (Clip R)) {name : String}
    (h : name ≠ "clip") :
    Members.get? name (o.withClip clip).staticProps = Members.get? name o.staticProps := by
  have hextras : (o.withClip clip).extras = o.extras := by cases o <;> rfl
  have hwritten {α : Type} (kind : String) (f : Fields R α α) (b : Base R) (a : α) :
      Members.get? name (written kind f { b with clip := clip } a) =
        Members.get? name (written kind f b a) := by
    rw [written, written, write_declared, write_declared]
    simp only [Members.get?_append, get?_base_withClip h]
  have hmembers : Members.get? name (members [] (o.withClip clip)) =
      Members.get? name (members [] o) := by
    cases o with
    | shape b s e => cases s <;> exact hwritten _ _ b _
    | group b cs info e => exact hwritten _ _ b _
    | reference b r e =>
      obtain ⟨kind, source, start, duration, transition⟩ := r
      cases kind <;> exact hwritten _ _ b _
  rw [staticProps, staticProps, Members.get?_append, Members.get?_append, hextras]
  simp only [Members.get?_filter (p := fun n => !structural.contains n), hmembers]

theorem measure_withClip (o : Object R) (clip : Option (Clip R)) :
    (o.withClip clip).measure settings measurer = o.measure settings measurer := by
  have hget {name : String} (h : name ≠ "clip") := get?_staticProps_withClip o clip h
  have hkind : (o.withClip clip).kind = o.kind := kind_withBase _ _
  rw [Object.measure, Object.measure, hkind]
  unfold Storyboard.measure
  split
  all_goals simp (disch := decide) only [lengthOr, hget]

theorem measure_resolveClips {o o' : Object R} (h : resolveClips settings measurer o = .ok o') :
    o'.measure settings measurer = o.measure settings measurer := by
  cases o with
  | shape b s e | reference b r e =>
    obtain ⟨clip, rfl⟩ := resolveClip_eq_ok h
    exact measure_withClip _ clip
  | group b cs info e =>
    rw [resolveClips] at h
    obtain ⟨children, -, h⟩ := Outcome.bind_eq_ok.mp h
    obtain ⟨clip, rfl⟩ := resolveClip_eq_ok h
    rw [measure_withClip, measure_group, measure_group]

/-- Where no clip has anything to resolve, nothing changes. -/
theorem resolveAllClips_eq_self {objects : List (Object R)}
    (h : ∀ o ∈ Address.walk objects, resolveClip settings measurer o = .ok o) :
    resolveAllClips settings measurer objects = .ok objects := by
  induction objects using forest with
  | nil => rfl
  | shape b s e rest ih | reference b r e rest ih =>
    rw [Address.walk_cons, List.forall_mem_append] at h
    exact resolveAllClips_cons_eq_ok.mpr ⟨_, rest, h.1 _ List.mem_cons_self, ih h.2, rfl⟩
  | group b cs info e rest ihChildren ihRest =>
    rw [Address.walk_cons, List.forall_mem_append, List.forall_mem_cons] at h
    obtain ⟨⟨hgroup, hcs⟩, hrest⟩ := h
    refine resolveAllClips_cons_eq_ok.mpr ⟨_, rest, ?_, ihRest hrest, rfl⟩
    exact Outcome.bind_eq_ok.mpr ⟨cs, ihChildren hcs, hgroup⟩

/-- What has been resolved has nothing left to resolve. -/
theorem resolveAllClips_again {objects out : List (Object R)}
    (h : resolveAllClips settings measurer objects = .ok out) :
    resolveAllClips settings measurer out = .ok out := by
  refine resolveAllClips_eq_self fun o' ho' => ?_
  obtain ⟨o, -, ho⟩ := mem_walk_resolveAllClips h ho'
  cases clipResolved_of_resolveClips ho with
  | none hclip hclip' => rw [resolveClip, hclip']; rfl
  | some hclip hclip' hsize hc =>
    rw [← measure_resolveClips ho] at hsize
    simp only [resolveClip, hclip', hsize, Outcome.ok_bind, hc.whole.resolve]
    exact congrArg Except.ok (withClip_self hclip')

end

end Object

namespace Track

variable {settings : Settings R} {measurer : Measurer R} {objects : List (Object R)}

theorem resolveClip_of_other {t : Track R} (h : t.property ∉ clipProperties) :
    resolveClip settings measurer objects t = .ok t := by
  rw [resolveClip, clipProperty?_eq_none.mpr h]
  rfl

theorem resolveClip_of_whole {t : Track R} (h : ∀ k ∈ t.keyframes, isPercent k.value = false) :
    resolveClip settings measurer objects t = .ok t := by
  have hany : (t.keyframes.any fun k => isPercent k.value) = false := by
    simpa using h
  rw [resolveClip]
  split
  · rfl
  · rw [hany]
    rfl

theorem sized_of_targetSize {t : Track R} {size : Size R}
    (h : targetSize settings measurer objects t.target = .ok size) :
    t.Sized settings measurer objects size := by
  rw [targetSize] at h
  split at h
  · rename_i o hfind
    exact .found hfind h
  · rename_i hfind
    cases h
    exact .missing hfind

theorem resolved_of_resolveClip {t t' : Track R}
    (h : resolveClip settings measurer objects t = .ok t') :
    t.Resolved settings measurer objects t' := by
  rw [resolveClip] at h
  split at h
  · rename_i hnone
    cases h
    exact .other (clipProperty?_eq_none.mp hnone)
  · rename_i name hname
    obtain ⟨hproperty, hside⟩ := eq_of_clipProperty? hname
    split at h
    · obtain ⟨size, hsize, h⟩ := Outcome.bind_eq_ok.mp h
      obtain ⟨keyframes, hk, h⟩ := Outcome.bind_eq_ok.mp h
      rw [Outcome.pure_eq_ok] at h
      subst h
      have halong : ∃ length, size.along name = some length := by
        simp only [sideNames, List.mem_cons, List.not_mem_nil, or_false] at hside
        rcases hside with rfl | rfl | rfl | rfl
        · exact ⟨size.width, rfl⟩
        · exact ⟨size.height, rfl⟩
        · exact ⟨size.width, rfl⟩
        · exact ⟨size.height, rfl⟩
      obtain ⟨length, hlength⟩ := halong
      rw [hlength] at hk
      refine .parts hproperty (sized_of_targetSize hsize) hlength
        ((Outcome.mapM_eq_ok.mp hk).imp fun k k' hkey => ?_)
      obtain ⟨q, hq, hkey⟩ := Outcome.bind_eq_ok.mp hkey
      exact ⟨q, Percentage.replaced_of_resolve hq, (Outcome.pure_eq_ok.mp hkey).symm⟩
    · rename_i hany
      cases h
      exact .whole (by simpa using hany)

/-- No percentage is left in a track that animates a side of a clip. -/
theorem Resolved.keyframes {t t' : Track R} (h : t.Resolved settings measurer objects t')
    (hproperty : t'.property ∈ clipProperties) : ∀ k ∈ t'.keyframes, isPercent k.value = false := by
  cases h with
  | other hother => exact absurd hproperty hother
  | whole hwhole => exact hwhole
  | parts hname hsize hlength hkeyframes =>
    intro k' hk'
    obtain ⟨k, -, q, hq, rfl⟩ := exists_related_of_mem hkeyframes hk'
    exact hq.whole

theorem Resolved.property {t t' : Track R} (h : t.Resolved settings measurer objects t') :
    t'.property = t.property := by
  cases h <;> rfl

/-- What has been resolved stays as it is, whatever tree it is resolved for. -/
theorem Resolved.again {t t' : Track R} (h : t.Resolved settings measurer objects t')
    (others : List (Object R)) : resolveClip settings measurer others t' = .ok t' := by
  by_cases hproperty : t'.property ∈ clipProperties
  · exact resolveClip_of_whole (h.keyframes hproperty)
  · exact resolveClip_of_other hproperty

end Track

/-- The tracks that animate sides of clips. -/
def clipTracks (tracks : List (Track R)) : List (Track R) :=
  tracks.filter fun t => clipProperties.contains t.property

/-- A tree and tracks whose percentages in clips, and only these, have become lengths. -/
structure LengthsResolved (settings : Settings R) (measurer : Measurer R)
    (objects : List (Object R)) (tracks : List (Track R)) (out : List (Object R))
    (found : List (Track R)) : Prop where
  resolvedClips : List.Forall₂ (Object.ClipResolved settings measurer) (Address.walk objects)
    (Address.walk out)
  unclipped : Object.unclippedAll out = Object.unclippedAll objects
  resolvedTracks : List.Forall₂ (Track.Resolved settings measurer objects) tracks found
  wholeClips : ∀ o ∈ Address.walk out, ∀ c, o.base.clip = some c → c.Whole
  wholeTracks : ∀ t ∈ clipTracks found, ∀ k ∈ t.keyframes, isPercent k.value = false
  /-- Tracks of other properties, be they there or not, do not count. -/
  others : ∀ more, clipTracks more = clipTracks tracks → ∃ found',
    resolveClipLengths settings measurer objects more = .ok (out, found') ∧
      clipTracks found' = clipTracks found
  again : resolveClipLengths settings measurer out found = .ok (out, found)

section

variable {settings : Settings R} {measurer : Measurer R} {objects out : List (Object R)}
  {tracks found : List (Track R)}

theorem resolveClipLengths_ok
    (hout : Object.resolveAllClips settings measurer objects = .ok out)
    (hfound : List.Forall₂ (fun t t' => t.resolveClip settings measurer objects = .ok t') tracks
      found) :
    resolveClipLengths settings measurer objects tracks = .ok (out, found) := by
  rw [resolveClipLengths, hout, Outcome.mapM_eq_ok.mpr hfound]
  rfl

/-- The tracks of clips are resolved among themselves. -/
theorem forall₂_clipTracks
    (h : List.Forall₂ (fun t t' => t.resolveClip settings measurer objects = .ok t') tracks
      found) :
    List.Forall₂ (fun t t' => t.resolveClip settings measurer objects = .ok t')
      (clipTracks tracks) (clipTracks found) := by
  refine List.rel_filter (fun t t' ht => ?_) h
  dsimp only
  rw [(Track.resolveClip_eq_ok ht).2.1]

/-- Which tracks there are besides those of clips makes no difference. -/
theorem resolveClipLengths_of_clipTracks {more : List (Track R)}
    (hout : Object.resolveAllClips settings measurer objects = .ok out)
    (hfound : List.Forall₂ (fun t t' => t.resolveClip settings measurer objects = .ok t') tracks
      found)
    (hmore : clipTracks more = clipTracks tracks) : ∃ found',
      resolveClipLengths settings measurer objects more = .ok (out, found') ∧
        clipTracks found' = clipTracks found := by
  have hall : ∀ t ∈ more, ∃ t', t.resolveClip settings measurer objects = .ok t' := by
    intro t ht
    by_cases hproperty : t.property ∈ clipProperties
    · have hclip : t ∈ clipTracks more :=
        List.mem_filter.mpr ⟨ht, by simpa using hproperty⟩
      rw [hmore] at hclip
      obtain ⟨t', -, ht'⟩ := exists_related_of_mem hfound.flip (List.mem_of_mem_filter hclip)
      exact ⟨t', ht'⟩
    · exact ⟨t, Track.resolveClip_of_other hproperty⟩
  obtain ⟨found', hmapped⟩ := Outcome.mapM_ok hall
  have hfound' := Outcome.mapM_eq_ok.mp hmapped
  refine ⟨found', resolveClipLengths_ok hout hfound', ?_⟩
  have hsame := forall₂_clipTracks hfound'
  rw [hmore] at hsame
  refine forall₂_unique (fun t t₁ t₂ h₁ h₂ => ?_) hsame (forall₂_clipTracks hfound)
  exact Except.ok.inj (h₁.symm.trans h₂)

/-- Wherever the lengths of clips are found, they are the parts of the declared sizes that the
percentages name, and nothing else has changed. -/
theorem lengthsResolved_of_resolveClipLengths
    (h : resolveClipLengths settings measurer objects tracks = .ok (out, found)) :
    LengthsResolved settings measurer objects tracks out found := by
  obtain ⟨hout, hfound⟩ := resolveClipLengths_eq_ok h
  have hclips := Object.clips_resolveAllClips hout
  have htracks : List.Forall₂ (Track.Resolved settings measurer objects) tracks found :=
    hfound.imp fun t t' ht => Track.resolved_of_resolveClip ht
  refine ⟨hclips, Object.unclipped_resolveAllClips hout, htracks, ?_, ?_,
    fun more => resolveClipLengths_of_clipTracks hout hfound, ?_⟩
  · intro o' ho' c' hc'
    obtain ⟨o, -, hresolved⟩ := exists_related_of_mem hclips ho'
    exact Object.whole_of_clipResolved hresolved hc'
  · intro t' ht' k hk
    obtain ⟨ht', hproperty⟩ := List.mem_filter.mp ht'
    obtain ⟨t, -, hresolved⟩ := exists_related_of_mem htracks ht'
    exact hresolved.keyframes (by simpa using hproperty) k hk
  · refine resolveClipLengths_ok (Object.resolveAllClips_again hout) (List.forall₂_same.mpr ?_)
    intro t' ht'
    obtain ⟨t, -, hresolved⟩ := exists_related_of_mem htracks ht'
    exact hresolved.again out

end

/-- A rectangle of which a part is shown, in a group without an id. -/
def clippedBox : List (Object Rat) :=
  let part : Clip Rat :=
    ⟨some (.text "10%"), some (.text "-2.5%"), some (.text "50%"), some (.number (.int 7)), []⟩
  [.group (.ofId none) [.shape { Base.ofId (some "box") with clip := some part }
    (.rect ⟨some (.int 200), some (.int 80), none, none, none⟩) []] .empty []]

/-- A track that opens the clip of the rectangle, and one that changes its width. -/
def openedClip : List (Track Rat) :=
  [⟨"box", "clip.height", [⟨.number (.int 0), .text "25%", none, []⟩,
    ⟨.number (.int 9), .number (.int 80), none, []⟩], []⟩,
    ⟨"box", "width", [⟨.number (.int 0), .number (.int 1000), none, []⟩], []⟩]

theorem lengthsResolved_clippedBox : ∃ out found,
    resolveClipLengths .standard Measurer.uniform clippedBox openedClip = .ok (out, found) ∧
      (Address.walk out).map (fun o => o.base.clip.toList.flatMap Clip.sides) =
        [[], [.number (.real 20), .number (.real (-2)), .number (.real 100), .number (.int 7)]] ∧
      found.map (fun t => t.keyframes.map Keyframe.value) =
        [[.number (.real 20), .number (.int 80)], [.number (.int 1000)]] ∧
      LengthsResolved .standard Measurer.uniform clippedBox openedClip out found := by
  have hrun : (resolveClipLengths .standard Measurer.uniform clippedBox openedClip).toOption.any
      (fun result => decide ((Address.walk result.1).map
        (fun o => o.base.clip.toList.flatMap Clip.sides) =
          [[], [.number (.real 20), .number (.real (-2)), .number (.real 100),
            .number (.int 7)]] ∧
        result.2.map (fun t => t.keyframes.map Keyframe.value) =
          [[.number (.real 20), .number (.int 80)], [.number (.int 1000)]])) = true := by
    decide +kernel
  obtain ⟨⟨out, found⟩, hok, htest⟩ := (Option.any_eq_true _ _).mp hrun
  have h := toOption_eq_some.mp hok
  obtain ⟨hclips, hkeyframes⟩ := of_decide_eq_true htest
  exact ⟨out, found, h, hclips, hkeyframes, lengthsResolved_of_resolveClipLengths h⟩

end Storyboard
