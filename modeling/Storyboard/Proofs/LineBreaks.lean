import Storyboard.Proofs.ClipLengths
import Storyboard.Proofs.Composition.Reading

namespace Storyboard

open Outcome

variable {R : Type} [Scalar R]

/-- A percentage with a line break behind it. -/
def Percentage.Broken (q : Quantity R) : Prop :=
  ∃ f : Figure, f.lineBreak = true ∧ q = .text f.text

omit [Scalar R] in
theorem Percentage.Broken.isPercent {q : Quantity R} (h : Broken q) : isPercent q = true := by
  obtain ⟨f, -, rfl⟩ := h
  exact isPercentage_iff.mpr ⟨f, rfl⟩

open Percentage (Broken isPercent)

/-- No side of the clip of an object is a percentage with a line break behind it. -/
def Object.Convertible (o : Object R) : Prop :=
  ∀ c, o.base.clip = some c → ∀ q ∈ c.sides, ¬ Broken q

/-- A track has no keyframe of which a side of a clip becomes a percentage with a line break behind
it. -/
def Track.Convertible (t : Track R) : Prop :=
  t.property ∈ clipProperties → ∀ k ∈ t.keyframes, ¬ Broken k.value

section

variable {settings : Settings R} {measurer : Measurer R} (hhundred : Scalar.Hundredths R)

include hhundred

/-- A value can be resolved unless it is a percentage with a line break behind it. -/
theorem Percentage.returns_resolve {q : Quantity R} {length : Number R}
    (hlength : Returns length.toReal) : Returns (resolve q length) ↔ ¬ Broken q := by
  obtain ⟨side, hside⟩ := hlength
  constructor
  · rintro h ⟨f, hbreak, rfl⟩
    rw [resolve_text hhundred f hside, if_pos hbreak] at h
    exact (returns_numericFault _).mp h
  · intro h
    by_cases hpercent : isPercent q = true
    · cases q with
      | number n => cases hpercent
      | text s =>
        obtain ⟨f, rfl⟩ := isPercentage_iff.mp hpercent
        have hbreak : ¬ f.lineBreak = true := fun hbreak => h ⟨f, hbreak, rfl⟩
        rw [resolve_text hhundred f hside, if_neg hbreak]
        exact returns_ok _
    · rw [Bool.not_eq_true] at hpercent
      rw [resolve_of_isPercent hpercent]
      exact returns_ok _

theorem Clip.returns_resolve (c : Clip R) (size : Size R) :
    Returns (c.resolve size) ↔ ∀ q ∈ c.sides, ¬ Broken q := by
  have hside (q : Option (Quantity R)) (length : R) :
      Returns (resolveSide q length) ↔ ∀ p ∈ q.toList, ¬ Broken p := by
    cases q with
    | none => exact iff_of_true (returns_ok _) (by simp)
    | some q =>
      have hlength : Returns (Number.real length).toReal := returns_ok length
      rw [Option.toList_some, List.forall_mem_singleton,
        ← Percentage.returns_resolve hhundred hlength]
      exact returns_map
  rw [Clip.resolve]
  refine (returns_bind_and (hside _ _) fun x => returns_bind_and (hside _ _) fun width =>
    returns_bind_and (hside _ _) fun y =>
      (returns_bind_total fun height => returns_pure _).trans (hside _ _)).trans ?_
  simp only [sides, List.forall_mem_append]
  tauto

theorem Object.returns_resolveClip {o : Object R} (h : Returns (o.measure settings measurer)) :
    Returns (resolveClip settings measurer o) ↔ o.Convertible := by
  rw [resolveClip, Convertible]
  split
  · rename_i hclip
    exact iff_of_true (returns_pure _) fun c hc => by rw [hclip] at hc; cases hc
  · rename_i c hclip
    rw [returns_bind_of h fun size =>
      (returns_bind_total fun c => returns_pure _).trans (c.returns_resolve hhundred size)]
    constructor
    · intro hsides c' hc'
      obtain rfl := Option.some_inj.mp (hclip.symm.trans hc')
      exact hsides
    · exact fun hsides => hsides c hclip

/-- Where sizes can be measured, the clips of a tree can be resolved if those of its objects can. -/
theorem Object.returns_resolveAllClips {objects : List (Object R)}
    (h : ∀ o ∈ Address.walk objects, Returns (o.measure settings measurer)) :
    Returns (resolveAllClips settings measurer objects) ↔
      ∀ o ∈ Address.walk objects, o.Convertible := by
  induction objects using forest with
  | nil => exact iff_of_true (returns_ok _) (by simp [Address.walk])
  | shape b s e rest ih | reference b r e rest ih =>
    rw [Address.walk_cons, List.forall_mem_append] at h ⊢
    rw [resolveAllClips, resolveClips]
    have hown := returns_resolveClip hhundred (h.1 _ List.mem_cons_self)
    refine returns_bind_and (hown.trans List.forall_mem_singleton.symm) fun _ => ?_
    exact (returns_bind_total fun _ => returns_pure _).trans (ih h.2)
  | group b cs info e rest ihChildren ihRest =>
    rw [Address.walk_cons, List.forall_mem_append, List.forall_mem_cons] at h ⊢
    obtain ⟨⟨hgroup, hcs⟩, hrest⟩ := h
    rw [resolveAllClips, resolveClips, and_comm (a := Convertible _)]
    refine returns_bind_and (returns_bind_and (ihChildren hcs) fun children => ?_) fun _ => ?_
    · refine (returns_resolveClip hhundred ?_).trans ?_
      · rw [measure_group]
        exact returns_ok _
      · exact Iff.rfl
    · exact (returns_bind_total fun _ => returns_pure _).trans (ihRest hrest)

theorem Track.returns_resolveClip {objects : List (Object R)} {t : Track R}
    (h : Returns (targetSize settings measurer objects t.target)) :
    Returns (t.resolveClip settings measurer objects) ↔ t.Convertible := by
  by_cases hproperty : t.property ∈ clipProperties
  · obtain ⟨name, hname⟩ := Option.ne_none_iff_exists'.mp
      fun hnone => clipProperty?_eq_none.mp hnone hproperty
    rw [resolveClip, hname, Convertible, forall_prop_of_true hproperty]
    dsimp only
    split
    · refine returns_bind_of h fun size => ?_
      refine (returns_bind_total fun keyframes => returns_pure _).trans (returns_mapM.trans ?_)
      refine forall₂_congr fun k _ => ?_
      exact (returns_bind_total fun _ => returns_pure _).trans
        (Percentage.returns_resolve hhundred (returns_ok _))
    · rename_i hnone
      refine iff_of_true (returns_pure _) fun k hk hbroken => hnone ?_
      exact List.any_eq_true.mpr ⟨k, hk, hbroken.isPercent⟩
  · rw [resolveClip_of_other hproperty]
    exact iff_of_true (returns_ok _) fun hmem => absurd hmem hproperty

theorem returns_resolveClipLengths {objects : List (Object R)} {tracks : List (Track R)}
    (h : ∀ o ∈ Address.walk objects, Returns (o.measure settings measurer)) :
    Returns (resolveClipLengths settings measurer objects tracks) ↔
      (∀ o ∈ Address.walk objects, o.Convertible) ∧ ∀ t ∈ tracks, t.Convertible := by
  have hsize (t : Track R) : Returns (Track.targetSize settings measurer objects t.target) := by
    rw [Track.targetSize]
    split
    · rename_i o hfind
      exact h o (Address.id_of_follow hfind).2
    · exact returns_ok _
  refine returns_bind_and (Object.returns_resolveAllClips hhundred h) fun _ => ?_
  refine (returns_bind_total fun _ => returns_pure _).trans (returns_mapM.trans ?_)
  exact forall₂_congr fun t _ => Track.returns_resolveClip hhundred (hsize t)

end

section

variable {settings : Settings R} {measurer : Measurer R}

theorem returns_lengthOr {default : R} {name : String} {props : Members R}
    (h : ∀ j, Members.get? name props = some j → ∃ n, j = .num n ∧ Returns n.toReal) :
    Returns (lengthOr default name props) := by
  rw [lengthOr]
  split
  · exact returns_ok _
  · exact returns_ok _
  · rename_i j _ hj
    obtain ⟨n, rfl, hn⟩ := h j hj
    exact hn

/-- Where numbers within the range stand for lengths, all but texts can be measured. -/
theorem returns_measure {kind : String} {props : Members R} (hkind : kind ≠ "text")
    (h : ∀ name ∈ lengthNames kind, ∀ j, Members.get? name props = some j →
      ∃ n, j = .num n ∧ Returns n.toReal) :
    Returns (measure settings measurer kind props) := by
  have hlength {name : String} (default : R) (hname : name ∈ lengthNames kind) :
      Returns (lengthOr default name props) := returns_lengthOr (h name hname)
  unfold measure
  split
  · exact (hlength _ (by decide)).bind fun _ _ => (hlength _ (by decide)).bind fun _ _ =>
      returns_pure _
  · exact (hlength _ (by decide)).bind fun _ _ => (hlength _ (by decide)).bind fun _ _ =>
      returns_pure _
  · exact absurd rfl hkind
  · exact (hlength _ (by decide)).bind fun _ _ => returns_pure _
  · exact (hlength _ (by decide)).bind fun _ _ => (hlength _ (by decide)).bind fun _ _ =>
      returns_pure _
  · exact returns_ok _

theorem Object.Plain.returns_measure {o : Object R} (h : o.Plain) (hkind : o.kind ≠ "text")
    (hrange : ∀ m ∈ o.staticProps, ∀ n, m.2 = .num n → Returns n.toReal) :
    Returns (o.measure settings measurer) := by
  refine Storyboard.returns_measure hkind fun name hname j hj => ?_
  have hmem := Members.mem_of_get? hj
  obtain ⟨n, hn⟩ := (h.typed_staticProps hmem).1 (List.mem_append_right _ hname)
  exact ⟨n, hn, hrange _ hmem n hn⟩

end

omit [Scalar R] in
/-- The texts that effects may have for values are figures. -/
theorem Percentage.exists_figure {context s : String} {q : Quantity R}
    (h : effectValue context (.str s) = .ok q) : ∃ f : Figure, q = .text f.text := by
  rw [effectValue] at h
  split at h
  · rename_i hpercent
    cases h
    obtain ⟨f, rfl⟩ := isPercentage_iff.mp hpercent
    exact ⟨f, rfl⟩
  · split at h <;> cases h

/-- What is recognised as a percentage is a figure. A figure stands for its number in hundredths of
a length that is within the range, unless a line break stands behind it, which makes its conversion
fail. In a document that was read, expanded and flattened, whose numbers are within the range and
whose texts can be measured, the lengths of clips are found unless a side of a clip is such a broken
percentage. -/
theorem percentages_resolve (hhundred : Scalar.Hundredths R) :
    (∀ s, Percentage.isPercentage s = true ↔ ∃ f : Percentage.Figure, f.text = s) ∧
    (∀ (context s : String) (q : Quantity R), Percentage.effectValue context (.str s) = .ok q →
      ∃ f : Percentage.Figure, q = .text f.text) ∧
    (∀ (f : Percentage.Figure) (length : Number R) (side : R), length.toReal = .ok side →
      Percentage.resolve (.text f.text) length =
        if f.lineBreak then numericFault .value else .ok (.number (.real (f.share side)))) ∧
    ∀ (s : Studio R) (folder : Place) (j : Json R) (doc : Document R) (c c' : Catalog R)
      (expanded flat : List (Object R)) (tracks : List (Track R)),
      readDocument Document.codec j = .ok doc →
      (Expansion.expandObjects s.disk (.real doc.project.fps) ⟨folder, 0, []⟩ doc.objects).Yields
        c.definitions expanded c'.definitions →
      (Flattening.flatten s.disk (.real doc.project.fps) expanded doc.animations
        (doc.speed.map .real)).Yields c.effects (flat, tracks) c'.effects →
      (∀ o ∈ Address.walk flat, ∀ m ∈ o.staticProps, ∀ n, m.2 = .num n → Returns n.toReal) →
      (∀ o ∈ Address.walk flat, o.kind = "text" → Returns (o.measure s.settings s.measurer)) →
      (Returns (resolveClipLengths s.settings s.measurer flat tracks) ↔
        (∀ o ∈ Address.walk flat, o.Convertible) ∧ ∀ t ∈ tracks, t.Convertible) := by
  refine ⟨fun s => Percentage.isPercentage_iff, ?_, ?_, ?_⟩
  · exact fun context s q h => Percentage.exists_figure h
  · exact fun f length side h => Percentage.resolve_text hhundred f h
  · intro s folder j doc c c' expanded flat tracks hread hexpands hflattens hrange htexts
    have hplain := Flattening.allPlain_flatten (Document.allPlain hread) hexpands hflattens
    refine returns_resolveClipLengths hhundred fun o ho => ?_
    by_cases hkind : o.kind = "text"
    · exact htexts o ho hkind
    · exact (hplain o ho).returns_measure hkind (hrange o ho)

/-- An eighth of a length, to the other side. -/
def Percentage.backEighth : Figure where
  negative := true
  whole := ['1', '2']
  fraction := ['5']
  lineBreak := false
  whole_ne_nil := by decide
  whole_digits := List.forall_mem_cons.mpr ⟨Text.isDigit_of_ascii (by decide),
    List.forall_mem_singleton.mpr (Text.isDigit_of_ascii (by decide))⟩
  fraction_digits := List.forall_mem_singleton.mpr (Text.isDigit_of_ascii (by decide))

/-- A document with a rectangle that is clipped from a place on. -/
def clippedFrom (place : String) : Json Rat :=
  .obj [
    ("project", .obj [("width", .int 320), ("height", .int 240), ("fps", .int 30),
      ("frames", .int 60)]),
    ("objects", .arr [.obj [("type", .str "rect"), ("id", .str "r"), ("width", .int 200),
      ("height", .int 80), ("clip", .obj [("x", .str place)])]])]

/-- The conversion of what one document declares, which is read, expanded and flattened before. -/
theorem percentages_resolve_backEighth : Scalar.Hundredths Rat ∧
    Percentage.resolve (R := Rat) (.text "-12.5%") (.int 200) = .ok (.number (.real (-25))) ∧
    ∃ doc expanded definitions flat tracks effects,
      readDocument Document.codec (clippedFrom "-12.5%") = .ok doc ∧
      (Expansion.expandObjects bareStudio.disk (.real doc.project.fps) ⟨⟨[]⟩, 0, []⟩
        doc.objects).Yields ⟨[]⟩ expanded definitions ∧
      (Flattening.flatten bareStudio.disk (.real doc.project.fps) expanded doc.animations
        (doc.speed.map .real)).Yields ⟨[], []⟩ (flat, tracks) effects ∧
      Returns (resolveClipLengths bareStudio.settings bareStudio.measurer flat tracks) ∧
      ∀ o ∈ Address.walk flat, o.Convertible := by
  have hhundred : Scalar.Hundredths Rat := by
    unfold Scalar.Hundredths
    decide +kernel
  obtain ⟨-, -, hresolve, hclips⟩ := percentages_resolve hhundred
  have heighth : Percentage.backEighth.share (200 : Rat) = -25 := by decide +kernel
  have hok : (readDocument Document.codec (clippedFrom "-12.5%")).toOption.any (fun doc =>
      ((Expansion.expandObjects bareStudio.disk (.real doc.project.fps) ⟨⟨[]⟩, 0, []⟩
        doc.objects).exec ⟨[]⟩).1.toOption.any fun expanded =>
      ((Flattening.flatten bareStudio.disk (.real doc.project.fps) expanded doc.animations
        (doc.speed.map .real)).exec ⟨[], []⟩).1.toOption.any fun result =>
      ((Address.walk result.1).all fun o => o.kind != "text") &&
        (resolveClipLengths bareStudio.settings bareStudio.measurer result.1
          result.2).toOption.isSome) = true := by
    decide +kernel
  obtain ⟨doc, hread, hok⟩ := (Option.any_eq_true _ _).mp hok
  obtain ⟨expanded, definitions, hexpands, hok⟩ := Run.yields_of_test _ hok
  obtain ⟨⟨flat, tracks⟩, effects, hflattens, hok⟩ := Run.yields_of_test _ hok
  obtain ⟨hkinds, hreturns⟩ := Bool.and_eq_true_iff.mp hok
  have hread := toOption_eq_some.mp hread
  obtain ⟨result, hreturns⟩ := Option.isSome_iff_exists.mp hreturns
  have hreturns : Returns (resolveClipLengths bareStudio.settings bareStudio.measurer flat
      tracks) := ⟨result, toOption_eq_some.mp hreturns⟩
  refine ⟨hhundred, ?_, doc, expanded, definitions, flat, tracks, effects, hread, hexpands,
    hflattens, hreturns, ?_⟩
  · have hpart := hresolve Percentage.backEighth (.int 200) 200 rfl
    rw [heighth] at hpart
    exact hpart
  · refine ((hclips bareStudio ⟨[]⟩ _ doc ⟨⟨[]⟩, ⟨[], []⟩⟩ ⟨definitions, effects⟩ expanded flat
      tracks hread hexpands hflattens (fun o ho m hm n hn => ?_) (fun o ho hkind => ?_)).mp
      hreturns).1
    · exact ⟨n.value, n.toReal_eq⟩
    · have hother := List.all_eq_true.mp hkinds o ho
      rw [hkind] at hother
      cases hother

/-- With a line break behind it a percentage is recognised but not converted, and a document that
has one does not compile. -/
theorem broken_percentage_refused :
    Percentage.isPercentage "50%\n" = true ∧
    Percentage.resolve (R := Rat) (.text "50%\n") (.int 200) = numericFault .value ∧
    ∃ doc, readDocument Document.codec (clippedFrom "50%\n") = .ok doc ∧
      (bareStudio.compile ⟨[]⟩ doc).Fails ⟨⟨[]⟩, ⟨[], []⟩⟩ (.numeric .value) := by
  have hok : (readDocument Document.codec (clippedFrom "50%\n")).toOption.any (fun doc =>
      decide (((bareStudio.compile ⟨[]⟩ doc).exec ⟨⟨[]⟩, ⟨[], []⟩⟩).1.map (fun _ => ()) =
        .error (.numeric .value))) = true := by
    decide +kernel
  obtain ⟨doc, hread, hfails⟩ := (Option.any_eq_true _ _).mp hok
  exact ⟨by decide +kernel, by decide +kernel, doc, toOption_eq_some.mp hread,
    Run.fails_of_map _ (of_decide_eq_true hfails)⟩

end Storyboard
