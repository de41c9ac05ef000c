import Storyboard.Proofs.Expansion.Passage
import Storyboard.Proofs.Flattening.Replacing

namespace Storyboard

/-- The instances of a document and its own animations. -/
structure Script (R : Type) where
  instances : List (Instance R)
  entries : List (Entry R)

variable {R : Type}

namespace Instance

/-- The animations that a group or the file of an instance declares. -/
def entries : Instance R → List (Entry R)
  | shape .. => []
  | group _ _ info _ => info.animations
  | opened _ _ _ _ file _ => file.animations

/-- The instance with other animations, if it can declare any. -/
def withEntries (entries : List (Entry R)) : Instance R → Instance R
  | shape b s e => shape b s e
  | group b cs info e => group b cs { info with animations := entries } e
  | opened b r e place file cs => opened b r e place { file with animations := entries } cs

/-- The instance with others in it, if it can hold any. -/
def withChildren : Instance R → List (Instance R) → Instance R
  | shape b s e, _ => shape b s e
  | group b _ info e, cs => group b cs info e
  | opened b r e place file _, cs => opened b r e place file cs

/-- The instances among which the one at a position is changed. -/
abbrev changed (f : Instance R → Instance R) (instances : List (Instance R)) (p : List Nat) :
    List (Instance R) :=
  changeDown children withChildren f instances p

end Instance

namespace Script

/-- The animations that are declared where a way down ends: by an instance, or by the document. -/
def entriesAt (σ : Script R) (way : List (Instance R)) : List (Entry R) :=
  match way.getLast? with
  | some i => i.entries
  | none => σ.entries

/-- The script with other animations at a position. -/
def withEntries (σ : Script R) (entries : List (Entry R)) : List Nat → Script R
  | [] => { σ with entries := entries }
  | i :: p => { σ with instances := Instance.changed (·.withEntries entries) σ.instances (i :: p) }

end Script

variable [Scalar R]

open Flattening

/-- What an animation that an instance declares is flattened as. An animation of a file is moved to
the start of the file, and its target is put under the prefix of the file. -/
def Instance.cause (fps : Number R) (put : String) (start : Int) (e : Entry R) :
    Instance R → Outcome (Cause R)
  | shape .. | group .. => .ok (.entry e)
  | opened .. => (Expansion.shifted start put fps e).map .resolved

/-- What an animation that is declared where a way down ends is flattened as. -/
def Script.cause (fps : Number R) (way : List (Instance R)) (start : Int) (e : Entry R) :
    Outcome (Cause R) :=
  match way.getLast? with
  | some i => i.cause fps (Instance.Prefixes.along way).put start e
  | none => .ok (.entry e)

theorem Script.cause_nil (fps : Number R) (start : Int) (e : Entry R) :
    cause fps [] start e = .ok (.entry e) := rfl

theorem Script.cause_concat (fps : Number R) (front : List (Instance R)) (i : Instance R)
    (start : Int) (e : Entry R) : cause fps (front ++ [i]) start e =
      i.cause fps (Instance.Prefixes.along (front ++ [i])).put start e := by
  rw [cause, List.getLast?_concat]

theorem Script.cause_cases (fps : Number R) (front : List (Instance R)) (start : Int) :
    (∀ e, cause fps front start e = .ok (.entry e)) ∨
      ∀ e, cause fps front start e =
        (Expansion.shifted start (Instance.Prefixes.along front).put fps e).map .resolved := by
  rcases front.eq_nil_or_concat with rfl | ⟨front, i, rfl⟩
  · exact .inl (cause_nil fps start)
  · simp only [List.concat_eq_append, cause_concat]
    cases i with
    | shape b s e | group b cs info e => exact .inl fun _ => rfl
    | opened b r e place file cs => exact .inr fun _ => rfl

omit [Scalar R] in
theorem causes_eq_map {more : List (Entry R)} {causes : List (Cause R)}
    (h : List.Forall₂ (fun e c => (.ok (.entry e) : Outcome (Cause R)) = .ok c) more causes) :
    causes = more.map .entry := by
  induction h with
  | nil => rfl
  | cons hc _ ih =>
    cases hc
    rw [ih, List.map_cons]

/-- A cause has a compiled object of its level as its target. -/
def Flattening.Cause.Reaches (l : Level) (level : List (Object R)) (target : Object R) :
    Cause R → Prop
  | .entry e => resolveTarget e.target level l.path = .ok target
  | .resolved e => resolveTarget (withoutLead l.lead e).target level l.path = .ok target
  | .enter _ | .leave _ => False

namespace Script

/-- A position of a script: the instances on the way down and what expansion makes of them, and the
scope and the compiled objects in which flattening finds what is declared there. -/
structure Site (fps : Number R) (root : TimeScope R) (σ : Script R) (p : List Nat)
    (front : List (Instance R)) (expanded way : List (Object R)) (own : TimeScope R)
    (level : List (Object R)) : Prop where
  passed : Instance.way σ.instances p = some front
  expands : Instance.expandedAll fps "" 0 σ.instances = .ok expanded
  position : Object.way expanded p = some way
  scope : TimeScope.along fps root way = .ok own
  compiles : absoluteAll fps (Level.along way) own (opened Object.children expanded way) = .ok level

theorem exists_site {σ : Script R} {fps : Number R} {root : TimeScope R} {p : List Nat}
    {front : List (Instance R)} {expanded flat : List (Object R)}
    (hexpanded : Instance.expandedAll fps "" 0 σ.instances = .ok expanded)
    (hflat : absoluteAll fps Level.root root expanded = .ok flat)
    (hw : Instance.way σ.instances p = some front) (hdeclared : σ.entriesAt front ≠ []) :
    ∃ way own level, σ.Site fps root p front expanded way own level := by
  cases p with
  | nil =>
    cases hw
    exact ⟨[], root, flat, rfl, hexpanded, rfl, rfl, hflat⟩
  | cons j p =>
    obtain ⟨front, i, rfl⟩ := wayDown_cons_last _ hw
    obtain ⟨way, starts, o, -, hway, -, ho⟩ :=
      Instance.expandedAll_startsAt (x := ⟨"", ""⟩) hexpanded hw
    obtain ⟨around, c, outer, -, houter, habs⟩ := absoluteAll_at hflat hway
    have hgroup : ∃ b cs info e, o = .group b cs info e := by
      cases i with
      | shape b s e => simp [entriesAt, Instance.entries] at hdeclared
      | group b cs info e =>
        obtain ⟨start, children, -, -, rfl⟩ := Instance.expanded_group_eq_ok.mp ho
        exact ⟨_, children, info, e, rfl⟩
      | opened b r e place file cs =>
        obtain ⟨start, children, resolved, -, -, -, rfl⟩ := Instance.expanded_opened_eq_ok.mp ho
        exact ⟨_, children, _, [], rfl⟩
    obtain ⟨b, cs, info, e, rfl⟩ := hgroup
    obtain ⟨own, level, duration, hown, hlevel, -, -⟩ := absolute_group_eq_ok.mp habs
    refine ⟨way ++ [.group b cs info e], own, level, hw, hexpanded, hway, ?_, ?_⟩
    · exact TimeScope.along_concat_eq_ok.mpr ⟨outer, houter, hown⟩
    · rw [opened_append_singleton, Level.along, List.foldl_append]
      exact hlevel

end Script

namespace Instance

theorem expandedAll_modify {fps : Number R} {lead : String} {offset : Int}
    {instances : List (Instance R)} {objects : List (Object R)} {j : Nat} {i : Instance R}
    {o : Object R} {f : Instance R → Instance R} {g : Object R → Object R}
    (h : expandedAll fps lead offset instances = .ok objects) (hi : instances[j]? = some i)
    (ho : objects[j]? = some o) (hf : expanded fps lead offset (f i) = .ok (g o)) :
    expandedAll fps lead offset (instances.modify j f) = .ok (objects.modify j g) := by
  induction instances generalizing objects j with
  | nil => simp at hi
  | cons x rest ih =>
    obtain ⟨y, others, hy, hothers, rfl⟩ := expandedAll_cons_eq_ok.mp h
    cases j with
    | zero =>
      obtain rfl : x = i := by simpa using hi
      obtain rfl : y = o := by simpa using ho
      exact expandedAll_cons_eq_ok.mpr ⟨g y, others, hf, hothers, rfl⟩
    | succ j =>
      rw [List.getElem?_cons_succ] at hi ho
      exact expandedAll_cons_eq_ok.mpr ⟨y, _, hy, ih hothers hi ho, rfl⟩

/-- If an instance is changed, what expansion makes of it is changed in its place, and nothing
else is. -/
theorem expandedAll_changed {fps : Number R} {x : Prefixes} {offset : Int}
    {instances front : List (Instance R)} {objects way : List (Object R)} {p : List Nat}
    {i : Instance R} {o o' : Object R} {starts : List Int} {f : Instance R → Instance R}
    (h : expandedAll fps x.put offset instances = .ok objects)
    (hw : Instance.way instances p = some (front ++ [i]))
    (hway : Object.way objects p = some (way ++ [o]))
    (hstarts : List.Forall₂ (fun o n => Time.frameOrZero fps o.groupInfo.start = .ok n) way starts)
    (ho' : expanded fps (front.foldl Prefixes.inside x).put (offset + starts.sum) (f i) = .ok o') :
    expandedAll fps x.put offset (changed f instances p) =
      .ok (Object.changed (fun _ => o') objects p) := by
  induction p generalizing x offset instances front objects way starts with
  | nil => simp [Instance.way] at hw
  | cons j p ih =>
    rcases (wayDown_cons_eq_append _).mp hw with ⟨rfl, rfl, hi⟩ | ⟨y, rest, rfl, hy, hrest⟩
    · obtain ⟨rfl, ho⟩ : way = [] ∧ objects[j]? = some o := by
        simpa [wayDown_cons_eq_append] using hway
      obtain rfl := List.forall₂_nil_left_iff.mp hstarts
      rw [List.sum_nil, Int.add_zero] at ho'
      exact expandedAll_modify h hi ho ho'
    · obtain ⟨z, hz, hexpanded⟩ := expandedAll_getElem? h hy
      cases p with
      | nil => simp at hrest
      | cons k p =>
        rcases (wayDown_cons_eq_append _).mp hway with
          ⟨hnil, -, -⟩ | ⟨z', below, rfl, hz', hbelow⟩
        · cases hnil
        obtain rfl := Option.some.inj (hz.symm.trans hz')
        obtain ⟨n, sums, hn, hsums, rfl⟩ := List.forall₂_cons_left_iff.mp hstarts
        rw [List.sum_cons, ← Int.add_assoc] at ho'
        refine expandedAll_modify h hy hz ?_
        cases y with
        | shape b s e => simp [wayDown, children] at hrest
        | group b cs info e =>
          obtain ⟨start, objects', hstart, hobjects, rfl⟩ := expanded_group_eq_ok.mp hexpanded
          obtain rfl := Except.ok.inj (hstart.symm.trans hn)
          exact expanded_group_eq_ok.mpr ⟨start, _, hstart,
            ih (x := x.inside (.group b cs info e)) hobjects hrest hbelow hsums ho', rfl⟩
        | opened b r e place file cs =>
          obtain ⟨start, objects', resolved, hstart, hobjects, hresolved, rfl⟩ :=
            expanded_opened_eq_ok.mp hexpanded
          obtain rfl := Except.ok.inj (hstart.symm.trans hn)
          exact expanded_opened_eq_ok.mpr ⟨start, _, resolved, hstart,
            ih (x := x.inside (.opened b r e place file cs)) hobjects hrest hbelow hsums ho',
            hresolved, rfl⟩

/-- If an animation of an instance is replaced by others, so is what it is flattened as by what they
are. -/
theorem expanded_withEntries {fps : Number R} {x : Prefixes} {offset first : Int} {i : Instance R}
    {o : Object R} {pre post : List (Entry R)} {entry : Entry R}
    (h : expanded fps x.put offset i = .ok o) (hentries : i.entries = pre ++ entry :: post)
    (hfirst : Time.frameOrZero fps o.groupInfo.start = .ok first) :
    ∃ before cause behind, i.cause fps (x.inside i).put (offset + first) entry = .ok cause ∧
      ownCauses o.base o.groupInfo = before ++ [cause] ++ behind ∧
      ∀ more causes, List.Forall₂ (fun e c =>
          i.cause fps (x.inside i).put (offset + first) e = .ok c) more causes →
        ∃ o', expanded fps x.put offset (i.withEntries (pre ++ more ++ post)) = .ok o' ∧
          o'.muted = o.muted ∧ o'.children = o.children ∧
          ownCauses o'.base o'.groupInfo = before ++ causes ++ behind := by
  cases i with
  | shape b s e => simp [entries] at hentries
  | group b cs info e =>
    obtain ⟨start, children, hstart, hchildren, rfl⟩ := expanded_group_eq_ok.mp h
    have hanimations : info.animations = pre ++ entry :: post := hentries
    refine ⟨transitionCauses (behind x.put b) info ++ pre.map .entry, .entry entry,
      post.map .entry ++ info.resolved.map .resolved, rfl, ?_, ?_⟩
    · simp [ownCauses, Object.base, Object.groupInfo, hanimations]
    · intro more causes hmore
      have hcauses : causes = more.map .entry := causes_eq_map hmore
      refine ⟨_, expanded_group_eq_ok.mpr ⟨start, children, hstart, hchildren, rfl⟩, rfl, rfl, ?_⟩
      have htransitions (entries : List (Entry R)) : transitionCauses (behind x.put b)
          { info with animations := entries } = transitionCauses (behind x.put b) info := rfl
      simp [ownCauses, Object.base, Object.groupInfo, hcauses, htransitions]
  | opened b r e place file cs =>
    obtain ⟨start, children, resolved, hstart, hchildren, hresolved, rfl⟩ :=
      expanded_opened_eq_ok.mp h
    obtain rfl : start = first := Except.ok.inj (hstart.symm.trans hfirst)
    have hanimations : file.animations = pre ++ entry :: post := hentries
    rw [hanimations, Outcome.mapM_eq_ok] at hresolved
    obtain ⟨front, rest, rfl, hfront, hrest⟩ := forall₂_append_left hresolved
    obtain ⟨moved, last, hmoved, hlast, rfl⟩ := List.forall₂_cons_left_iff.mp hrest
    refine ⟨transitionCauses (behind x.put b) (standIn r place file []) ++ front.map .resolved,
      .resolved moved, last.map .resolved, Outcome.map_eq_ok.mpr ⟨moved, hmoved, rfl⟩, ?_, ?_⟩
    · simp [ownCauses, Object.base, Object.groupInfo, standIn, transitionCauses]
    · intro more causes hmore
      have hmapped : (more.mapM fun e => (Expansion.shifted (offset + start)
          (Expansion.lead (behind x.put b)) fps e).map Cause.resolved) = .ok causes :=
        Outcome.mapM_eq_ok.mpr hmore
      rw [Outcome.mapM_map] at hmapped
      obtain ⟨shifted, hshifted, rfl⟩ := Outcome.map_eq_ok.mp hmapped
      refine ⟨_, expanded_opened_eq_ok.mpr ⟨start, children, front ++ shifted ++ last, hstart,
        hchildren, ?_, rfl⟩, rfl, rfl, ?_⟩
      · exact Outcome.mapM_eq_ok.mpr (List.rel_append
          (List.rel_append hfront (Outcome.mapM_eq_ok.mp hshifted)) hlast)
      · simp [ownCauses, Object.base, Object.groupInfo, standIn, transitionCauses]

end Instance

/-- If an animation is replaced by others in a script, so is its source by theirs, and nothing else
changes in what is flattened. -/
theorem Script.Site.replaced {σ : Script R} {fps : Number R} {speed : Option (Number R)}
    {p : List Nat} {front : List (Instance R)} {expanded way level : List (Object R)}
    {own : TimeScope R} {pre post : List (Entry R)} {entry : Entry R}
    (h : σ.Site fps (TimeScope.root speed) p front expanded way own level)
    (hentries : σ.entriesAt front = pre ++ entry :: post) :
    ∃ cause, Script.cause fps front own.start entry = .ok cause ∧ ∀ more causes,
      List.Forall₂ (fun e c => Script.cause fps front own.start e = .ok c) more causes →
        ∃ expanded' before behind,
          Instance.expandedAll fps "" 0 (σ.withEntries (pre ++ more ++ post) p).instances =
            .ok expanded' ∧
          Object.mutedAll expanded' = Object.mutedAll expanded ∧
          (sourcesOfAll expanded σ.entries).map Source.muted =
            before ++ [Source.mk p way cause].map Source.muted ++ behind ∧
          (sourcesOfAll expanded' (σ.withEntries (pre ++ more ++ post) p).entries).map
              Source.muted =
            before ++ (causes.map (Source.mk p way)).map Source.muted ++ behind := by
  obtain ⟨hw, hexpanded, hway, hown, -⟩ := h
  cases p with
  | nil =>
    cases hw
    cases hway
    have hdeclared : σ.entries = pre ++ entry :: post := hentries
    refine ⟨.entry entry, rfl, fun more causes hmore => ?_⟩
    have hcauses : causes = more.map .entry := causes_eq_map hmore
    refine ⟨expanded, pre.map fun e => Source.muted ⟨[], [], .entry e⟩,
      (post.map fun e => Source.muted ⟨[], [], .entry e⟩) ++
        (sourcesFrom [] [] 0 expanded).map Source.muted, hexpanded, rfl, ?_, ?_⟩
    · simp [sourcesOfAll, hdeclared, Function.comp_def]
    · simp [sourcesOfAll, Script.withEntries, hcauses, Function.comp_def]
  | cons j p =>
    obtain ⟨front, i, rfl⟩ := wayDown_cons_last _ hw
    obtain ⟨around, starts, o, -, hway', hstarts, ho⟩ :=
      Instance.expandedAll_startsAt (x := ⟨"", ""⟩) hexpanded hw
    obtain rfl := Option.some.inj (hway'.symm.trans hway)
    -- The scope starts where expansion has moved the animations of a file.
    obtain ⟨first, hfirst, hstart⟩ := TimeScope.start_along_concat hown hstarts
    have hdeclared : i.entries = pre ++ entry :: post := by
      rw [← hentries, Script.entriesAt, List.getLast?_concat]
    have hput : ((front.foldl Instance.Prefixes.inside ⟨"", ""⟩).inside i).put =
        (Instance.Prefixes.along (front ++ [i])).put := by
      rw [Instance.Prefixes.along_concat, Instance.Prefixes.along]
    obtain ⟨before, cause, behind, hcause, hcauses, hothers⟩ :=
      Instance.expanded_withEntries ho hdeclared hfirst
    rw [← hstart, hput] at hcause hothers
    simp only [Script.cause_concat]
    refine ⟨cause, hcause, fun more causes hmore => ?_⟩
    obtain ⟨o', ho', hmuted, hchildren, hcauses'⟩ := hothers more causes hmore
    obtain ⟨pre', post', hpart, hother⟩ := sourcesOfAll_changed (f := fun _ => o') hway hmuted
      hchildren hcauses hcauses' σ.entries
    exact ⟨_, pre', post', Instance.expandedAll_changed hexpanded hw hway hstarts ho',
      Object.mutedAll_changed hway hmuted, hpart, hother⟩

end Storyboard
