import Mathlib.Algebra.Ring.Int.Defs
import Storyboard.Flattening
import Storyboard.Proofs.Position
import Storyboard.Proofs.Run

namespace Storyboard

variable {R : Type} [Scalar R]

namespace Flattening

/-- Where a list of objects stands: its path, and the prefix that expansion has put in front of the
ids on it. -/
structure Level where
  path : String
  lead : String
  deriving DecidableEq

namespace Level

/-- The level of the outermost objects. -/
def root : Level := ⟨"", ""⟩

/-- The full path of an object on the level. -/
def fullId (l : Level) (id : Option String) : Option String :=
  id.map fun raw => Address.join l.path (localId l.lead raw)

/-- The level of what an object holds. -/
def inside (l : Level) : Object R → Level
  | .group b _ info _ => ⟨innerPath l.path (l.fullId b.id), innerNamespace l.lead b info⟩
  | _ => l

/-- The level that is reached from the root on a way down. -/
def along (way : List (Object R)) : Level := way.foldl inside root

omit [Scalar R] in
theorem along_concat (way : List (Object R)) (o : Object R) :
    along (way ++ [o]) = (along way).inside o := by
  rw [along, List.foldl_append]
  rfl

omit [Scalar R] in
theorem path_along_concat (way : List (Object R)) (b : Base R) (cs : List (Object R))
    (info : GroupInfo R) (e : Members R) :
    (along (way ++ [.group b cs info e])).path =
      innerPath (along way).path ((along way).fullId b.id) := by
  rw [along_concat]
  rfl

omit [Scalar R] in
theorem lead_along_concat (way : List (Object R)) (b : Base R) (cs : List (Object R))
    (info : GroupInfo R) (e : Members R) :
    (along (way ++ [.group b cs info e])).lead = innerNamespace (along way).lead b info := by
  rw [along_concat]
  rfl

/-- The full paths of the objects on a way down. -/
def idsAlong (l : Level) : List (Object R) → List (Option String)
  | [] => []
  | o :: rest => l.fullId o.id :: (l.inside o).idsAlong rest

@[simp] theorem fullId_none (l : Level) : l.fullId none = none := rfl

@[simp] theorem fullId_some (l : Level) (raw : String) :
    l.fullId (some raw) = some (Address.join l.path (localId l.lead raw)) := rfl

end Level

end Flattening

namespace TimeScope

/-- The scope inside the groups on a way down. -/
def along (fps : Number R) (s : TimeScope R) (way : List (Object R)) : Outcome (TimeScope R) :=
  way.foldlM (fun s o => s.enter o.groupInfo fps) s

/-- The product of a speed and those that objects declare, outermost first. -/
def speedAlong (speed : Number R) (way : List (Object R)) : Outcome (Number R) :=
  way.foldlM (fun v o => v.mul (.real (o.groupInfo.speed.getD (Scalar.const 1 0)))) speed

theorem enter_eq_ok {s own : TimeScope R} {info : GroupInfo R} {fps : Number R} :
    s.enter info fps = .ok own ↔
      ∃ n, Time.frameOrZero fps info.start = .ok n ∧ own.start = s.start + n ∧
        s.speed.mul (.real (info.speed.getD (Scalar.const 1 0))) = .ok own.speed := by
  simp only [enter, Outcome.bind_eq_ok, Outcome.pure_eq_ok]
  constructor
  · intro h
    obtain ⟨n, hn, v, hv, rfl⟩ := h
    exact ⟨n, hn, rfl, hv⟩
  · intro h
    obtain ⟨n, hn, hs, hv⟩ := h
    exact ⟨n, hn, own.speed, hv, by rw [← hs]⟩

theorem along_cons_eq_ok {fps : Number R} {s own : TimeScope R} {o : Object R}
    {way : List (Object R)} :
    along fps s (o :: way) = .ok own ↔
      ∃ t, s.enter o.groupInfo fps = .ok t ∧ along fps t way = .ok own := by
  simp [along, List.foldlM_cons, Outcome.bind_eq_ok]

theorem along_concat_eq_ok {fps : Number R} {s own : TimeScope R} {way : List (Object R)}
    {o : Object R} :
    along fps s (way ++ [o]) = .ok own ↔
      ∃ t, along fps s way = .ok t ∧ t.enter o.groupInfo fps = .ok own := by
  simp [along, List.foldlM_append, Outcome.bind_eq_ok]

/-- Starts add up and speeds multiply on the way down, each by itself. -/
theorem along_eq_ok {fps : Number R} {s own : TimeScope R} {way : List (Object R)} :
    along fps s way = .ok own ↔
      ∃ starts,
        List.Forall₂ (fun o n => Time.frameOrZero fps o.groupInfo.start = .ok n) way starts ∧
        own.start = s.start + starts.sum ∧ speedAlong s.speed way = .ok own.speed := by
  induction way generalizing s with
  | nil =>
    simp only [along, speedAlong, List.foldlM_nil, Outcome.pure_eq_ok, List.forall₂_nil_left_iff]
    constructor
    · intro h
      obtain rfl := h
      exact ⟨[], rfl, by simp, rfl⟩
    · intro h
      obtain ⟨starts, rfl, hs, hv⟩ := h
      cases s
      cases own
      simp_all
  | cons o way ih =>
    rw [along_cons_eq_ok]
    constructor
    · intro hfound
      obtain ⟨t, ht, h⟩ := hfound
      obtain ⟨n, hn, hs, hv⟩ := enter_eq_ok.mp ht
      obtain ⟨starts, hstarts, hsum, hspeed⟩ := ih.mp h
      refine ⟨n :: starts, .cons hn hstarts, ?_, ?_⟩
      · rw [hsum, hs, List.sum_cons, Int.add_assoc]
      · rw [speedAlong, List.foldlM_cons, Outcome.bind_eq_ok]
        exact ⟨_, hv, hspeed⟩
    · intro h
      obtain ⟨_, _ | ⟨hn, hstarts⟩, hsum, hspeed⟩ := h
      rename_i n starts
      rw [speedAlong, List.foldlM_cons, Outcome.bind_eq_ok] at hspeed
      obtain ⟨v, hv, hspeed⟩ := hspeed
      refine ⟨⟨s.start + n, v⟩, enter_eq_ok.mpr ⟨n, hn, rfl, hv⟩, ?_⟩
      refine ih.mpr ⟨starts, hstarts, ?_, hspeed⟩
      rw [hsum, List.sum_cons, Int.add_assoc]

/-- The scope at the end of a way down starts where the starts on the way and its own lead. -/
theorem start_along_concat {fps : Number R} {speed : Option (Number R)} {own : TimeScope R}
    {way : List (Object R)} {o : Object R} {starts : List Int}
    (h : along fps (root speed) (way ++ [o]) = .ok own)
    (hstarts : List.Forall₂ (fun o n => Time.frameOrZero fps o.groupInfo.start = .ok n) way
      starts) :
    ∃ first, Time.frameOrZero fps o.groupInfo.start = .ok first ∧
      own.start = 0 + starts.sum + first := by
  obtain ⟨outer, houter, henter⟩ := along_concat_eq_ok.mp h
  obtain ⟨starts', hstarts', hsum, -⟩ := along_eq_ok.mp houter
  obtain rfl : starts' = starts := forall₂_unique
    (fun _ _ _ hx hy => Except.ok.inj (hx.symm.trans hy)) hstarts' hstarts
  obtain ⟨first, hfirst, hstart, -⟩ := enter_eq_ok.mp henter
  refine ⟨first, hfirst, ?_⟩
  rw [hstart, hsum]
  rfl

end TimeScope

namespace Flattening

mutual

/-- An object with its full path as its id and its window in absolute frames. -/
def absolute (fps : Number R) (l : Level) (scope : TimeScope R) : Object R → Outcome (Object R)
  | .shape b s e => .ok (.shape { b with id := l.fullId b.id } s e)
  | .reference b r e => .ok (.reference { b with id := l.fullId b.id } r e)
  | .group b cs info e => do
    let own ← scope.enter info fps
    let children ← absoluteAll fps (l.inside (.group b cs info e)) own cs
    let duration ← durationFrames fps info.duration
    return .group { b with id := l.fullId b.id } children (compiledInfo info own.start duration) e

def absoluteAll (fps : Number R) (l : Level) (scope : TimeScope R) :
    List (Object R) → Outcome (List (Object R))
  | [] => .ok []
  | o :: rest => do
    let first ← absolute fps l scope o
    let others ← absoluteAll fps l scope rest
    return first :: others

end

theorem absoluteAll_eq_ok {fps : Number R} {l : Level} {scope : TimeScope R}
    {objects compiled : List (Object R)} :
    absoluteAll fps l scope objects = .ok compiled ↔
      List.Forall₂ (fun o c => absolute fps l scope o = .ok c) objects compiled := by
  induction objects generalizing compiled with
  | nil => cases compiled <;> simp [absoluteAll]
  | cons o rest ih =>
    rw [absoluteAll, Outcome.bind_eq_ok]
    constructor
    · intro hfound
      obtain ⟨first, hfirst, h⟩ := hfound
      obtain ⟨others, hothers, h⟩ := Outcome.bind_eq_ok.mp h
      rw [Outcome.pure_eq_ok] at h
      subst h
      exact .cons hfirst (ih.mp hothers)
    · intro h
      obtain _ | ⟨hfirst, hothers⟩ := h
      exact ⟨_, hfirst, Outcome.bind_eq_ok.mpr ⟨_, ih.mpr hothers, rfl⟩⟩

theorem absoluteAll_cons_eq_ok {fps : Number R} {l : Level} {scope : TimeScope R} {o : Object R}
    {rest compiled : List (Object R)} :
    absoluteAll fps l scope (o :: rest) = .ok compiled ↔
      ∃ c others, absolute fps l scope o = .ok c ∧ absoluteAll fps l scope rest = .ok others ∧
        compiled = c :: others := by
  simp only [absoluteAll, Outcome.bind_eq_ok, Outcome.pure_eq_ok]
  constructor
  · intro h
    obtain ⟨c, hc, others, hothers, rfl⟩ := h
    exact ⟨c, others, hc, hothers, rfl⟩
  · intro h
    obtain ⟨c, others, hc, hothers, rfl⟩ := h
    exact ⟨c, hc, others, hothers, rfl⟩

theorem absolute_group_eq_ok {fps : Number R} {l : Level} {scope : TimeScope R} {b : Base R}
    {cs : List (Object R)} {info : GroupInfo R} {e : Members R} {c : Object R} :
    absolute fps l scope (.group b cs info e) = .ok c ↔
      ∃ own children duration, scope.enter info fps = .ok own ∧
        absoluteAll fps (l.inside (.group b cs info e)) own cs = .ok children ∧
        durationFrames fps info.duration = .ok duration ∧
        c = .group { b with id := l.fullId b.id } children
          (compiledInfo info own.start duration) e := by
  simp only [absolute, Outcome.bind_eq_ok, Outcome.pure_eq_ok]
  constructor
  · intro h
    obtain ⟨own, hown, children, hchildren, duration, hduration, rfl⟩ := h
    exact ⟨own, children, duration, hown, hchildren, hduration, rfl⟩
  · intro h
    obtain ⟨own, children, duration, hown, hchildren, hduration, rfl⟩ := h
    exact ⟨own, hown, children, hchildren, duration, hduration, rfl⟩

theorem absolute_id {fps : Number R} {l : Level} {scope : TimeScope R} {o c : Object R}
    (h : absolute fps l scope o = .ok c) : c.id = l.fullId o.id := by
  cases o with
  | shape b s e => cases h; rfl
  | reference b r e => cases h; rfl
  | group b cs info e =>
    obtain ⟨own, children, duration, -, -, -, rfl⟩ := absolute_group_eq_ok.mp h
    rfl

theorem absolute_children {fps : Number R} {l : Level} {scope : TimeScope R} {o c : Object R}
    (h : absolute fps l scope o = .ok c) :
    ∃ own, absoluteAll fps (l.inside o) own o.children = .ok c.children ∧
      (o.children ≠ [] → scope.enter o.groupInfo fps = .ok own) := by
  cases o with
  | shape b s e | reference b r e =>
    cases h
    exact ⟨scope, rfl, fun hne => absurd rfl hne⟩
  | group b cs info e =>
    obtain ⟨own, children, duration, hown, hchildren, -, rfl⟩ := absolute_group_eq_ok.mp h
    exact ⟨own, hchildren, fun _ => hown⟩

theorem absoluteAll_getElem? {fps : Number R} {l : Level} {scope : TimeScope R}
    {objects compiled : List (Object R)} {i : Nat} {o : Object R}
    (h : absoluteAll fps l scope objects = .ok compiled) (ho : objects[i]? = some o) :
    ∃ c, compiled[i]? = some c ∧ absolute fps l scope o = .ok c := by
  have hall := absoluteAll_eq_ok.mp h
  obtain ⟨hi, rfl⟩ := List.getElem?_eq_some_iff.mp ho
  have hi' : i < compiled.length := hall.length_eq ▸ hi
  exact ⟨compiled[i], List.getElem?_eq_getElem hi', hall.get hi hi'⟩

/-- An object stays at its position, and is compiled on the level and in the scope of the groups
around it. -/
theorem absoluteAll_at {fps : Number R} {l : Level} {scope : TimeScope R}
    {objects compiled way : List (Object R)} {p : List Nat} {o : Object R}
    (h : absoluteAll fps l scope objects = .ok compiled)
    (hw : Object.way objects p = some (way ++ [o])) :
    ∃ way' c own, Object.way compiled p = some (way' ++ [c]) ∧
      TimeScope.along fps scope way = .ok own ∧
      absolute fps (way.foldl Level.inside l) own o = .ok c := by
  induction p generalizing l scope objects compiled way with
  | nil => simp [Object.way] at hw
  | cons i p ih =>
    rcases (wayDown_cons_eq_append _).mp hw with ⟨rfl, rfl, hx⟩ | ⟨x, way₂, rfl, hx, htail⟩
    · obtain ⟨c, hc, habs⟩ := absoluteAll_getElem? h hx
      exact ⟨[], c, scope, (wayDown_cons_eq_append _).mpr (.inl ⟨rfl, rfl, hc⟩), rfl, habs⟩
    · obtain ⟨c, hc, habs⟩ := absoluteAll_getElem? h hx
      have hne : x.children ≠ [] := below_ne_nil_of_wayDown _ hw List.mem_cons_self
      obtain ⟨own, hchildren, hown⟩ := absolute_children habs
      obtain ⟨way', c', own', hway', halong, habs'⟩ := ih hchildren htail
      refine ⟨c :: way', c', own', ?_, ?_, habs'⟩
      · exact (wayDown_cons_eq_append _).mpr (.inr ⟨c, way', rfl, hc, hway'⟩)
      · exact TimeScope.along_cons_eq_ok.mpr ⟨own, hown hne, halong⟩

theorem way_absoluteAll {fps : Number R} {l : Level} {scope : TimeScope R}
    {objects compiled way : List (Object R)} {p : List Nat}
    (h : absoluteAll fps l scope objects = .ok compiled) (hw : Object.way objects p = some way) :
    ∃ way', Object.way compiled p = some way' ∧ way'.map Object.id = l.idsAlong way := by
  induction p generalizing l scope objects compiled way with
  | nil =>
    cases hw
    exact ⟨[], rfl, rfl⟩
  | cons i p ih =>
    obtain ⟨x, rest, hx, hrest, rfl⟩ := (wayDown_cons_eq_some _).mp hw
    obtain ⟨c, hc, habs⟩ := absoluteAll_getElem? h hx
    obtain ⟨own, hchildren, -⟩ := absolute_children habs
    obtain ⟨way', hway', hids⟩ := ih hchildren hrest
    refine ⟨c :: way', (wayDown_cons_eq_some _).mpr ⟨c, way', hc, hway', rfl⟩, ?_⟩
    rw [List.map_cons, absolute_id habs, hids]
    rfl

end Flattening

end Storyboard
