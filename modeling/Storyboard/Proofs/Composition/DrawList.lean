import Storyboard.Proofs.Composition.Compiled
import Storyboard.Proofs.Composition.Painting

namespace Storyboard

open Outcome

variable {R : Type} [Scalar R]

/-- A frame is not before the start of a group and not behind its end. -/
def GroupInfo.Admits (info : GroupInfo R) (frame : Number R) : Prop :=
  ∀ s, info.start = some s → ∃ start, Composition.windowEdge s = .ok start ∧
    frame.lt start = false ∧ ∀ d, info.duration = some d → ∃ length stop,
      Composition.windowEdge d = .ok length ∧ start.add length = .ok stop ∧ stop.lt frame = false

/-- A frame is in the time window of a group, from the start through start and duration. -/
def GroupInfo.Contains (info : GroupInfo R) (frame : Number R) : Prop :=
  ∀ s, info.start = some s → ∃ start, Composition.windowEdge s = .ok start ∧
    start.le frame = true ∧ ∀ d, info.duration = some d → ∃ length stop,
      Composition.windowEdge d = .ok length ∧ start.add length = .ok stop ∧ frame.le stop = true

/-- The edges of the time window of a group can be compared with frames. -/
def GroupInfo.Bounded (info : GroupInfo R) : Prop :=
  ∀ s start, info.start = some s → Composition.windowEdge s = .ok start → start.isOrdered = true ∧
    ∀ d length stop, info.duration = some d → Composition.windowEdge d = .ok length →
      start.add length = .ok stop → stop.isOrdered = true

theorem GroupInfo.Bounded.admits_iff {info : GroupInfo R} {frame : Number R} (h : info.Bounded)
    (hframe : frame.isOrdered = true) : info.Admits frame ↔ info.Contains frame := by
  refine forall_congr' fun s => forall_congr' fun hs => exists_congr fun start =>
    and_congr_right fun hstart => ?_
  obtain ⟨hordered, hends⟩ := h s start hs hstart
  refine and_congr (Number.le_iff_not_lt hordered hframe).symm ?_
  refine forall_congr' fun d => forall_congr' fun hd => exists_congr fun length =>
    exists_congr fun stop => and_congr_right fun hlength => and_congr_right fun hstop => ?_
  exact (Number.le_iff_not_lt hframe (hends d length stop hd hlength hstop)).symm

namespace Composition

theorem isVisible_iff {info : GroupInfo R} {frame : Number R} :
    isVisible info frame = .ok true ↔ info.Admits frame := by
  rw [isVisible, GroupInfo.Admits]
  cases hs : info.start with
  | none => simp
  | some s =>
    simp only [bind_eq_ok, Option.some.injEq, forall_eq']
    refine exists_congr fun start => and_congr_right fun hstart => ?_
    cases hbefore : frame.lt start with
    | true => simp
    | false =>
      cases hd : info.duration with
      | none => simp
      | some d =>
        simp only [Bool.false_eq_true, if_false, bind_eq_ok, pure_eq_ok, Option.some.injEq,
          forall_eq', true_and, Bool.not_eq_true']
        exact exists_congr fun length => exists_and_left.symm

/-- The scales of an object with properties are all strictly positive. -/
def HasExtent (props : Members R) : Prop :=
  ∀ name ∈ ["scale", "scaleX", "scaleY"], ∃ n, numberOr (.int 1) name props = .ok n ∧
    (Number.int 0).lt n = true

/-- The scales of an object with properties can be compared. -/
def ScalesOrdered (props : Members R) : Prop :=
  ∀ name ∈ ["scale", "scaleX", "scaleY"], ∀ n, numberOr (.int 1) name props = .ok n →
    n.isOrdered = true

theorem isFlat_eq_false_iff {n : Number R} (h : n.isOrdered = true) :
    isFlat n = false ↔ (Number.int 0).lt n = true := by
  have hzero : (Number.int 0 : Number R).isOrdered = true := Number.isOrdered_int 0
  rw [isFlat, ← Bool.not_eq_true, Number.le_iff_not_lt h hzero, Bool.not_eq_false]

theorem scales_iff {props : Members R} (h : ScalesOrdered props) :
    (∃ found, scales props = .ok (some found)) ↔ HasExtent props := by
  have hflat {name : String} (hname : name ∈ ["scale", "scaleX", "scaleY"]) {n : Number R}
      (hn : numberOr (.int 1) name props = .ok n) :
      isFlat n = false ↔ (Number.int 0).lt n = true := isFlat_eq_false_iff (h name hname n hn)
  constructor
  · intro hfound
    obtain ⟨found, hfound⟩ := hfound
    obtain ⟨scale, hscale, hfound⟩ := bind_eq_ok.mp hfound
    split at hfound
    · cases hfound
    · rename_i hs
      obtain ⟨scaleX, hscaleX, hfound⟩ := bind_eq_ok.mp hfound
      split at hfound
      · cases hfound
      · rename_i hsX
        obtain ⟨scaleY, hscaleY, hfound⟩ := bind_eq_ok.mp hfound
        split at hfound
        · cases hfound
        · rename_i hsY
          rw [Bool.not_eq_true] at hs hsX hsY
          simp only [HasExtent, List.forall_mem_cons]
          exact ⟨⟨scale, hscale, (hflat (by simp) hscale).mp hs⟩,
            ⟨scaleX, hscaleX, (hflat (by simp) hscaleX).mp hsX⟩,
            ⟨scaleY, hscaleY, (hflat (by simp) hscaleY).mp hsY⟩, by simp⟩
  · intro hextent
    obtain ⟨scale, hscale, hs⟩ := hextent "scale" (by simp)
    obtain ⟨scaleX, hscaleX, hsX⟩ := hextent "scaleX" (by simp)
    obtain ⟨scaleY, hscaleY, hsY⟩ := hextent "scaleY" (by simp)
    refine ⟨(scale, scaleX, scaleY), ?_⟩
    rw [scales, hscale, ok_bind, (hflat (by simp) hscale).mpr hs, hscaleX]
    simp only [Bool.false_eq_true, if_false, ok_bind, (hflat (by simp) hscaleX).mpr hsX, hscaleY,
      (hflat (by simp) hscaleY).mpr hsY]
    rfl

variable {frame : Number R} {objects : List (Object R)} {positions : List (List Nat)}

/-- An object that is no group has no time window. -/
theorem admits_of_leaf {o : Object R} (h : o.isGroup = false) : o.groupInfo.Admits frame := by
  intro s hs
  cases o with
  | group b cs info e => cases h
  | shape b s e => cases hs
  | reference b r e => cases hs

/-- Of two positions in a list where each precedes those behind it, the one in front precedes. -/
theorem precedes_of_lt (h : positions.Pairwise (Precedes objects)) {m n : Nat} {p q : List Nat}
    (hp : positions[m]? = some p) (hq : positions[n]? = some q) (hlt : m < n) :
    Precedes objects p q := by
  obtain ⟨hm, rfl⟩ := List.getElem?_eq_some_iff.mp hp
  obtain ⟨hn, rfl⟩ := List.getElem?_eq_some_iff.mp hq
  exact List.pairwise_iff_getElem.mp h m n hm hn hlt

theorem comes_iff {a b : Object R} (ha : (height a).isOrdered = true)
    (hb : (height b).isOrdered = true) {i j : Nat} : Comes a b i j ↔
      (height a).lt (height b) = true ∨ (height a).eq (height b) = true ∧ i < j := by
  rw [Comes, Number.eq_iff_not_lt ha hb]
  constructor
  · intro h
    rcases h with hlt | ⟨hnot, hij⟩
    · exact .inl hlt
    · cases hlt : (height a).lt (height b) with
      | true => exact .inl rfl
      | false => exact .inr ⟨⟨rfl, hnot⟩, hij⟩
  · intro h
    rcases h with hlt | ⟨⟨-, hnot⟩, hij⟩
    · exact .inl hlt
    · exact .inr ⟨hnot, hij⟩

variable [Trig R] {settings : Settings R} {measurer : Measurer R} {sampler : Sampler R}
  {items : List (DrawItem R)}

/-- Whatever painting compares is a number: heights, the edges of time windows, and scales. -/
structure Comparable (settings : Settings R) (sampler : Sampler R) (frame : Number R)
    (objects : List (Object R)) : Prop where
  heights : ∀ o ∈ Address.walk objects, (height o).isOrdered = true
  windows : ∀ o ∈ Address.walk objects, o.groupInfo.Bounded
  scales : ∀ o ∈ Address.walk objects, ∀ props, propsAt settings sampler o frame = .ok props →
    ScalesOrdered props

/-- A position of an object that is no group, where the frame is within the time of all groups on
the way and nothing on the way is scaled to nothing. -/
def Drawn (settings : Settings R) (sampler : Sampler R) (frame : Number R)
    (objects : List (Object R)) (pos : List Nat) : Prop :=
  ∃ front o, Object.way objects pos = some (front ++ [o]) ∧ o.isGroup = false ∧
    (∀ g ∈ front, g.groupInfo.Admits frame) ∧
    ∀ x ∈ front ++ [o], ∃ props, propsAt settings sampler x frame = .ok props ∧ HasExtent props

/-- The items of a frame are those of the objects at positions, each once, in the order of the
siblings where the ways to them part. -/
structure IsDrawList (settings : Settings R) (sampler : Sampler R) (frame : Number R)
    (objects : List (Object R)) (items : List (DrawItem R)) (positions : List (List Nat)) : Prop where
  items : List.Forall₂ (fun pos it => ∃ front o, Object.way objects pos = some (front ++ [o]) ∧
    it.id = o.id ∧ it.kind = o.kind ∧ propsAt settings sampler o frame = .ok it.props)
    positions items
  nodup : positions.Nodup
  members : ∀ pos, pos ∈ positions ↔ Drawn settings sampler frame objects pos
  parts : ∀ (m n : Nat) (p q : List Nat), positions[m]? = some p → positions[n]? = some q → m ≠ n →
    ∃ c i j p' q' front a b, p = c ++ i :: p' ∧ q = c ++ j :: q' ∧ i ≠ j ∧
      Object.way objects (c ++ [i]) = some (front ++ [a]) ∧
      Object.way objects (c ++ [j]) = some (front ++ [b])
  order : ∀ (m n i j : Nat) (c p q : List Nat) front a b, positions[m]? = some (c ++ i :: p) →
    positions[n]? = some (c ++ j :: q) → i ≠ j →
    Object.way objects (c ++ [i]) = some (front ++ [a]) →
    Object.way objects (c ++ [j]) = some (front ++ [b]) →
    (m < n ↔ (height a).lt (height b) = true ∨ (height a).eq (height b) = true ∧ i < j)

theorem Comparable.seen_iff (h : Comparable settings sampler frame objects) {o : Object R}
    (ho : o ∈ Address.walk objects) : Seen settings sampler frame o ↔
      o.groupInfo.Admits frame ∧
        ∃ props, propsAt settings sampler o frame = .ok props ∧ HasExtent props := by
  rw [Seen, isVisible_iff]
  refine and_congr_right fun _ => ?_
  constructor
  · intro hseen
    obtain ⟨props, found, hprops, hfound⟩ := hseen
    exact ⟨props, hprops, (scales_iff (h.scales o ho props hprops)).mp ⟨found, hfound⟩⟩
  · intro hextent
    obtain ⟨props, hprops, hextent⟩ := hextent
    obtain ⟨found, hfound⟩ := (scales_iff (h.scales o ho props hprops)).mpr hextent
    exact ⟨props, found, hprops, hfound⟩

/-- The positions to which ways lead are those at which objects are drawn. -/
theorem Comparable.leads_iff (h : Comparable settings sampler frame objects) {pos : List Nat} :
    Leads settings sampler frame objects pos ↔ Drawn settings sampler frame objects pos := by
  refine exists_congr fun front => exists_congr fun o => and_congr_right fun hway =>
    and_congr_right fun hleaf => ?_
  have hmem : ∀ x ∈ front ++ [o], x ∈ Address.walk objects := fun x hx =>
    Address.mem_walk_of_way hway hx
  constructor
  · intro hseen
    refine ⟨fun g hg => ?_, fun x hx => ((h.seen_iff (hmem x hx)).mp (hseen x hx)).2⟩
    have hg := List.mem_append_left [o] hg
    exact ((h.seen_iff (hmem g hg)).mp (hseen g hg)).1
  · intro hdrawn x hx
    refine (h.seen_iff (hmem x hx)).mpr ⟨?_, hdrawn.2 x hx⟩
    rcases List.mem_append.mp hx with hx | hx
    · exact hdrawn.1 x hx
    · rw [List.mem_singleton.mp hx]
      exact admits_of_leaf hleaf

theorem Painted.isDrawList {outer : Surroundings R}
    (h : Painted settings measurer sampler frame objects outer positions items)
    (hcomparable : Comparable settings sampler frame objects) :
    IsDrawList settings sampler frame objects items positions := by
  refine ⟨h.draws.imp fun pos it hdraws => ?_, h.nodup, fun pos => ⟨fun hpos => ?_, fun hdrawn => ?_⟩,
    fun m n p q hp hq hne => ?_, fun m n i j c p q front a b hp hq hne ha hb => ?_⟩
  · obtain ⟨front, o, inner, p, hway, -, -, hplaced, hitem⟩ := hdraws
    obtain ⟨blur, -, hitem⟩ := bind_eq_ok.mp hitem
    obtain rfl := pure_eq_ok.mp hitem
    exact ⟨front, o, hway, rfl, rfl, hplaced.props⟩
  · obtain ⟨it, -, hdraws⟩ := exists_related_of_mem h.draws.flip hpos
    exact hcomparable.leads_iff.mp (Draws.leads hdraws)
  · exact h.complete pos (hcomparable.leads_iff.mpr hdrawn)
  · rcases Nat.lt_or_gt_of_ne hne with hlt | hgt
    · exact (precedes_of_lt h.ordered hp hq hlt).parts
    · obtain ⟨c, i, j, p', q', front, a, b, hp, hq, hij, ha, hb⟩ :=
        (precedes_of_lt h.ordered hq hp hgt).parts
      exact ⟨c, j, i, q', p', front, b, a, hq, hp, hij.symm, hb, ha⟩
  · have hordered {x : Object R} {k : Nat} (hx : Object.way objects (c ++ [k]) = some (front ++ [x])) :
        (height x).isOrdered = true :=
      hcomparable.heights x (Address.mem_walk_of_way hx (by simp))
    rw [← comes_iff (hordered ha) (hordered hb)]
    constructor
    · intro hlt
      exact (precedes_of_lt h.ordered hp hq hlt).comes hne ha hb
    · intro hcomes
      rcases Nat.lt_trichotomy m n with hlt | rfl | hgt
      · exact hlt
      · have hsame := List.append_cancel_left (Option.some.inj (hp.symm.trans hq))
        exact absurd (List.cons.inj hsame).1 hne
      · exact absurd ((precedes_of_lt h.ordered hq hp hgt).comes hne.symm hb ha) hcomes.asymm

/-- Wherever a tree is composed at a frame and all heights, time windows and scales can be compared,
the items are the draw list of the frame; and for a frame that can be compared itself to be within
the time of a group means from its start through its start and its duration. -/
theorem compose_drawList (hcomparable : Comparable settings sampler frame objects)
    (h : compose settings measurer sampler objects frame = .ok items) :
    (∃ positions, IsDrawList settings sampler frame objects items positions) ∧
      (frame.isOrdered = true → ∀ o ∈ Address.walk objects,
        (o.groupInfo.Admits frame ↔ o.groupInfo.Contains frame)) := by
  obtain ⟨positions, hpainted⟩ := compose_painted hcomparable.heights h
  exact ⟨⟨positions, hpainted.isDrawList hcomparable⟩,
    fun hframe o ho => (hcomparable.windows o ho).admits_iff hframe⟩

/-- Exact numbers can all be compared. -/
theorem comparable_of_exact [Trig Rat] (settings : Settings Rat) (sampler : Sampler Rat)
    (frame : Number Rat) (objects : List (Object Rat)) :
    Comparable settings sampler frame objects := by
  have hordered (n : Number Rat) : n.isOrdered = true := by
    simp [Number.isOrdered, Number.eq_eq]
  exact ⟨fun o _ => hordered _, fun o _ s start _ _ => ⟨hordered _, fun _ _ _ _ _ _ => hordered _⟩,
    fun o _ props _ name _ n _ => hordered n⟩

/-- A rectangle that lies high, a group with a time window, a rectangle scaled to nothing, and one on
the ground. -/
def layered : List (Object Rat) :=
  let rect : Shape Rat := .rect ⟨none, none, none, ⟨none, none⟩⟩
  [.shape { Base.ofId (some "high") with z := some (.int 1) } rect [],
    .group (Base.ofId (some "late")) [.shape (Base.ofId (some "inner")) rect []]
      { GroupInfo.empty with
        start := some (.number (.int 2)), duration := some (.number (.int 3)) } [],
    .shape { Base.ofId (some "flat") with scale := some (.int 0) } rect [],
    .shape (Base.ofId (some "ground")) rect []]

/-- At the last frame of the window the rectangle in the group is drawn first. -/
theorem layered_drawn : ∃ items,
    @compose Rat _ unturned bareStudio.settings bareStudio.measurer ⟨[]⟩ layered (.int 5) =
      .ok items ∧
    items.map DrawItem.id = [some "inner", some "ground", some "high"] ∧
    ∃ positions, @IsDrawList Rat _ unturned bareStudio.settings ⟨[]⟩ (.int 5) layered items
      positions := by
  let _ : Trig Rat := unturned
  have hok : (compose bareStudio.settings bareStudio.measurer ⟨[]⟩ layered (.int 5)).toOption.any
      (fun items => decide (items.map DrawItem.id =
        [some "inner", some "ground", some "high"])) = true := by
    decide +kernel
  obtain ⟨items, hitems, hids⟩ := (Option.any_eq_true _ _).mp hok
  have hitems := toOption_eq_some.mp hitems
  have hcomparable := comparable_of_exact bareStudio.settings ⟨[]⟩ (.int 5) layered
  exact ⟨items, hitems, of_decide_eq_true hids, (compose_drawList hcomparable hitems).1⟩

end Composition

end Storyboard
