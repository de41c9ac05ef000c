import Mathlib.Algebra.Order.Field.Basic
import Storyboard.Proofs.Sampling

namespace Storyboard

open Outcome

variable {R : Type} [Scalar R]

namespace Keyframe

/-- The rational at which a keyframe starts, zero if it starts at none. -/
def time (k : Keyframe R) : Rat :=
  match k.start with
  | .number n =>
    match n.exact with
    | .finite q => q
    | _ => 0
  | .text _ => 0

/-- A keyframe that starts at a rational. -/
def Timed (k : Keyframe R) : Prop := ∃ n, k.start = .number n ∧ n.exact = .finite k.time

theorem Timed.of_start {k : Keyframe R} {n : Number R} {q : Rat} (hn : k.start = .number n)
    (hq : n.exact = .finite q) : k.Timed := by
  have htime : k.time = q := by simp [time, hn, hq]
  exact ⟨n, hn, htime ▸ hq⟩

theorem isAbove_of_timed {k : Keyframe R} (h : k.Timed) {frame : Number R} {f : Rat}
    (hf : frame.exact = .finite f) : k.start.isAbove frame = .ok (decide (f < k.time)) := by
  obtain ⟨n, hn, hexact⟩ := h
  rw [Quantity.isAbove, hn]
  change Except.ok (frame.lt n) = _
  rw [Number.lt, hf, hexact]
  rfl

theorem isBelow_of_timed {k : Keyframe R} (h : k.Timed) {frame : Number R} {f : Rat}
    (hf : frame.exact = .finite f) : k.start.isBelow frame = .ok (decide (k.time < f)) := by
  obtain ⟨n, hn, hexact⟩ := h
  rw [Quantity.isBelow, hn]
  change Except.ok (n.lt frame) = _
  rw [Number.lt, hf, hexact]
  rfl

theorem isAt_of_timed {k : Keyframe R} (h : k.Timed) {frame : Number R} {f : Rat}
    (hf : frame.exact = .finite f) : k.start.isAt frame = decide (k.time = f) := by
  obtain ⟨n, hn, hexact⟩ := h
  rw [hn]
  change n.eq frame = _
  rw [Number.eq, hf, hexact]
  rfl

end Keyframe

namespace Track

section

variable {α : Type} {p : α → Bool} {xs : List α}

/-- What holds of the elements in front of each element of which it holds parts a list in two. -/
theorem filter_append_filter_not (h : xs.Pairwise fun a b => p b = true → p a = true) :
    xs.filter p ++ xs.filter (fun a => !p a) = xs := by
  induction xs with
  | nil => rfl
  | cons x xs ih =>
    obtain ⟨hx, hxs⟩ := List.pairwise_cons.mp h
    by_cases hp : p x = true
    · simpa [hp] using ih hxs
    · have hnone : ∀ y ∈ xs, ¬ p y = true := fun y hy hpy => hp (hx y hy hpy)
      have hfront : xs.filter p = [] := List.filter_eq_nil_iff.mpr hnone
      have hbehind : xs.filter (fun a => !p a) = xs := by
        refine List.filter_eq_self.mpr fun y hy => ?_
        simpa using hnone y hy
      simp [hp, hfront, hbehind]

/-- The elements in front of the place at which a list is parted. -/
theorem getElem?_of_lt_count (h : xs.Pairwise fun a b => p b = true → p a = true) {i : Nat} {x : α}
    (hx : xs[i]? = some x) : p x = true ↔ i < xs.countP p := by
  have hsplit := filter_append_filter_not h
  rw [List.countP_eq_length_filter]
  rw [← hsplit] at hx
  by_cases hi : i < (xs.filter p).length
  · rw [List.getElem?_append_left hi] at hx
    exact iff_of_true (List.mem_filter.mp (List.mem_of_getElem? hx)).2 hi
  · rw [List.getElem?_append_right (by omega)] at hx
    have hnot := (List.mem_filter.mp (List.mem_of_getElem? hx)).2
    exact iff_of_false (by simpa using hnot) hi

theorem getElem?_count_sub_one (h : xs.Pairwise fun a b => p b = true → p a = true)
    (hpos : 0 < xs.countP p) : xs[xs.countP p - 1]? = (xs.filter p).getLast? := by
  have hcount : xs.countP p = (xs.filter p).length := List.countP_eq_length_filter
  rw [hcount] at hpos ⊢
  calc xs[(xs.filter p).length - 1]?
      = (xs.filter p ++ xs.filter fun a => !p a)[(xs.filter p).length - 1]? := by
        rw [filter_append_filter_not h]
    _ = (xs.filter p)[(xs.filter p).length - 1]? := List.getElem?_append_left (by omega)
    _ = (xs.filter p).getLast? := List.getLast?_eq_getElem?.symm

theorem getElem?_count (h : xs.Pairwise fun a b => p b = true → p a = true) :
    xs[xs.countP p]? = xs.find? fun a => !p a := by
  have hcount : xs.countP p = (xs.filter p).length := List.countP_eq_length_filter
  rw [hcount]
  calc xs[(xs.filter p).length]?
      = (xs.filter p ++ xs.filter fun a => !p a)[(xs.filter p).length]? := by
        rw [filter_append_filter_not h]
    _ = (xs.filter fun a => !p a)[0]? := by
        rw [List.getElem?_append_right (le_refl _), Nat.sub_self]
    _ = xs.find? fun a => !p a := by rw [← List.head?_eq_getElem?, List.head?_filter]

end

omit [Scalar R] in
/-- Bisection counts the keyframes to go behind, if these stand in front of all others. -/
theorem bisect_eq_count {behind : Keyframe R → Outcome Bool} {p : Keyframe R → Bool}
    {ks : List (Keyframe R)} (hbehind : ∀ k ∈ ks, behind k = .ok (p k))
    (h : ks.Pairwise fun a b => p b = true → p a = true) :
    bisect behind ks (ks.length + 1) 0 ks.length = .ok (ks.countP p) := by
  obtain ⟨n, hn, -, hle, hleft, hright⟩ := bisect_spec (fun k hk => ⟨p k, hbehind k hk⟩)
    (ks.length + 1) 0 ks.length (Nat.zero_le _) (le_refl _) (by omega)
  have hcount : ks.countP p ≤ ks.length := List.countP_le_length
  have hge : n ≤ ks.countP p := by
    by_cases hzero : n = 0
    · omega
    · obtain ⟨k, hk, hyes⟩ := hleft (by omega)
      rw [hbehind k (List.mem_of_getElem? hk), Except.ok.injEq, getElem?_of_lt_count h hk] at hyes
      omega
  have hge' : ks.countP p ≤ n := by
    by_cases hlast : n = ks.length
    · omega
    · obtain ⟨k, hk, hno⟩ := hright (by omega)
      rw [hbehind k (List.mem_of_getElem? hk), Except.ok.injEq] at hno
      have := (getElem?_of_lt_count h hk).not.mp (by simp [hno])
      omega
  rw [hn, le_antisymm hge hge']

/-- Keyframes that start at rationals, none before the one in front of it. -/
structure InTime (ks : List (Keyframe R)) : Prop where
  timed : ∀ k ∈ ks, k.Timed
  ascending : ks.Pairwise fun a b => a.time ≤ b.time

/-- The last keyframe that starts at or before a frame. -/
def lastUpTo (ks : List (Keyframe R)) (frame : Rat) : Option (Keyframe R) :=
  (ks.filter fun k => k.time ≤ frame).getLast?

/-- The first keyframe that starts after a frame. -/
def firstAfter (ks : List (Keyframe R)) (frame : Rat) : Option (Keyframe R) :=
  ks.find? fun k => frame < k.time

section

variable {ks : List (Keyframe R)} {frame : Number R} {f : Rat}

theorem InTime.upTo (h : InTime ks) (f : Rat) :
    ks.Pairwise fun a b => decide (b.time ≤ f) = true → decide (a.time ≤ f) = true := by
  refine h.ascending.imp fun hab => ?_
  simp only [decide_eq_true_eq]
  exact hab.trans

theorem InTime.before (h : InTime ks) (f : Rat) :
    ks.Pairwise fun a b => decide (b.time < f) = true → decide (a.time < f) = true := by
  refine h.ascending.imp fun hab => ?_
  simp only [decide_eq_true_eq]
  exact hab.trans_lt

theorem countUpTo_eq (h : InTime ks) (hf : frame.exact = .finite f) :
    countUpTo ks frame = .ok (ks.countP fun k => k.time ≤ f) := by
  refine bisect_eq_count (fun k hk => ?_) (h.upTo f)
  rw [Keyframe.isAbove_of_timed (h.timed k hk) hf]
  simp [Except.map, ← not_le]

theorem countBefore_eq (h : InTime ks) (hf : frame.exact = .finite f) :
    countBefore ks frame = .ok (ks.countP fun k => k.time < f) :=
  bisect_eq_count (fun k hk => Keyframe.isBelow_of_timed (h.timed k hk) hf) (h.before f)

theorem getElem?_countUpTo (h : InTime ks) (f : Rat) :
    ks[ks.countP fun k => k.time ≤ f]? = firstAfter ks f := by
  rw [getElem?_count (h.upTo f), firstAfter]
  simp [← not_le]

theorem lastUpTo_eq_some {p : Keyframe R} (hp : lastUpTo ks f = some p) :
    p ∈ ks ∧ p.time ≤ f ∧ 0 < ks.countP fun k => k.time ≤ f := by
  have hmem := List.mem_filter.mp (List.mem_of_getLast? hp)
  refine ⟨hmem.1, of_decide_eq_true hmem.2, ?_⟩
  exact List.countP_pos_iff.mpr ⟨p, hmem⟩

/-- The last keyframe up to a frame and the first one after it stand next to each other. -/
theorem neighbours (h : InTime ks) {p n : Keyframe R} (hp : lastUpTo ks f = some p)
    (hn : firstAfter ks f = some n) : ∃ before behind, ks = before ++ p :: n :: behind ∧
      before.length + 1 = ks.countP fun k => k.time ≤ f := by
  have hsplit := filter_append_filter_not (h.upTo f)
  obtain ⟨before, hbefore⟩ := List.getLast?_eq_some_iff.mp hp
  have hafter : (ks.filter fun k => !decide (k.time ≤ f)).head? = some n := by
    rw [List.head?_filter, ← hn, firstAfter]
    simp [← not_le]
  obtain ⟨behind, hbehind⟩ := List.head?_eq_some_iff.mp hafter
  refine ⟨before, behind, ?_, ?_⟩
  · rw [hbefore, hbehind] at hsplit
    simpa using hsplit.symm
  · rw [List.countP_eq_length_filter, hbefore]
    simp

/-- Unless a keyframe starts at the frame, no keyframe starts up to it that does not start
before. -/
theorem count_before_eq (h : InTime ks) {p : Keyframe R} (hp : lastUpTo ks f = some p)
    (hne : p.time ≠ f) :
    (ks.countP fun k => k.time < f) = ks.countP fun k => k.time ≤ f := by
  obtain ⟨front, hfront⟩ := List.getLast?_eq_some_iff.mp hp
  have hlast := h.ascending.filter (p := fun k => decide (k.time ≤ f))
  rw [hfront] at hlast
  have hle := (lastUpTo_eq_some hp).2.1
  refine List.countP_congr fun k hk => ?_
  simp only [decide_eq_true_eq]
  constructor
  · exact le_of_lt
  · intro hkf
    have hmem : k ∈ front ++ [p] := hfront ▸ List.mem_filter.mpr ⟨hk, decide_eq_true hkf⟩
    have hkp : k.time ≤ p.time := by
      rcases List.mem_append.mp hmem with hmem | hmem
      · exact (List.pairwise_append.mp hlast).2.2 k hmem p (List.mem_singleton_self p)
      · rw [List.mem_singleton.mp hmem]
    exact hkp.trans_lt (lt_of_le_of_ne hle hne)

end

end Track

namespace Easing

theorem bezierAt_real {u v : Number Rat} {p q : Rat}
    (h : bezierAt u (.real p) (.real q) = .ok v) : v = .real v.value := by
  simp only [bezierAt, Number.add, Number.sub, Number.mul, Number.lift_eq, ok_bind,
    Number.lifted_real_left, Number.lifted_real_right] at h
  cases h
  rfl

theorem bounceArc_real {t v : Number Rat} {floor : Option Rat} (h : bounceArc t floor = .ok v) :
    v = .real v.value := by
  cases floor with
  | none =>
    simp only [bounceArc, decimal, Number.mul, Number.lift_eq, ok_bind,
      Number.lifted_real_left] at h
    cases h
    rfl
  | some f =>
    simp only [bounceArc, decimal, Number.add, Number.mul, Number.lift_eq, ok_bind,
      Number.lifted_real_left] at h
    cases h
    rfl

theorem bounceAt_real {t v : Number Rat} (h : bounceAt t = .ok v) : v = .real v.value := by
  rw [bounceAt] at h
  split at h
  · exact bounceArc_real h
  · split at h
    · obtain ⟨u, -, h⟩ := bind_eq_ok.mp h
      exact bounceArc_real h
    · split at h
      all_goals
        obtain ⟨u, -, h⟩ := bind_eq_ok.mp h
        exact bounceArc_real h

theorem bezierHeight_real {steps : Nat} {error t x₁ x₂ v : Number Rat} {y₁ y₂ : Rat}
    (h : bezierHeight steps error t x₁ (.real y₁) x₂ (.real y₂) = .ok v) :
    v = .real v.value := by
  rw [bezierHeight] at h
  split at h
  · cases h
    rfl
  · split at h
    · cases h
      rfl
    · obtain ⟨u, -, h⟩ := bind_eq_ok.mp h
      exact bezierAt_real h

variable [Trig Rat]

theorem sine_real {n v : Number Rat} (h : sine n = .ok v) : v = .real v.value := by
  obtain ⟨x, -, h⟩ := bind_eq_ok.mp h
  cases h
  rfl

theorem elasticAt_real {t : Rat} {v : Number Rat} (h : elasticAt (.real t) = .ok v) :
    v = .real v.value := by
  rw [elasticAt] at h
  split at h
  · cases h
    rfl
  · obtain ⟨shifted, -, h⟩ := bind_eq_ok.mp h
    obtain ⟨scaled, -, h⟩ := bind_eq_ok.mp h
    obtain ⟨growth, -, h⟩ := bind_eq_ok.mp h
    obtain ⟨later, -, h⟩ := bind_eq_ok.mp h
    obtain ⟨turned, -, h⟩ := bind_eq_ok.mp h
    obtain ⟨phase, -, h⟩ := bind_eq_ok.mp h
    obtain ⟨wave, hwave, h⟩ := bind_eq_ok.mp h
    rw [sine_real hwave, Number.mul, Number.lift_eq, Number.lifted_real_right] at h
    cases h
    rfl

/-- Eased progress is a scalar, as progress is. -/
theorem apply_real {settings : Settings Rat} {e : Easing Rat} {t : Rat} {v : Number Rat}
    (h : e.apply settings (.real t) = .ok v) : v = .real v.value := by
  cases e with
  | linear | easeIn =>
    cases h
    rfl
  | easeOut =>
    obtain ⟨u, -, h⟩ := bind_eq_ok.mp h
    rw [Number.mul, Number.lift_eq] at h
    cases h
    rfl
  | easeInOut =>
    rw [apply] at h
    simp only [Number.add, Number.sub, Number.mul, Number.lift_eq, ok_bind,
      Number.lifted_real_right] at h
    split at h
    all_goals
      cases h
      rfl
  | bounce => exact bounceAt_real h
  | elastic => exact elasticAt_real h
  | bezier x1 y1 x2 y2 => exact bezierHeight_real h

end Easing

namespace Track

/-- How far a frame lies on the way from one keyframe to another, from zero to one. -/
def progress (p n : Keyframe Rat) (frame : Rat) : Rat := (frame - p.time) / (n.time - p.time)

/-- The keyframes that bisection finds around a frame: they stand next to each other, and the frame
lies behind the one and in front of the other. -/
structure Around (ks : List (Keyframe Rat)) (frame : Number Rat) (p n : Keyframe Rat) : Prop where
  adjacent : ∃ before behind, ks = before ++ p :: n :: behind ∧
    countUpTo ks frame = .ok (before.length + 1) ∧
    (p.time ≠ frame.value → countBefore ks frame = .ok (before.length + 1))
  apart : n.time - p.time ≠ 0
  started : p.time ≠ frame.value → 0 < progress p n frame.value
  unfinished : progress p n frame.value < 1

theorem around {ks : List (Keyframe Rat)} (h : InTime ks) {frame : Number Rat} {p n : Keyframe Rat}
    (hp : lastUpTo ks frame.value = some p) (hn : firstAfter ks frame.value = some n) :
    Around ks frame p n := by
  have hf := Number.exact_eq frame
  have hle := (lastUpTo_eq_some hp).2.1
  have hafter : frame.value < n.time := by simpa using List.find?_some hn
  have hgap : 0 < n.time - p.time := sub_pos.mpr (hle.trans_lt hafter)
  obtain ⟨before, behind, hks, hlength⟩ := neighbours h hp hn
  refine ⟨⟨before, behind, hks, ?_, fun hne => ?_⟩, hgap.ne', fun hne => ?_, ?_⟩
  · rw [countUpTo_eq h hf, hlength]
  · rw [countBefore_eq h hf, count_before_eq h hp hne, hlength]
  · have hbehind : 0 < frame.value - p.time := sub_pos.mpr (lt_of_le_of_ne hle hne)
    exact div_pos hbehind hgap
  · rw [progress, div_lt_one hgap]
    linarith

section

variable [Trig Rat]

/-- The value on the way from one keyframe to another, shaped by the easing of the second. Only
numbers are left behind on the way, other values are held. -/
def onTheWay (settings : Settings Rat) (p n : Keyframe Rat) (frame : Rat) :
    Outcome (Quantity Rat) :=
  match p.value, n.value with
  | .number a, .number b => do
    let easing ← Easing.ofOption n.easing
    let eased ← easing.apply settings (.real (progress p n frame))
    return .number (.real (a.value + (b.value - a.value) * eased.value))
  | _, _ => return p.value

/-- What a track shows at a frame: its first value before all keyframes, then the value of the last
keyframe up to the frame, and behind that one what is on the way to the next keyframe. -/
def shownAt (settings : Settings Rat) (ks : List (Keyframe Rat)) (frame : Rat) :
    Outcome (Option (Quantity Rat)) :=
  match lastUpTo ks frame with
  | none => .ok (ks.head?.map Keyframe.value)
  | some p =>
    if p.time = frame then .ok (some p.value)
    else
      match firstAfter ks frame with
      | none => .ok (some p.value)
      | some n => (onTheWay settings p n frame).map some

theorem between_eq {settings : Settings Rat} {p n : Keyframe Rat} (hp : p.Timed) (hn : n.Timed)
    (hlt : p.time < n.time) (here there frame : Number Rat) :
    between settings p n here there frame = (do
      let easing ← Easing.ofOption n.easing
      let eased ← easing.apply settings (.real (progress p n frame.value))
      return .real (here.value + (there.value - here.value) * eased.value)) := by
  obtain ⟨start, hstart, hp⟩ := hp
  obtain ⟨stop, hstop, hn⟩ := hn
  have hpt : start.value = p.time := by simpa [Number.exact_eq] using hp
  have hnt : stop.value = n.time := by simpa [Number.exact_eq] using hn
  obtain ⟨done, hdone⟩ := Number.sub_ok frame start
  obtain ⟨whole, hwhole⟩ := Number.sub_ok stop start
  have hnonzero : whole.value ≠ 0 := by
    rw [Number.sub_eq_ok hwhole, hpt, hnt]
    exact (sub_pos.mpr hlt).ne'
  have hprogress : done.div whole = .ok (.real (progress p n frame.value)) := by
    rw [Number.div_eq hnonzero, Number.sub_eq_ok hdone, Number.sub_eq_ok hwhole, hpt, hnt]
    rfl
  rw [between, hstart, hstop]
  simp only [Quantity.toNumber, ok_bind, hdone, hwhole, hprogress]
  refine bind_congr fun easing => bind_congr_of_ok fun eased heased => ?_
  obtain ⟨distance, hdistance⟩ := Number.sub_ok there here
  rw [Easing.apply_real heased, hdistance, ok_bind, Number.mul, Number.lift_eq,
    Number.lifted_real_right, ok_bind, Number.add, Number.lift_eq, Number.lifted_real_right,
    Number.sub_eq_ok hdistance]
  rfl

theorem sample_eq_shownAt {settings : Settings Rat} {ks : List (Keyframe Rat)} (hne : ks ≠ [])
    (h : InTime ks) (frame : Number Rat) :
    sample settings ks frame = shownAt settings ks frame.value := by
  have hf := Number.exact_eq frame
  obtain ⟨first, rest, rfl⟩ := List.exists_cons_of_ne_nil hne
  rw [sample, countUpTo_eq h hf, ok_bind, shownAt]
  -- One case for each place of the frame: before all keyframes, on one, behind all, between two.
  cases hp : lastUpTo (first :: rest) frame.value with
  | none =>
    have hnone : ((first :: rest).countP fun k => decide (k.time ≤ frame.value)) = 0 := by
      rw [List.countP_eq_length_filter, List.getLast?_eq_none_iff.mp hp, List.length_nil]
    rw [hnone]
    rfl
  | some p =>
    obtain ⟨hmem, hle, hpos⟩ := lastUpTo_eq_some hp
    have hprevious := (getElem?_count_sub_one (h.upTo frame.value) hpos).trans hp
    have hsome : (((first :: rest).countP fun k => decide (k.time ≤ frame.value)) == 0) = false := by
      simpa using hpos.ne'
    simp only [hsome, Bool.false_eq_true, if_false, hprevious, Option.getD_some,
      Keyframe.isAt_of_timed (h.timed p hmem) hf, decide_eq_true_eq]
    by_cases hat : p.time = frame.value
    · rw [if_pos hat, if_pos hat]
      rfl
    · rw [if_neg hat, if_neg hat, countBefore_eq h hf, ok_bind, count_before_eq h hp hat,
        getElem?_countUpTo h]
      cases hn : firstAfter (first :: rest) frame.value with
      | none => rfl
      | some n =>
        have hlt : p.time < n.time := by
          have hafter : frame.value < n.time := by simpa using List.find?_some hn
          exact hle.trans_lt hafter
        have hn' := h.timed n (List.mem_of_find?_eq_some hn)
        simp only [onTheWay]
        cases p.value with
        | text s => rfl
        | number a =>
          cases n.value with
          | text s => rfl
          | number b =>
            simp only [between_eq (h.timed p hmem) hn' hlt, map_bind, bind_assoc]
            exact bind_congr fun easing => bind_congr fun eased => rfl

theorem shownAt_ne_none {settings : Settings Rat} {ks : List (Keyframe Rat)} (hne : ks ≠ [])
    (frame : Rat) : shownAt settings ks frame ≠ .ok none := by
  intro h
  rw [shownAt] at h
  split at h
  · obtain ⟨first, rest, rfl⟩ := List.exists_cons_of_ne_nil hne
    cases h
  · split at h
    · cases h
    · split at h
      · cases h
      · obtain ⟨q, -, hq⟩ := map_eq_ok.mp h
        cases hq

theorem returns_shownAt {settings : Settings Rat}
    (herror : (Number.int 0).lt settings.bezierError = true) (ks : List (Keyframe Rat))
    (frame : Rat) : Returns (shownAt settings ks frame) := by
  have hway (p n : Keyframe Rat) : Only (Fault.Sampled settings) (onTheWay settings p n frame) := by
    rw [onTheWay]
    split
    · refine ((Easing.ranged_ofOption n.easing).mono fun _ => .inl).bind fun easing _ => ?_
      exact (Easing.sampled_apply settings easing _).bind fun _ _ => .pure _
    · exact .pure _
  rw [shownAt]
  split
  · exact returns_ok _
  · split
    · exact returns_ok _
    · split
      · exact returns_ok _
      · exact ((hway _ _).map some).returns_of_sampled not_limited_rat herror

/-- In exact arithmetic a track whose keyframes are in order shows at every frame what the keyframes
next to the frame say. -/
theorem sample_inTime {settings : Settings Rat} {ks : List (Keyframe Rat)} (hne : ks ≠ [])
    (h : InTime ks) (frame : Number Rat) :
    sample settings ks frame = shownAt settings ks frame.value ∧
      (0 < settings.bezierError.value → ∃ q, sample settings ks frame = .ok (some q)) ∧
      countUpTo ks frame = .ok (ks.countP fun k => k.time ≤ frame.value) ∧
      countBefore ks frame = .ok (ks.countP fun k => k.time < frame.value) ∧
      ∀ p n, lastUpTo ks frame.value = some p → firstAfter ks frame.value = some n →
        Around ks frame p n := by
  have hf := Number.exact_eq frame
  have hshown : sample settings ks frame = shownAt settings ks frame.value :=
    sample_eq_shownAt hne h frame
  refine ⟨hshown, fun herror => ?_, countUpTo_eq h hf, countBefore_eq h hf,
    fun p n hp hn => around h hp hn⟩
  have herror : (Number.int 0).lt settings.bezierError = true := by
    rw [Number.lt_eq]
    simpa using herror
  obtain ⟨found, hfound⟩ := returns_shownAt herror ks frame.value
  obtain ⟨q, rfl⟩ : ∃ q, found = some q := by
    refine Option.ne_none_iff_exists'.mp fun hnone => ?_
    exact shownAt_ne_none hne frame.value (by rw [hfound, hnone])
  exact ⟨q, hshown.trans hfound⟩

end

/-- Keyframes of which two start at one frame. -/
def stepped : List (Keyframe Rat) :=
  [⟨.number (.int 0), .number (.int 0), none, []⟩, ⟨.number (.int 10), .number (.int 10), none, []⟩,
    ⟨.number (.real 10), .number (.int 20), none, []⟩,
    ⟨.number (.int 30), .number (.int 60), some (.str "linear"), []⟩]

/-- The way to the last keyframe begins at the second one of the two. -/
theorem stepped_halfway : InTime stepped ∧
    @sample Rat _ unturned .standard stepped (.int 20) = .ok (some (.number (.real 40))) ∧
    (lastUpTo stepped 20).map Keyframe.value = some (.number (.int 20)) ∧
    (firstAfter stepped 20).map Keyframe.value = some (.number (.int 60)) := by
  let _ : Trig Rat := unturned
  have htimed : ∀ k ∈ stepped, k.Timed := by
    simp only [stepped, List.forall_mem_cons]
    refine ⟨.of_start rfl rfl, .of_start rfl rfl, .of_start rfl rfl, .of_start rfl rfl, ?_⟩
    exact fun k hk => absurd hk List.not_mem_nil
  have h : InTime stepped := ⟨htimed, by decide +kernel⟩
  refine ⟨h, (sample_inTime (by decide) h (.int 20)).1.trans ?_, by decide +kernel,
    by decide +kernel⟩
  decide +kernel

end Track

end Storyboard
