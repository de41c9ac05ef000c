import Mathlib.Order.Interval.Set.Basic
import Mathlib.Order.Monotone.Basic
import Storyboard.Proofs.Exact
import Storyboard.Easing.Curve

namespace Storyboard.Easing

/-- A formula for progress up to an end. -/
structure Piece where
  formula : Rat → Rat
  stop : Rat

/-- The height at some progress: the formula of the first piece that has not ended is used, and that
of the last piece from there on. -/
def height : List Piece → Rat → Rat
  | [], t => t
  | [p], t => p.formula t
  | p :: q :: rest, t => if t < p.stop then p.formula t else height (q :: rest) t

/-- An arc of the bounce, with its lowest point at a height above some progress. -/
def arc (center floor t : Rat) : Rat := 121 / 16 * (t - center) ^ 2 + floor

/-- The pieces of an easing; an elastic one and curves are left out. -/
def pieces : Easing Rat → List Piece
  | linear => [⟨fun t => t, 1⟩]
  | easeIn => [⟨fun t => t * t, 1⟩]
  | easeOut => [⟨fun t => t * (2 - t), 1⟩]
  | easeInOut => [⟨fun t => 2 * t * t, 1 / 2⟩, ⟨fun t => -1 + (4 - 2 * t) * t, 1⟩]
  | bounce => [⟨arc 0 0, 4 / 11⟩, ⟨arc (6 / 11) (3 / 4), 8 / 11⟩,
      ⟨arc (9 / 11) (15 / 16), 10 / 11⟩, ⟨arc (21 / 22) (63 / 64), 1⟩]
  | elastic | bezier .. => []

/-- The easings that never turn back. -/
inductive Steady : Easing Rat → Prop where
  | linear : Steady linear
  | easeIn : Steady easeIn
  | easeOut : Steady easeOut
  | easeInOut : Steady easeInOut

/-- The easings that stay between the ends of a segment. -/
inductive Confined : Easing Rat → Prop where
  | steady {e : Easing Rat} (h : Steady e) : Confined e
  | bounce : Confined bounce

theorem bounceArc_value (t : Number Rat) (floor : Option Rat) :
    ∃ v, bounceArc t floor = .ok v ∧ v.value = arc 0 (floor.getD 0) t.value := by
  have hfactor : (Scalar.const 75625 (-4) : Rat) = 121 / 16 := by decide +kernel
  obtain ⟨half, hhalf⟩ := Number.mul_ok (decimal 75625 (-4)) t
  obtain ⟨rise, hrise⟩ := Number.mul_ok half t
  have hvalue : rise.value = arc 0 0 t.value := by
    rw [Number.mul_eq_ok hrise, Number.mul_eq_ok hhalf, decimal, Number.value_real, hfactor, arc]
    ring
  rw [bounceArc, hhalf, Outcome.ok_bind, hrise, Outcome.ok_bind]
  cases floor with
  | none => exact ⟨rise, rfl, hvalue⟩
  | some f =>
    obtain ⟨v, hv⟩ := Number.add_ok rise (.real f)
    refine ⟨v, hv, ?_⟩
    rw [Number.add_eq_ok hv, hvalue, Number.value_real, Option.getD_some, arc, arc, add_zero]

/-- An arc that does not begin with the segment. -/
theorem shiftedArc_value (t : Number Rat) (center floor : Rat) :
    ∃ v, (do bounceArc (← t.sub (.real center)) (some floor)) = .ok v ∧
      v.value = arc center floor t.value := by
  obtain ⟨shifted, hshifted⟩ := Number.sub_ok t (.real center)
  obtain ⟨v, hv, hvalue⟩ := bounceArc_value shifted (some floor)
  refine ⟨v, by rw [hshifted]; exact hv, ?_⟩
  rw [hvalue, Number.sub_eq_ok hshifted, Option.getD_some, Number.value_real, arc, arc, sub_zero]

theorem bounceAt_value (t : Number Rat) :
    ∃ v, bounceAt t = .ok v ∧ v.value = height (pieces bounce) t.value := by
  have hfirst : (ratio 1 0 275 (-2) : Rat) = 4 / 11 := by decide +kernel
  have hsecond : (ratio 2 0 275 (-2) : Rat) = 8 / 11 := by decide +kernel
  have hthird : (ratio 25 (-1) 275 (-2) : Rat) = 10 / 11 := by decide +kernel
  have hcenters : (ratio 15 (-1) 275 (-2) : Rat) = 6 / 11 ∧
      (ratio 225 (-2) 275 (-2) : Rat) = 9 / 11 ∧ (ratio 2625 (-3) 275 (-2) : Rat) = 21 / 22 := by
    decide +kernel
  have hfloors : (Scalar.const 75 (-2) : Rat) = 3 / 4 ∧ (Scalar.const 9375 (-4) : Rat) = 15 / 16 ∧
      (Scalar.const 984375 (-6) : Rat) = 63 / 64 := by
    decide +kernel
  simp only [bounceAt, height, pieces, Number.lt_eq, Number.value_real, hfirst, hsecond, hthird,
    hcenters, hfloors]
  by_cases h1 : t.value < 4 / 11
  · simp only [h1, decide_true, if_true]
    exact bounceArc_value t none
  by_cases h2 : t.value < 8 / 11
  · simp only [h1, h2, decide_true, decide_false, Bool.false_eq_true, if_true, if_false]
    exact shiftedArc_value t _ _
  by_cases h3 : t.value < 10 / 11
  · simp only [h1, h2, h3, decide_true, decide_false, Bool.false_eq_true, if_true, if_false]
    exact shiftedArc_value t _ _
  · simp only [h1, h2, h3, decide_false, Bool.false_eq_true, if_false]
    exact shiftedArc_value t _ _

theorem apply_value [Trig Rat] (settings : Settings Rat) {e : Easing Rat} (h : Confined e)
    (t : Number Rat) : ∃ v, e.apply settings t = .ok v ∧ v.value = height e.pieces t.value := by
  cases h with
  | steady h =>
    cases h with
    | linear => exact ⟨t, rfl, rfl⟩
    | easeIn =>
      obtain ⟨v, hv⟩ := Number.mul_ok t t
      exact ⟨v, hv, Number.mul_eq_ok hv⟩
    | easeOut =>
      obtain ⟨rest, hrest⟩ := Number.sub_ok (whole 2) t
      obtain ⟨v, hv⟩ := Number.mul_ok t rest
      refine ⟨v, by rw [apply, hrest]; exact hv, ?_⟩
      rw [Number.mul_eq_ok hv, Number.sub_eq_ok hrest]
      rfl
    | easeInOut =>
      have hmiddle : (decimal 5 (-1) : Number Rat).value = 1 / 2 := Scalar.const_half
      obtain ⟨double, hdouble⟩ := Number.mul_ok (whole 2) t
      simp only [apply, height, pieces, Number.lt_eq, hmiddle, hdouble, Outcome.ok_bind]
      by_cases hbefore : t.value < 1 / 2
      · simp only [hbefore, decide_true, if_true]
        obtain ⟨v, hv⟩ := Number.mul_ok double t
        refine ⟨v, hv, ?_⟩
        rw [Number.mul_eq_ok hv, Number.mul_eq_ok hdouble]
        rfl
      · simp only [hbefore, decide_false, Bool.false_eq_true, if_false]
        obtain ⟨rest, hrest⟩ := Number.sub_ok (whole 4) double
        obtain ⟨rise, hrise⟩ := Number.mul_ok rest t
        obtain ⟨v, hv⟩ := Number.add_ok (whole (-1)) rise
        refine ⟨v, by rw [hrest, Outcome.ok_bind, hrise, Outcome.ok_bind, hv], ?_⟩
        rw [Number.add_eq_ok hv, Number.mul_eq_ok hrise, Number.sub_eq_ok hrest,
          Number.mul_eq_ok hdouble]
        simp [whole]
  | bounce => exact bounceAt_value t

/-- The pieces of an easing meet where one goes over into the next. -/
def Seamless (ps : List Piece) : Prop := ps.IsChain fun p q => p.formula p.stop = q.formula p.stop

theorem pieces_seamless (e : Easing Rat) : Seamless e.pieces := by
  cases e <;> norm_num [Seamless, pieces, arc]

theorem height_zero {e : Easing Rat} (h : Confined e) : height e.pieces 0 = 0 := by
  cases h with
  | steady h => cases h <;> norm_num [pieces, height]
  | bounce => norm_num [pieces, height, arc]

theorem height_one {e : Easing Rat} (h : Confined e) : height e.pieces 1 = 1 := by
  cases h with
  | steady h => cases h <;> norm_num [pieces, height]
  | bounce => norm_num [pieces, height, arc]

/-- Pieces that rise and meet rise together. -/
theorem monotoneOn_height_cons {p q : Piece} {rest : List Piece} {a b : Rat}
    (hfirst : MonotoneOn p.formula (Set.Icc a p.stop))
    (hrest : MonotoneOn (height (q :: rest)) (Set.Icc p.stop b))
    (hseam : p.formula p.stop = height (q :: rest) p.stop) :
    MonotoneOn (height (p :: q :: rest)) (Set.Icc a b) := by
  intro x hx y hy hxy
  rw [height, height]
  by_cases hxstop : x < p.stop
  · rw [if_pos hxstop]
    by_cases hystop : y < p.stop
    · rw [if_pos hystop]
      exact hfirst ⟨hx.1, hxstop.le⟩ ⟨hy.1, hystop.le⟩ hxy
    · rw [if_neg hystop]
      have hstop := not_lt.mp hystop
      calc p.formula x
          ≤ p.formula p.stop :=
            hfirst ⟨hx.1, hxstop.le⟩ ⟨hx.1.trans hxstop.le, le_rfl⟩ hxstop.le
        _ = height (q :: rest) p.stop := hseam
        _ ≤ height (q :: rest) y := hrest ⟨le_rfl, hstop.trans hy.2⟩ ⟨hstop, hy.2⟩ hstop
  · have hstop := not_lt.mp hxstop
    rw [if_neg hxstop, if_neg (hstop.trans hxy).not_gt]
    exact hrest ⟨hstop, hx.2⟩ ⟨hstop.trans hxy, hy.2⟩ hxy

/-- The easings that never turn back rise from the beginning to the end of a segment. -/
theorem height_mono {e : Easing Rat} (h : Steady e) :
    MonotoneOn (height e.pieces) (Set.Icc 0 1) := by
  cases h with
  | linear => exact fun x _ y _ hxy => hxy
  | easeIn => exact fun x hx y _ hxy => mul_le_mul hxy hxy hx.1 (hx.1.trans hxy)
  | easeOut =>
    intro x hx y hy hxy
    change x * (2 - x) ≤ y * (2 - y)
    linarith [mul_nonneg (sub_nonneg.mpr hxy) (by linarith [hx.2, hy.2] : 0 ≤ 2 - x - y)]
  | easeInOut =>
    refine monotoneOn_height_cons ?_ ?_ (by norm_num [height])
    · intro x hx y _ hxy
      have hsquare := mul_le_mul hxy hxy hx.1 (hx.1.trans hxy)
      change 2 * x * x ≤ 2 * y * y
      linarith
    · intro x hx y hy hxy
      change -1 + (4 - 2 * x) * x ≤ -1 + (4 - 2 * y) * y
      linarith [mul_nonneg (sub_nonneg.mpr hxy) (by linarith [hx.2, hy.2] : 0 ≤ 2 - x - y)]

/-- An arc stays below the height that it has at its reach. -/
theorem arc_unit {center floor t : Rat} (reach : Rat) (hfloor : 0 ≤ floor)
    (htop : 121 / 16 * reach ^ 2 + floor = 1) (hlow : center - reach ≤ t)
    (hhigh : t ≤ center + reach) : 0 ≤ arc center floor t ∧ arc center floor t ≤ 1 := by
  have hsquare : (t - center) ^ 2 ≤ reach ^ 2 := sq_le_sq' (by linarith) (by linarith)
  constructor
  · rw [arc]
    positivity
  · rw [arc]
    linarith

theorem height_unit {e : Easing Rat} (h : Confined e) {t : Rat} (h0 : 0 ≤ t) (h1 : t ≤ 1) :
    0 ≤ height e.pieces t ∧ height e.pieces t ≤ 1 := by
  have hzero := height_zero h
  have hone := height_one h
  cases h with
  | steady h =>
    have hmono := height_mono h
    constructor
    · rw [← hzero]
      exact hmono ⟨le_rfl, zero_le_one⟩ ⟨h0, h1⟩ h0
    · rw [← hone]
      exact hmono ⟨h0, h1⟩ ⟨zero_le_one, le_rfl⟩ h1
  | bounce =>
    simp only [pieces, height]
    split
    · exact arc_unit (4 / 11) le_rfl (by norm_num) (by linarith) (by linarith)
    · split
      · exact arc_unit (2 / 11) (by norm_num) (by norm_num) (by linarith) (by linarith)
      · split
        · exact arc_unit (1 / 11) (by norm_num) (by norm_num) (by linarith) (by linarith)
        · exact arc_unit (1 / 22) (by norm_num) (by norm_num) (by linarith) (by linarith)

end Storyboard.Easing
