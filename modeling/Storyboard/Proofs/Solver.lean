import Storyboard.Proofs.Newton
import Storyboard.Proofs.Sampling

namespace Storyboard.Easing

open Outcome

namespace Crossing

variable {c : Crossing} {ε u v : Rat} {n : Nat}

/-- The parameter with which the loop is left from another one: when no steps are left, where the
error is small, or where the slope is. -/
inductive Leaves (c : Crossing) (ε : Rat) : Nat → Rat → Rat → Prop where
  | spent {u : Rat} : Leaves c ε 0 u u
  | solved {n : Nat} {u : Rat} (herror : |c.error u| < ε) : Leaves c ε (n + 1) u u
  | level {n : Nat} {u : Rat} (herror : ε ≤ |c.error u|) (hslope : |c.slope u| < ε) :
    Leaves c ε (n + 1) u u
  | step {n : Nat} {u v : Rat} (herror : ε ≤ |c.error u|) (hslope : ε ≤ |c.slope u|)
    (h : Leaves c ε n (c.next u) v) : Leaves c ε (n + 1) u v

theorem ne_zero_of_le_abs {x : Rat} (hε : 0 < ε) (h : ε ≤ |x|) : x ≠ 0 :=
  abs_pos.mp (hε.trans_le h)

theorem Leaves.safe (h : c.Leaves ε n u v) (hε : 0 < ε) (hu : c.Safe u) : c.Safe v := by
  induction h with
  | spent => exact hu
  | solved => exact hu
  | level => exact hu
  | step _ hslope _ ih => exact ih (hu.next (ne_zero_of_le_abs hε hslope))

theorem neg_le_error (c : Crossing) (h0 : 0 ≤ u) (h1 : u ≤ 1) : -c.t ≤ c.error u := by
  have hu := sub_nonneg.mpr h1
  have hx1 := c.x1_nonneg
  have hx2 := c.x2_nonneg
  have hheight : 0 ≤ curveAt c.x1 c.x2 u := by
    rw [curveAt]
    positivity
  rw [error]
  linarith

theorem abs_bend_le (h0 : 0 ≤ u) (h1 : u ≤ 1) {k : Rat} (hstart : |c.bend 0| ≤ k)
    (hfinish : |c.bend 1| ≤ k) : |c.bend u| ≤ k := by
  rw [abs_le] at *
  have hu := sub_nonneg.mpr h1
  rw [bend_mean]
  constructor
  · linarith [mul_le_mul_of_nonneg_left hstart.1 hu, mul_le_mul_of_nonneg_left hfinish.1 h0]
  · linarith [mul_le_mul_of_nonneg_left hstart.2 hu, mul_le_mul_of_nonneg_left hfinish.2 h0]

theorem abs_bend_le_two (c : Crossing) (h0 : 0 ≤ u) (h1 : u ≤ 1) : |c.bend u| ≤ 2 := by
  refine abs_bend_le h0 h1 ?_ ?_
  all_goals
    simp only [bend, jerk]
    rw [abs_le]
    constructor <;> linarith [c.x1_nonneg, c.x1_le_one, c.x2_nonneg, c.x2_le_one]

/-- For a place that is near the beginning, one step is enough, and it leads to the left of it. -/
theorem next_near (hε : c.t < ε) (hsmall : ε ≤ 1 / 10) (herror : ε ≤ |c.error c.t|)
    (hslope : c.slope c.t ≠ 0) :
    0 ≤ c.next c.t ∧ c.next c.t ≤ c.t ∧ |c.error (c.next c.t)| < ε := by
  have hpos := slope_start_pos hslope
  have hright : 0 ≤ c.error c.t := by
    by_contra hneg
    have hlow := c.neg_le_error c.t_pos.le c.t_lt_one.le
    rw [abs_of_neg (not_le.mp hneg)] at herror
    linarith
  have hle := next_le hpos hright
  have hsquare : c.t ^ 2 ≤ c.t / 10 := by
    have := mul_le_mul_of_nonneg_left (hε.le.trans hsmall) c.t_pos.le
    linarith
  have hnonneg : 0 ≤ c.next c.t := by
    have htangent := c.error_eq c.t 0
    rw [error_zero] at htangent
    have hstart := (abs_le.mp (c.abs_bend_le_two le_rfl zero_le_one)).1
    have hhere := (abs_le.mp (c.abs_bend_le_two c.t_pos.le c.t_lt_one.le)).1
    have hbends := mul_nonneg (sq_nonneg c.t)
      (by linarith : 0 ≤ 2 * c.bend c.t + c.bend 0 + 6)
    have hdiv : c.error c.t / c.slope c.t ≤ c.t := by
      rw [div_le_iff₀ hpos]
      linarith [c.t_pos]
    exact sub_nonneg.mpr hdiv
  refine ⟨hnonneg, hle, ?_⟩
  have hbends : |2 * c.bend c.t + c.bend (c.next c.t)| ≤ 6 := by
    have hhere := abs_le.mp (c.abs_bend_le_two c.t_pos.le c.t_lt_one.le)
    have hnext := abs_le.mp (c.abs_bend_le_two hnonneg (hle.trans c.t_lt_one.le))
    exact abs_le.mpr ⟨by linarith, by linarith⟩
  have hstep : (c.next c.t - c.t) ^ 2 ≤ c.t ^ 2 := by
    rw [sq_le_sq, abs_of_nonpos (sub_nonpos.mpr hle), abs_of_pos c.t_pos]
    linarith
  calc |c.error (c.next c.t)|
      = (c.next c.t - c.t) ^ 2 * |2 * c.bend c.t + c.bend (c.next c.t)| := by
        rw [error_next hslope, abs_mul, abs_of_nonneg (sq_nonneg _)]
    _ ≤ c.t ^ 2 * 6 := mul_le_mul hstep hbends (abs_nonneg _) (sq_nonneg _)
    _ < ε := by linarith

/-- A parameter of small error is not left. -/
theorem Leaves.eq_of_abs_error_lt (h : c.Leaves ε n u v) (herror : |c.error u| < ε) : v = u := by
  cases h with
  | spent => rfl
  | solved => rfl
  | level => rfl
  | step hlarge => exact absurd herror hlarge.not_gt

theorem Leaves.unit_of_near (h : c.Leaves ε n c.t v) (hε : 0 < ε) (hsmall : ε ≤ 1 / 10)
    (hnear : c.t < ε) : 0 ≤ v ∧ v ≤ 1 := by
  cases h with
  | spent => exact ⟨c.t_pos.le, c.t_lt_one.le⟩
  | solved => exact ⟨c.t_pos.le, c.t_lt_one.le⟩
  | level => exact ⟨c.t_pos.le, c.t_lt_one.le⟩
  | step herror hslope h =>
    obtain ⟨h0, hle, hsolved⟩ := next_near hnear hsmall herror (ne_zero_of_le_abs hε hslope)
    rw [h.eq_of_abs_error_lt hsolved]
    exact ⟨h0, hle.trans c.t_lt_one.le⟩

theorem Leaves.mirror (h : c.Leaves ε n u v) : c.mirror.Leaves ε n (1 - u) (1 - v) := by
  induction h with
  | spent => exact .spent
  | solved herror => exact .solved (by rwa [mirror_error, abs_neg])
  | level herror hslope =>
    exact .level (by rwa [mirror_error, abs_neg]) (by rwa [mirror_slope])
  | step herror hslope _ ih =>
    refine .step (by rwa [mirror_error, abs_neg]) (by rwa [mirror_slope]) ?_
    rwa [mirror_next]

/-- A parameter with which the loop is left lies between the ends of the curve if the error is
small. -/
theorem Leaves.unit (h : c.Leaves ε n c.t v) (hε : 0 < ε) (hsmall : ε ≤ 1 / 10)
    (hsolved : |c.error v| < ε) : 0 ≤ v ∧ v ≤ 1 := by
  have hconfined := (h.safe hε (.here rfl)).confined
  rcases lt_or_ge c.t ε with hnear | hfar
  · exact h.unit_of_near hε hsmall hnear
  rcases lt_or_ge c.mirror.t ε with hnear' | hfar'
  · obtain ⟨h0, h1⟩ := Leaves.unit_of_near (c := c.mirror) h.mirror hε hsmall hnear'
    exact ⟨by linarith, by linarith⟩
  · constructor
    · by_contra hneg
      exact absurd (hconfined.left (not_le.mp hneg)) (by linarith)
    · by_contra hbeyond
      have hright := hconfined.right (not_le.mp hbeyond)
      have hend : ε ≤ 1 - c.t := hfar'
      linarith

/-- A curve that is not far from the straight one. -/
structure Gentle (c : Crossing) : Prop where
  x1 : |c.x1 - 1 / 3| ≤ 1 / 8
  x2 : |c.x2 - 2 / 3| ≤ 1 / 8

namespace Gentle

theorem abs_bend_zero_le (h : c.Gentle) : |c.bend 0| ≤ 3 / 8 := by
  obtain ⟨h1, h1'⟩ := abs_le.mp h.x1
  obtain ⟨h2, h2'⟩ := abs_le.mp h.x2
  rw [bend, abs_le]
  constructor <;> linarith

theorem abs_bend_one_le (h : c.Gentle) : |c.bend 1| ≤ 3 / 8 := by
  obtain ⟨h1, h1'⟩ := abs_le.mp h.x1
  obtain ⟨h2, h2'⟩ := abs_le.mp h.x2
  rw [bend, jerk, abs_le]
  constructor <;> linarith

theorem abs_jerk_le (h : c.Gentle) : |c.jerk| ≤ 3 / 4 := by
  obtain ⟨h1, h1'⟩ := abs_le.mp h.x1
  obtain ⟨h2, h2'⟩ := abs_le.mp h.x2
  rw [jerk, abs_le]
  constructor <;> linarith

theorem slope_ge (h : c.Gentle) (h0 : 0 ≤ u) (h1 : u ≤ 1) : 7 / 16 ≤ c.slope u := by
  have hx1 := abs_le.mp h.x1
  have hx2 := abs_le.mp h.x2
  have hu := sub_nonneg.mpr h1
  have hslope : c.slope u = 3 * ((1 - u) ^ 2 * c.x1 + 2 * ((1 - u) * u) * (c.x2 - c.x1) +
      u ^ 2 * (1 - c.x2)) := by
    simp only [slope, slopeAt]
    ring
  have hfirst := mul_le_mul_of_nonneg_left (by linarith : 5 / 24 ≤ c.x1) (sq_nonneg (1 - u))
  have hmiddle := mul_le_mul_of_nonneg_left (by linarith : 1 / 12 ≤ c.x2 - c.x1)
    (mul_nonneg zero_le_two (mul_nonneg hu h0))
  have hlast := mul_le_mul_of_nonneg_left (by linarith : 5 / 24 ≤ 1 - c.x2) (sq_nonneg u)
  have hcenter := sq_nonneg (2 * u - 1)
  rw [hslope]
  linarith

/-- At first the error is small near either end. -/
theorem abs_error_start_le (h : c.Gentle) : |c.error c.t| ≤ 3 / 8 * (c.t * (1 - c.t)) := by
  have ht := sub_pos.mpr c.t_lt_one
  have herror : c.error c.t = 3 * (c.t * (1 - c.t)) *
      ((1 - c.t) * (c.x1 - 1 / 3) + c.t * (c.x2 - 2 / 3)) := by
    simp only [error, curveAt]
    ring
  have hmean : |(1 - c.t) * (c.x1 - 1 / 3) + c.t * (c.x2 - 2 / 3)| ≤ 1 / 8 := by
    calc |(1 - c.t) * (c.x1 - 1 / 3) + c.t * (c.x2 - 2 / 3)|
        ≤ (1 - c.t) * |c.x1 - 1 / 3| + c.t * |c.x2 - 2 / 3| := by
          refine (abs_add_le _ _).trans_eq ?_
          rw [abs_mul, abs_mul, abs_of_pos ht, abs_of_pos c.t_pos]
      _ ≤ (1 - c.t) * (1 / 8) + c.t * (1 / 8) := by
          exact add_le_add (mul_le_mul_of_nonneg_left h.x1 ht.le)
            (mul_le_mul_of_nonneg_left h.x2 c.t_pos.le)
      _ = 1 / 8 := by ring
  have hplace : 0 ≤ 3 * (c.t * (1 - c.t)) := by
    have := c.t_pos
    positivity
  rw [herror, abs_mul, abs_of_nonneg hplace]
  linarith [mul_le_mul_of_nonneg_left hmean hplace]

/-- The error is squared by a step, up to a factor. -/
theorem abs_error_next_le (h : c.Gentle) (h0 : 0 ≤ u) (h1 : u ≤ 1) (herror : |c.error u| ≤ 3 / 32) :
    |c.error (c.next u)| ≤ 168 / 25 * |c.error u| ^ 2 := by
  have hslope := h.slope_ge h0 h1
  have hpos : 0 < c.slope u := by linarith
  have hstep : |c.next u - u| ≤ 16 / 7 * |c.error u| := by
    have hmoved : c.next u - u = -(c.error u / c.slope u) := by
      rw [next]
      ring
    rw [hmoved, abs_neg, abs_div, abs_of_pos hpos, div_le_iff₀ hpos]
    linarith [mul_le_mul_of_nonneg_left hslope (abs_nonneg (c.error u))]
  have hbend : |2 * c.bend u + c.bend (c.next u)| ≤ 9 / 7 := by
    have hhere := abs_bend_le h0 h1 h.abs_bend_zero_le h.abs_bend_one_le
    have hturn : |c.jerk * (c.next u - u)| ≤ 3 / 4 * (3 / 14) := by
      rw [abs_mul]
      exact mul_le_mul h.abs_jerk_le (by linarith) (abs_nonneg _) (by norm_num)
    have hsum : 2 * c.bend u + c.bend (c.next u) = 3 * c.bend u + c.jerk * (c.next u - u) := by
      rw [c.bend_eq u (c.next u)]
      ring
    rw [hsum]
    rw [abs_le] at hhere hturn ⊢
    constructor <;> linarith
  have hsquare : (c.next u - u) ^ 2 ≤ (16 / 7 * |c.error u|) ^ 2 := by
    rw [← sq_abs (c.next u - u)]
    exact pow_le_pow_left₀ (abs_nonneg _) hstep 2
  calc |c.error (c.next u)|
      = (c.next u - u) ^ 2 * |2 * c.bend u + c.bend (c.next u)| := by
        rw [error_next hpos.ne', abs_mul, abs_of_nonneg (sq_nonneg _)]
    _ ≤ (16 / 7 * |c.error u|) ^ 2 * (9 / 7) :=
        mul_le_mul hsquare hbend (abs_nonneg _) (sq_nonneg _)
    _ ≤ 168 / 25 * |c.error u| ^ 2 := by
        linarith [sq_nonneg |c.error u|]

end Gentle

/-- A parameter that Newton's method closes in from: it lies between the ends of the curve, its
error is small against the distances of the place from them, and a multiple of it has a bound. -/
structure Closing (c : Crossing) (u bound : Rat) : Prop where
  safe : c.Safe u
  nonneg : 0 ≤ u
  le_one : u ≤ 1
  small : |c.error u| ≤ 3 / 8 * (c.t * (1 - c.t))
  bounded : 168 / 25 * |c.error u| ≤ bound

namespace Closing

variable {bound : Rat}

theorem start (h : c.Gentle) : c.Closing c.t (63 / 100) where
  safe := .here rfl
  nonneg := c.t_pos.le
  le_one := c.t_lt_one.le
  small := h.abs_error_start_le
  bounded := by
    have hcenter := sq_nonneg (2 * c.t - 1)
    linarith [h.abs_error_start_le]

theorem abs_error_le (h : c.Closing u bound) : |c.error u| ≤ 3 / 32 := by
  have hcenter := sq_nonneg (2 * c.t - 1)
  linarith [h.small]

/-- A step squares the bound. -/
theorem next (h : c.Closing u bound) (hgentle : c.Gentle) : c.Closing (c.next u) (bound ^ 2) := by
  have hslope := hgentle.slope_ge h.nonneg h.le_one
  have hsafe := h.safe.next (by linarith : 0 < c.slope u).ne'
  have herror := hgentle.abs_error_next_le h.nonneg h.le_one h.abs_error_le
  have hshrinks : |c.error (c.next u)| ≤ |c.error u| := by
    have := mul_le_mul_of_nonneg_right h.abs_error_le (abs_nonneg (c.error u))
    linarith [abs_nonneg (c.error u)]
  have hsmall := hshrinks.trans h.small
  -- The error is too small for a parameter that has left the unit interval.
  have hrest := sub_pos.mpr c.t_lt_one
  refine ⟨hsafe, ?_, ?_, hsmall, ?_⟩
  · by_contra hneg
    have hleft := hsafe.confined.left (not_le.mp hneg)
    linarith [mul_pos c.t_pos c.t_pos, c.t_pos]
  · by_contra hbeyond
    have hright := hsafe.confined.right (not_le.mp hbeyond)
    linarith [mul_pos hrest hrest]
  · calc 168 / 25 * |c.error (c.next u)|
        ≤ (168 / 25 * |c.error u|) ^ 2 := by linarith
      _ ≤ bound ^ 2 :=
        pow_le_pow_left₀ (mul_nonneg (by norm_num) (abs_nonneg _)) h.bounded 2

/-- After a number of steps the bound has been squared as often. -/
theorem leaves (h : c.Closing u bound) (hgentle : c.Gentle) (hε : ε ≤ 7 / 16)
    (hleaves : c.Leaves ε n u v) : |c.error v| < ε ∨ c.Closing v (bound ^ 2 ^ n) := by
  induction hleaves generalizing bound with
  | spent => exact .inr (by rwa [pow_zero, pow_one])
  | solved herror => exact .inl herror
  | level herror hslope =>
    have hsteep := hgentle.slope_ge h.nonneg h.le_one
    exact absurd ((le_abs_self _).trans_lt hslope) (by linarith)
  | step _ _ _ ih =>
    have hrest := ih (h.next hgentle)
    rwa [← pow_mul, ← pow_succ'] at hrest

end Closing

/-- On a curve that is not far from the straight one the place is found within ten steps. -/
theorem Gentle.solved (h : c.Gentle) (hleaves : c.Leaves (1 / 10 ^ 6) 10 c.t v) :
    |c.error v| < 1 / 10 ^ 6 := by
  rcases (Closing.start h).leaves h (by norm_num) hleaves with hsolved | hclosing
  · exact hsolved
  · have hpower : (63 / 100 : Rat) ^ 2 ^ 10 ≤ (63 / 100) ^ 32 :=
      pow_le_pow_of_le_one (by norm_num) (by norm_num) (by norm_num)
    have hsmall : (63 / 100 : Rat) ^ 32 < 168 / 25 * (1 / 10 ^ 6) := by norm_num
    exact lt_of_mul_lt_mul_left ((hclosing.bounded.trans hpower).trans_lt hsmall) (by norm_num)

end Crossing

theorem bezierAt_eq (u p q : Rat) :
    bezierAt (.real u) (.real p) (.real q) = .ok (.real (curveAt p q u)) := by
  simp only [bezierAt, whole, Number.add, Number.sub, Number.mul, Number.lift_eq, ok_bind,
    Number.lifted_real_right]
  rfl

theorem bezierSlope_eq (u p q : Rat) :
    bezierSlope (.real u) (.real p) (.real q) = .ok (.real (slopeAt p q u)) := by
  simp only [bezierSlope, whole, Number.add, Number.sub, Number.mul, Number.lift_eq, ok_bind,
    Number.lifted_real_right]
  rfl

theorem magnitude_lt {x : Rat} {error : Number Rat} :
    (magnitude (.real x)).lt error = true ↔ |x| < error.value := by
  have hvalue : (magnitude (.real x)).value = |x| := by
    rw [magnitude]
    split
    · rename_i hneg
      rw [Number.lt_eq, decide_eq_true_eq] at hneg
      exact (abs_of_neg hneg).symm
    · rename_i hnonneg
      rw [Number.lt_eq, decide_eq_true_eq, not_lt] at hnonneg
      exact (abs_of_nonneg hnonneg).symm
  rw [Number.lt_eq, hvalue, decide_eq_true_eq]

/-- The loop of the solver goes the way of Newton's method. -/
theorem solve_leaves {error : Number Rat} (herror : 0 < error.value) (c : Crossing) (n : Nat)
    (u : Rat) : ∃ v, c.Leaves error.value n u v ∧
      solve error (.real c.t) (.real c.x1) (.real c.x2) n (.real u) = .ok (.real v) := by
  induction n generalizing u with
  | zero => exact ⟨u, .spent, rfl⟩
  | succ n ih =>
    have hresidual : (Number.real (curveAt c.x1 c.x2 u)).sub (.real c.t) =
        .ok (.real (c.error u)) := rfl
    simp only [solve, bezierAt_eq, bezierSlope_eq, ok_bind, hresidual]
    split
    · rename_i hsolved
      exact ⟨u, .solved (magnitude_lt.mp hsolved), rfl⟩
    · rename_i hlarge
      have hlarge' : error.value ≤ |c.error u| := not_lt.mp fun h => hlarge (magnitude_lt.mpr h)
      split
      · rename_i hlevel
        exact ⟨u, .level hlarge' (magnitude_lt.mp hlevel), rfl⟩
      · rename_i hsteep
        have hsteep' : error.value ≤ |c.slope u| := not_lt.mp fun h => hsteep (magnitude_lt.mpr h)
        have hne : (Number.real (slopeAt c.x1 c.x2 u)).value ≠ 0 :=
          Crossing.ne_zero_of_le_abs herror hsteep'
        obtain ⟨v, hleaves, hv⟩ := ih (c.next u)
        refine ⟨v, .step hlarge' hsteep' hleaves, ?_⟩
        rw [Number.div_eq hne, ok_bind]
        exact hv

/-- The height of a curve at a place, as it is computed where nothing is configured. -/
def Crossing.height (c : Crossing) (y1 y2 : Rat) : Outcome (Number Rat) :=
  let settings : Settings Rat := .standard
  bezierHeight settings.bezierSteps.toNat settings.bezierError (.real c.t) (.real c.x1) (.real y1)
    (.real c.x2) (.real y2)

theorem standard_bezierError : (Settings.standard (R := Rat)).bezierError.value = 1 / 10 ^ 6 := by
  decide +kernel

theorem Crossing.exists_leaves (c : Crossing) : ∃ u, c.Leaves (1 / 10 ^ 6) 10 c.t u ∧
    ∀ y1 y2, c.height y1 y2 = .ok (.real (curveAt y1 y2 u)) := by
  have hpos : 0 < (Settings.standard (R := Rat)).bezierError.value := by
    rw [standard_bezierError]
    norm_num
  obtain ⟨u, hleaves, hu⟩ := solve_leaves hpos c 10 c.t
  rw [standard_bezierError] at hleaves
  refine ⟨u, hleaves, fun y1 y2 => ?_⟩
  have hstart : ¬ (Number.real c.t).le (.int 0) = true := by
    rw [Number.le_eq, decide_eq_true_eq, not_le]
    exact c.t_pos
  have hend : ¬ (Number.int 1).le (.real c.t) = true := by
    rw [Number.le_eq, decide_eq_true_eq, not_le]
    exact_mod_cast c.t_lt_one
  rw [height]
  unfold bezierHeight
  rw [if_neg hstart, if_neg hend]
  change solve _ _ _ _ 10 _ >>= _ = _
  rw [hu, ok_bind]
  exact bezierAt_eq u y1 y2

/-- A place is solved for, whatever the heights of the control points are. -/
def Crossing.Solved (c : Crossing) : Prop :=
  ∀ y1 y2, ∃ v, 0 ≤ v ∧ v ≤ 1 ∧ |c.error v| < 1 / 10 ^ 6 ∧
    c.height y1 y2 = .ok (.real (curveAt y1 y2 v))

theorem Crossing.solved_iff {c : Crossing} {u : Rat} (hleaves : c.Leaves (1 / 10 ^ 6) 10 c.t u)
    (hheight : ∀ y1 y2, c.height y1 y2 = .ok (.real (curveAt y1 y2 u))) :
    c.Solved ↔ |c.error u| < 1 / 10 ^ 6 := by
  constructor
  · intro h
    -- With its inner points on thirds the height of a curve is its parameter.
    have hthirds (w : Rat) : curveAt (1 / 3) (2 / 3) w = w := by
      simp only [curveAt]
      ring
    obtain ⟨v, -, -, hsolved, hv⟩ := h (1 / 3) (2 / 3)
    rw [hheight, hthirds, hthirds] at hv
    obtain rfl : u = v := by simpa using hv
    exact hsolved
  · intro hsolved y1 y2
    obtain ⟨h0, h1⟩ := hleaves.unit (by norm_num) (by norm_num) hsolved
    exact ⟨u, h0, h1, hsolved, hheight y1 y2⟩

/-- The height at a place between the ends of a curve, in exact arithmetic, is that at the parameter
with which the loop of the solver is left. If the error is small there, as it is wherever the loop
is left for that reason and on every curve that is not far from the straight one, the parameter lies
between the ends of the curve. And the place is solved for exactly if the error is small. -/
theorem Crossing.height_leaves (c : Crossing) :
    ∃ u, c.Leaves (1 / 10 ^ 6) 10 c.t u ∧
      (∀ y1 y2, c.height y1 y2 = .ok (.real (curveAt y1 y2 u))) ∧
      (|c.error u| < 1 / 10 ^ 6 → 0 ≤ u ∧ u ≤ 1) ∧
      (c.Gentle → |c.error u| < 1 / 10 ^ 6) ∧
      (c.Solved ↔ |c.error u| < 1 / 10 ^ 6) := by
  obtain ⟨u, hleaves, hheight⟩ := c.exists_leaves
  exact ⟨u, hleaves, hheight, hleaves.unit (by norm_num) (by norm_num),
    fun hgentle => hgentle.solved hleaves, solved_iff hleaves hheight⟩

/-- A place behind the middle of a curve that is level in the middle. -/
def Crossing.behindLevel : Crossing :=
  ⟨1, 0, 5001 / 10000, by norm_num, by norm_num, by norm_num, by norm_num, by norm_num, by norm_num⟩

/-- The loop is left at once for the slope, a hundred times as far from the place as it may be. -/
theorem Crossing.behindLevel_not_solved : ¬ behindLevel.Solved := by
  obtain ⟨u, hleaves, hheight⟩ := behindLevel.exists_leaves
  rw [solved_iff hleaves hheight, not_lt]
  have herror : behindLevel.error behindLevel.t = -(24999999 / 250000000000) := by
    norm_num [behindLevel, error, curveAt]
  have hlarge : 1 / 10 ^ 6 ≤ |behindLevel.error behindLevel.t| := by
    rw [herror, abs_neg]
    norm_num [abs_of_pos]
  have hslope : |behindLevel.slope behindLevel.t| < 1 / 10 ^ 6 := by
    norm_num [behindLevel, slope, slopeAt, abs_of_pos]
  cases hleaves with
  | solved => exact hlarge
  | level => exact hlarge
  | step _ hsteep => exact absurd hslope hsteep.not_gt

end Storyboard.Easing
