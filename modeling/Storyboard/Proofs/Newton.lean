import Mathlib.Algebra.Order.Field.Rat
import Mathlib.Data.Rat.Cast.Order
import Mathlib.Tactic.FieldSimp
import Mathlib.Tactic.Linarith
import Mathlib.Tactic.Positivity
import Mathlib.Tactic.Ring

namespace Storyboard.Easing

/-- The coordinate of a curve from 0 to 1 with inner control points `p` and `q`. -/
def curveAt (p q u : Rat) : Rat :=
  3 * (1 - u) * (1 - u) * u * p + 3 * (1 - u) * u * u * q + u * u * u

def slopeAt (p q u : Rat) : Rat :=
  3 * (1 - u) * (1 - u) * p + 6 * (1 - u) * u * (q - p) + 3 * u * u * (1 - q)

/-- A place to find on a curve: the horizontal control points, and the place between the ends. -/
structure Crossing where
  x1 : Rat
  x2 : Rat
  t : Rat
  x1_nonneg : 0 ≤ x1
  x1_le_one : x1 ≤ 1
  x2_nonneg : 0 ≤ x2
  x2_le_one : x2 ≤ 1
  t_pos : 0 < t
  t_lt_one : t < 1

namespace Crossing

variable {c : Crossing} {u w : Rat}

def error (c : Crossing) (u : Rat) : Rat := curveAt c.x1 c.x2 u - c.t

def slope (c : Crossing) (u : Rat) : Rat := slopeAt c.x1 c.x2 u

/-- A step of Newton's method. -/
def next (c : Crossing) (u : Rat) : Rat := u - c.error u / c.slope u

def jerk (c : Crossing) : Rat := 1 + 3 * c.x1 - 3 * c.x2

/-- A sixth of the second derivative, which is linear. -/
def bend (c : Crossing) (u : Rat) : Rat := c.x2 - 2 * c.x1 + c.jerk * u

/-- The same curve seen from its other end. -/
def mirror (c : Crossing) : Crossing where
  x1 := 1 - c.x2
  x2 := 1 - c.x1
  t := 1 - c.t
  x1_nonneg := sub_nonneg.mpr c.x2_le_one
  x1_le_one := sub_le_self 1 c.x2_nonneg
  x2_nonneg := sub_nonneg.mpr c.x1_le_one
  x2_le_one := sub_le_self 1 c.x1_nonneg
  t_pos := sub_pos.mpr c.t_lt_one
  t_lt_one := sub_lt_self 1 c.t_pos

theorem mirror_t (c : Crossing) : c.mirror.t = 1 - c.t := rfl

@[simp] theorem mirror_mirror (c : Crossing) : c.mirror.mirror = c := by
  simp [mirror]

theorem mirror_error (c : Crossing) (u : Rat) : c.mirror.error (1 - u) = -c.error u := by
  simp only [error, curveAt, mirror]
  ring

theorem mirror_slope (c : Crossing) (u : Rat) : c.mirror.slope (1 - u) = c.slope u := by
  simp only [slope, slopeAt, mirror]
  ring

theorem mirror_bend (c : Crossing) (u : Rat) : c.mirror.bend (1 - u) = -c.bend u := by
  simp only [bend, jerk, mirror]
  ring

theorem mirror_bend_zero (c : Crossing) : c.mirror.bend 0 = -c.bend 1 := by
  rw [← mirror_bend, sub_self]

theorem mirror_bend_one (c : Crossing) : c.mirror.bend 1 = -c.bend 0 := by
  rw [← mirror_bend, sub_zero]

theorem mirror_next (c : Crossing) (u : Rat) : c.mirror.next (1 - u) = 1 - c.next u := by
  rw [next, next, mirror_error, mirror_slope]
  ring

theorem error_zero (c : Crossing) : c.error 0 = -c.t := by
  simp [error, curveAt]

theorem error_one (c : Crossing) : c.error 1 = 1 - c.t := by
  simp [error, curveAt]

theorem slope_zero (c : Crossing) : c.slope 0 = 3 * c.x1 := by
  simp [slope, slopeAt]

theorem bend_eq (c : Crossing) (u w : Rat) : c.bend w = c.bend u + c.jerk * (w - u) := by
  simp only [bend]
  ring

/-- The curve as seen from one of its points. -/
theorem error_eq (c : Crossing) (u w : Rat) :
    c.error w = c.error u + c.slope u * (w - u) + (w - u) ^ 2 * (2 * c.bend u + c.bend w) := by
  simp only [error, curveAt, slope, slopeAt, bend, jerk]
  ring

theorem slope_eq (c : Crossing) (u w : Rat) :
    c.slope w = c.slope u + 3 * (w - u) * (c.bend u + c.bend w) := by
  simp only [slope, slopeAt, bend, jerk]
  ring

theorem slope_mul_step (h : c.slope u ≠ 0) : c.slope u * (c.next u - u) = -c.error u := by
  rw [next]
  field_simp
  ring

/-- What remains after a step depends on how the curve bends between. -/
theorem error_next (h : c.slope u ≠ 0) :
    c.error (c.next u) = (c.next u - u) ^ 2 * (2 * c.bend u + c.bend (c.next u)) := by
  rw [c.error_eq u, slope_mul_step h]
  ring

theorem next_le (hslope : 0 < c.slope u) (herror : 0 ≤ c.error u) : c.next u ≤ u :=
  sub_le_self u (div_nonneg herror hslope.le)

theorem le_next (hslope : 0 < c.slope u) (herror : c.error u ≤ 0) : u ≤ c.next u := by
  have hstep := div_nonpos_of_nonpos_of_nonneg herror hslope.le
  rw [next]
  linarith

theorem bend_mean (c : Crossing) (u : Rat) : c.bend u = (1 - u) * c.bend 0 + u * c.bend 1 := by
  simp only [bend]
  ring

/-- Between two points at which the curve bends up it bends up. -/
theorem bend_nonneg_of_between {v : Rat} (hu : 0 ≤ c.bend u) (hv : 0 ≤ c.bend v) (huw : u ≤ w)
    (hwv : w ≤ v) : 0 ≤ c.bend w := by
  rcases le_total 0 c.jerk with hjerk | hjerk
  · rw [c.bend_eq u w]
    have := mul_nonneg hjerk (sub_nonneg.mpr huw)
    linarith
  · rw [c.bend_eq v w]
    have := mul_nonneg_of_nonpos_of_nonpos hjerk (sub_nonpos.mpr hwv)
    linarith

/-- Between its ends the curve never turns back. -/
theorem slope_nonneg (c : Crossing) (h0 : 0 ≤ u) (h1 : u ≤ 1) : 0 ≤ c.slope u := by
  have hx1 := sub_nonneg.mpr c.x1_le_one
  have hx2 := sub_nonneg.mpr c.x2_le_one
  have hu := sub_nonneg.mpr h1
  -- The slope is linear in either control point: a mean of the slopes at the four corners.
  have hcorners : c.slope u = 3 * ((1 - c.x1) * (1 - c.x2) * u ^ 2 +
      c.x1 * (1 - c.x2) * (1 - 2 * u) ^ 2 + (1 - c.x1) * c.x2 * (2 * ((1 - u) * u)) +
      c.x1 * c.x2 * (1 - u) ^ 2) := by
    simp only [slope, slopeAt]
    ring
  have h00 := mul_nonneg (mul_nonneg hx1 hx2) (sq_nonneg u)
  have h10 := mul_nonneg (mul_nonneg c.x1_nonneg hx2) (sq_nonneg (1 - 2 * u))
  have h01 := mul_nonneg (mul_nonneg hx1 c.x2_nonneg) (mul_nonneg zero_le_two (mul_nonneg hu h0))
  have h11 := mul_nonneg (mul_nonneg c.x1_nonneg c.x2_nonneg) (sq_nonneg (1 - u))
  rw [hcorners]
  linarith

/-- Where the loop begins, the slope is positive or there is no step. -/
theorem slope_start_pos (h : c.slope c.t ≠ 0) : 0 < c.slope c.t :=
  lt_of_le_of_ne (c.slope_nonneg c.t_pos.le c.t_lt_one.le) h.symm

/-- Right of the place, on a part of the curve that bends up from its beginning on. -/
structure Above (c : Crossing) (u : Rat) : Prop where
  start : 0 ≤ c.bend 0
  nonneg : 0 ≤ u
  error : 0 ≤ c.error u
  bend : 0 ≤ c.bend u

/-- Left of the place, on a part of the curve that bends down up to its end. -/
def Below (c : Crossing) (u : Rat) : Prop := c.mirror.Above (1 - u)

namespace Above

theorem slope_nonneg (h : c.Above u) : 0 ≤ c.slope u := by
  have hbends := mul_nonneg h.nonneg (add_nonneg h.start h.bend)
  rw [c.slope_eq 0 u, slope_zero]
  linarith [c.x1_nonneg]

/-- A step stays on the side that the parameter is on. -/
theorem next (h : c.Above u) (hslope : c.slope u ≠ 0) : c.Above (c.next u) := by
  have hpos : 0 < c.slope u := lt_of_le_of_ne h.slope_nonneg hslope.symm
  have hle := next_le hpos h.error
  have hnonneg : 0 ≤ c.next u := by
    have htangent := c.error_eq u 0
    rw [error_zero] at htangent
    have hbends := mul_nonneg (sq_nonneg (0 - u))
      (add_nonneg (mul_nonneg zero_le_two h.bend) h.start)
    have hdiv : c.error u / c.slope u ≤ u := by
      rw [div_le_iff₀ hpos]
      linarith [c.t_pos]
    exact sub_nonneg.mpr hdiv
  have hbend : 0 ≤ c.bend (c.next u) := bend_nonneg_of_between h.start h.bend hnonneg hle
  refine ⟨h.start, hnonneg, ?_, hbend⟩
  rw [error_next hslope]
  exact mul_nonneg (sq_nonneg _) (add_nonneg (mul_nonneg zero_le_two h.bend) hbend)

/-- Behind the end of the curve the error is that of the end at least. -/
theorem apart (h : c.Above u) (hu : 1 < u) : 1 - c.t ≤ c.error u := by
  have hbend : 0 ≤ c.bend 1 := bend_nonneg_of_between h.start h.bend zero_le_one hu.le
  have hbends := mul_nonneg (sq_nonneg (u - 1))
    (add_nonneg (mul_nonneg zero_le_two hbend) h.bend)
  have hslope := mul_nonneg (c.slope_nonneg zero_le_one le_rfl) (sub_nonneg.mpr hu.le)
  rw [c.error_eq 1 u, error_one]
  linarith

end Above

namespace Below

theorem next (h : c.Below u) (hslope : c.slope u ≠ 0) : c.Below (c.next u) := by
  rw [← mirror_slope] at hslope
  have hmirrored := Above.next h hslope
  rwa [mirror_next] at hmirrored

theorem of_error (hend : c.bend 1 ≤ 0) (hu : u ≤ 1) (herror : c.error u ≤ 0)
    (hbend : c.bend u ≤ 0) : c.Below u := by
  refine ⟨?_, sub_nonneg.mpr hu, ?_, ?_⟩
  · rw [mirror_bend_zero]
    exact neg_nonneg.mpr hend
  · rw [mirror_error]
    exact neg_nonneg.mpr herror
  · rw [mirror_bend]
    exact neg_nonneg.mpr hbend

end Below

/-- A first step does not pass the end where the curve bends less and less up. -/
theorem next_le_one (hslope : 0 < c.slope c.t) (hjerk : c.jerk ≤ 0) : c.next c.t ≤ 1 := by
  have hend : c.error c.t + c.slope c.t * (1 - c.t) = 3 * c.x1 * (1 - c.t) ^ 3 +
      (6 * c.x2 - 3 * c.x1 - 1) * ((1 - c.t) ^ 2 * c.t) + (1 - c.t) * c.t ^ 2 := by
    simp only [error, curveAt, slope, slopeAt]
    ring
  have ht := sub_pos.mpr c.t_lt_one
  have hmiddle : 0 ≤ 6 * c.x2 - 3 * c.x1 - 1 := by
    rw [jerk] at hjerk
    linarith [c.x1_nonneg]
  have h0 := mul_nonneg (mul_nonneg zero_le_three c.x1_nonneg) (pow_nonneg ht.le 3)
  have h1 := mul_nonneg hmiddle (mul_nonneg (sq_nonneg (1 - c.t)) c.t_pos.le)
  have h2 := mul_nonneg ht.le (sq_nonneg c.t)
  have hdiv : -(1 - c.t) ≤ c.error c.t / c.slope c.t := by
    rw [le_div_iff₀ hslope]
    linarith
  rw [next]
  linarith

/-- What is known where a first step has passed the place, from a part that bends up to one that
bends down: the parameter lies between the two ends of that step. -/
structure Trap (c : Crossing) (u : Rat) : Prop where
  slope : 0 < c.slope c.t
  up : 0 ≤ c.bend c.t
  down : c.bend (c.next c.t) ≤ 0
  start : 0 ≤ c.bend 0
  finish : c.bend 1 ≤ 0
  low : c.t ≤ u
  high : u ≤ c.next c.t

namespace Trap

theorem jerk_nonpos (h : c.Trap u) : c.jerk ≤ 0 := by
  have hjerk := c.bend_eq 0 1
  linarith [h.start, h.finish]

theorem le_one (h : c.Trap u) : u ≤ 1 :=
  h.high.trans (next_le_one h.slope h.jerk_nonpos)

/-- The first step is no longer than a third. -/
theorem length_le (h : c.Trap u) : 3 * (c.next c.t - c.t) ≤ 1 := by
  have hbernstein : 3 * c.error c.t + c.slope c.t = 3 * c.x1 * (1 - c.t) ^ 3 +
      3 * (2 * c.x1 + 2 * c.x2 - 1) * ((1 - c.t) ^ 2 * c.t) +
      3 * (4 * c.x2 - 2 * c.x1 - 1) * ((1 - c.t) * c.t ^ 2) + 3 * (1 - c.x2) * c.t ^ 3 := by
    simp only [Crossing.error, curveAt, Crossing.slope, slopeAt]
    ring
  have hfinish : 1 + c.x1 ≤ 2 * c.x2 := by
    have hend := h.finish
    simp only [bend, jerk] at hend
    linarith
  have ht := sub_pos.mpr c.t_lt_one
  have h0 := mul_nonneg (mul_nonneg zero_le_three c.x1_nonneg) (pow_nonneg ht.le 3)
  have h1 : 0 ≤ 3 * (2 * c.x1 + 2 * c.x2 - 1) * ((1 - c.t) ^ 2 * c.t) :=
    mul_nonneg (by linarith [c.x1_nonneg]) (mul_nonneg (sq_nonneg (1 - c.t)) c.t_pos.le)
  have h2 : 0 ≤ 3 * (4 * c.x2 - 2 * c.x1 - 1) * ((1 - c.t) * c.t ^ 2) :=
    mul_nonneg (by linarith) (mul_nonneg ht.le (sq_nonneg c.t))
  have h3 : 0 ≤ 3 * (1 - c.x2) * c.t ^ 3 :=
    mul_nonneg (by linarith [c.x2_le_one]) (pow_nonneg c.t_pos.le 3)
  have hlong : c.slope c.t * (3 * (c.next c.t - c.t)) ≤ c.slope c.t * 1 := by
    linarith [slope_mul_step h.slope.ne']
  exact le_of_mul_le_mul_left hlong h.slope

/-- At the place the curve rises more than it can lose on the way of the first step. -/
theorem slope_add_bend (h : c.Trap u) : 0 ≤ c.slope c.t + c.bend c.t + 2 / 9 * c.jerk := by
  have hsum : c.slope c.t + c.bend c.t + 2 / 9 * c.jerk =
      2 * c.x1 + 1 / 3 + 6 * (c.bend c.t * c.t) - c.jerk * (3 * (c.t - 1 / 6) ^ 2 + 1 / 36) := by
    simp only [Crossing.slope, slopeAt, bend, jerk]
    ring
  have hbend := mul_nonneg h.up c.t_pos.le
  have hjerk := mul_nonpos_of_nonpos_of_nonneg h.jerk_nonpos
    (by positivity : 0 ≤ 3 * (c.t - 1 / 6) ^ 2 + 1 / 36)
  rw [hsum]
  linarith [c.x1_nonneg]

/-- The second step does not go back behind where the first one began. -/
theorem error_next_le (h : c.Trap u) :
    c.error (c.next c.t) ≤ c.slope (c.next c.t) * (c.next c.t - c.t) := by
  have hnonneg : 0 ≤ c.next c.t - c.t := sub_nonneg.mpr (h.low.trans h.high)
  have hslope := c.slope_eq c.t (c.next c.t)
  have hjerk := c.bend_eq c.t (c.next c.t)
  have herror := error_next h.slope.ne'
  generalize hv : c.next c.t - c.t = v at *
  -- How steep the curve still is, after a step of length `v` that is at most a third.
  have hsteep : 0 ≤ c.slope c.t + v * (3 * c.bend c.t + 2 * (c.jerk * v)) := by
    have hlength : 0 ≤ 1 - 3 * v := by linarith [h.length_le, hv]
    have hfirst := mul_nonneg hlength h.slope.le
    have hsecond := mul_nonneg hnonneg h.slope_add_bend
    have hthird := mul_nonneg_of_nonpos_of_nonpos h.jerk_nonpos
      (neg_nonpos.mpr (mul_nonneg hnonneg hlength))
    linarith
  have hgoal := mul_nonneg hnonneg hsteep
  rw [herror, hslope, hjerk]
  linarith

/-- On the part that bends up a step goes right, but no farther than the first one. -/
theorem next_of_short (h : c.Trap u) (hslope : 0 < c.slope u) (hbend : 0 ≤ c.bend u)
    (herror : c.error u ≤ 0) : c.Trap (c.next u) := by
  have hright := le_next hslope herror
  have hhigh : c.next u ≤ c.next c.t := by
    -- The tangent at `u` lies higher over the end of the first step than the one at its beginning.
    have htangent : c.slope u * (c.next c.t - u) + c.error u =
        c.slope c.t * (c.next c.t - c.t) + c.error c.t +
        c.bend c.t * (2 * (u - c.t) ^ 2 + 3 * ((u - c.t) * (c.next c.t - u))) +
        c.bend u * ((u - c.t) ^ 2 + 3 * ((u - c.t) * (c.next c.t - u))) := by
      rw [c.slope_eq c.t u, c.error_eq c.t u]
      ring
    have hbehind := sub_nonneg.mpr h.low
    have hahead := mul_nonneg hbehind (sub_nonneg.mpr h.high)
    have hfirst := mul_nonneg h.up (by positivity :
      0 ≤ 2 * (u - c.t) ^ 2 + 3 * ((u - c.t) * (c.next c.t - u)))
    have hsecond := mul_nonneg hbend (by positivity :
      0 ≤ (u - c.t) ^ 2 + 3 * ((u - c.t) * (c.next c.t - u)))
    have hdiv : -(c.next c.t - u) ≤ c.error u / c.slope u := by
      rw [le_div_iff₀ hslope]
      linarith [slope_mul_step h.slope.ne']
    rw [Crossing.next]
    linarith
  exact { h with low := h.low.trans hright, high := hhigh }

/-- On the part that bends down a step goes left, but not behind the beginning of the first one. -/
theorem next_of_past (h : c.Trap u) (hslope : 0 < c.slope u) (hbend : c.bend u ≤ 0)
    (herror : 0 ≤ c.error u) : c.Trap (c.next u) := by
  have hleft := next_le hslope herror
  have hlow : c.t ≤ c.next u := by
    have htangent : c.slope u * (u - c.t) - c.error u =
        c.slope (c.next c.t) * (c.next c.t - c.t) - c.error (c.next c.t) -
        c.bend u * (3 * ((u - c.t) * (c.next c.t - u)) + (c.next c.t - u) ^ 2) -
        c.bend (c.next c.t) * (3 * ((u - c.t) * (c.next c.t - u)) +
          2 * (c.next c.t - u) ^ 2) := by
      rw [c.slope_eq u (c.next c.t), c.error_eq u (c.next c.t)]
      ring
    have hahead := mul_nonneg (sub_nonneg.mpr h.low) (sub_nonneg.mpr h.high)
    have hfirst := mul_nonpos_of_nonpos_of_nonneg hbend (by positivity :
      0 ≤ 3 * ((u - c.t) * (c.next c.t - u)) + (c.next c.t - u) ^ 2)
    have hsecond := mul_nonpos_of_nonpos_of_nonneg h.down (by positivity :
      0 ≤ 3 * ((u - c.t) * (c.next c.t - u)) + 2 * (c.next c.t - u) ^ 2)
    have hdiv : c.error u / c.slope u ≤ u - c.t := by
      rw [div_le_iff₀ hslope]
      linarith [h.error_next_le]
    rw [Crossing.next]
    linarith
  exact { h with low := hlow, high := hleft.trans h.high }

end Trap

/-- Where the parameter can be while Newton's method runs. -/
inductive Safe (c : Crossing) (u : Rat) : Prop where
  | here (h : u = c.t)
  | above (h : c.Above u)
  | below (h : c.Below u)
  | trapped (h : c.Trap u)
  | mirrored (h : c.mirror.Trap (1 - u))
  | flat (h0 : c.bend 0 ≤ 0) (h1 : 0 ≤ c.bend 1)

theorem Trap.next (h : c.Trap u) (hslope : c.slope u ≠ 0) : c.Safe (c.next u) := by
  have hnonneg : 0 ≤ u := c.t_pos.le.trans h.low
  have hpos : 0 < c.slope u := lt_of_le_of_ne (c.slope_nonneg hnonneg h.le_one) hslope.symm
  rcases le_total 0 (c.bend u) with hbend | hbend
  · rcases le_total 0 (c.error u) with herror | herror
    · exact .above (Above.next ⟨h.start, hnonneg, herror, hbend⟩ hslope)
    · exact .trapped (h.next_of_short hpos hbend herror)
  · rcases le_total 0 (c.error u) with herror | herror
    · exact .trapped (h.next_of_past hpos hbend herror)
    · exact .below ((Below.of_error h.finish h.le_one herror hbend).next hslope)

namespace Safe

theorem mirror (h : c.Safe u) : c.mirror.Safe (1 - u) := by
  cases h with
  | here h => exact .here (by rw [h]; rfl)
  | above h => exact .below (by rwa [Below, mirror_mirror, sub_sub_cancel])
  | below h => exact .above h
  | trapped h => exact .mirrored (by rwa [mirror_mirror, sub_sub_cancel])
  | mirrored h => exact .trapped h
  | flat h0 h1 =>
    exact .flat (c.mirror_bend_zero.trans_le (neg_nonpos.mpr h1))
      ((neg_nonneg.mpr h0).trans_eq c.mirror_bend_one.symm)

theorem of_mirror (h : c.mirror.Safe (1 - u)) : c.Safe u := by
  have hback := h.mirror
  rwa [mirror_mirror, sub_sub_cancel] at hback

/-- The first step, if it goes right. -/
theorem next_start (hslope : c.slope c.t ≠ 0) (herror : c.error c.t ≤ 0) :
    c.Safe (c.next c.t) := by
  have hpos := slope_start_pos hslope
  have hright := le_next hpos herror
  have hnonneg : 0 ≤ c.next c.t := c.t_pos.le.trans hright
  have habove (h0 : 0 ≤ c.bend 0) (ht : 0 ≤ c.bend c.t) (h1 : 0 ≤ c.bend (c.next c.t)) :
      c.Safe (c.next c.t) := by
    refine .above ⟨h0, hnonneg, ?_, h1⟩
    rw [error_next hslope]
    exact mul_nonneg (sq_nonneg _) (add_nonneg (mul_nonneg zero_le_two ht) h1)
  have hbelow (h1 : c.bend 1 ≤ 0) (ht : c.bend c.t ≤ 0) : c.Safe (c.next c.t) :=
    .below ((Below.of_error h1 c.t_lt_one.le herror ht).next hslope)
  rcases le_total 0 (c.bend 0) with h0 | h0
  · rcases le_total 0 (c.bend 1) with h1 | h1
    · have ht := bend_nonneg_of_between h0 h1 c.t_pos.le c.t_lt_one.le
      refine habove h0 ht ?_
      rcases le_total 0 c.jerk with hjerk | hjerk
      · rw [c.bend_eq c.t]
        exact add_nonneg ht (mul_nonneg hjerk (sub_nonneg.mpr hright))
      · exact bend_nonneg_of_between h0 h1 hnonneg (next_le_one hpos hjerk)
    · rcases le_total 0 (c.bend c.t) with ht | ht
      · rcases le_total 0 (c.bend (c.next c.t)) with hnext | hnext
        · exact habove h0 ht hnext
        · exact .trapped ⟨hpos, ht, hnext, h0, h1, hright, le_rfl⟩
      · exact hbelow h1 ht
  · rcases le_total 0 (c.bend 1) with h1 | h1
    · exact .flat h0 h1
    · refine hbelow h1 ?_
      rw [bend_mean]
      exact add_nonpos (mul_nonpos_of_nonneg_of_nonpos (sub_nonneg.mpr c.t_lt_one.le) h0)
        (mul_nonpos_of_nonneg_of_nonpos c.t_pos.le h1)

/-- Wherever the parameter can be, a step leads to where it can be. -/
theorem next (h : c.Safe u) (hslope : c.slope u ≠ 0) : c.Safe (c.next u) := by
  cases h with
  | here h =>
    subst h
    rcases le_total (c.error c.t) 0 with herror | herror
    · exact next_start hslope herror
    · refine of_mirror ?_
      rw [← mirror_next]
      refine next_start ?_ ?_
      · rw [mirror_t, mirror_slope]
        exact hslope
      · rw [mirror_t, mirror_error]
        exact neg_nonpos.mpr herror
  | above h => exact .above (h.next hslope)
  | below h => exact .below (h.next hslope)
  | trapped h => exact h.next hslope
  | mirrored h =>
    refine of_mirror ?_
    rw [← mirror_next]
    exact h.next (by rwa [mirror_slope])
  | flat h0 h1 => exact .flat h0 h1

end Safe

/-- Outside of the unit interval the error is that of the near end at least. -/
structure Confined (c : Crossing) (u : Rat) : Prop where
  left : u < 0 → c.t ≤ |c.error u|
  right : 1 < u → 1 - c.t ≤ |c.error u|

theorem Confined.of_mirror (h : c.mirror.Confined (1 - u)) : c.Confined u where
  left hu := by
    have hright := h.right (by linarith)
    rwa [mirror_error, abs_neg, mirror_t, sub_sub_cancel] at hright
  right hu := by
    have hleft := h.left (by linarith)
    rwa [mirror_error, abs_neg] at hleft

theorem Confined.of_unit (h0 : 0 ≤ u) (h1 : u ≤ 1) : c.Confined u :=
  ⟨fun hu => absurd hu h0.not_gt, fun hu => absurd hu h1.not_gt⟩

theorem Above.confined (h : c.Above u) : c.Confined u :=
  ⟨fun hu => absurd hu h.nonneg.not_gt, fun hu => (h.apart hu).trans (le_abs_self _)⟩

theorem Trap.confined (h : c.Trap u) : c.Confined u :=
  .of_unit (c.t_pos.le.trans h.low) h.le_one

/-- In front of its beginning a curve lies low that bends down there, and the more so before. -/
theorem le_abs_error (h0 : c.bend 0 ≤ 0) (h1 : 0 ≤ c.bend 1) (hu : u < 0) :
    c.t ≤ |c.error u| := by
  have hjerk : 0 ≤ c.jerk := by
    linarith [c.bend_eq 0 1]
  have hbend : c.bend u ≤ 0 := by
    rw [c.bend_eq 0 u]
    linarith [mul_nonpos_of_nonneg_of_nonpos hjerk (sub_nonpos.mpr hu.le)]
  have hbends := mul_nonpos_of_nonneg_of_nonpos (sq_nonneg (u - 0))
    (add_nonpos (mul_nonpos_of_nonneg_of_nonpos zero_le_two h0) hbend)
  have hslope := mul_nonpos_of_nonneg_of_nonpos
    (mul_nonneg zero_le_three c.x1_nonneg) (sub_nonpos.mpr hu.le)
  have herror := c.error_eq 0 u
  rw [error_zero, slope_zero] at herror
  exact le_abs.mpr (.inr (by linarith))

/-- A curve that bends down first and up then. -/
theorem Confined.of_flat (h0 : c.bend 0 ≤ 0) (h1 : 0 ≤ c.bend 1) : c.Confined u where
  left := le_abs_error h0 h1
  right hu := by
    have hstart := c.mirror_bend_zero.trans_le (neg_nonpos.mpr h1)
    have hfinish := (neg_nonneg.mpr h0).trans_eq c.mirror_bend_one.symm
    have hleft := le_abs_error hstart hfinish (sub_neg.mpr hu)
    rwa [mirror_error, abs_neg] at hleft

theorem Safe.confined (h : c.Safe u) : c.Confined u := by
  cases h with
  | here h => exact .of_unit (h ▸ c.t_pos.le) (h ▸ c.t_lt_one.le)
  | above h => exact h.confined
  | below h => exact .of_mirror (Above.confined h)
  | trapped h => exact h.confined
  | mirrored h => exact .of_mirror h.confined
  | flat h0 h1 => exact .of_flat h0 h1

end Crossing

end Storyboard.Easing
