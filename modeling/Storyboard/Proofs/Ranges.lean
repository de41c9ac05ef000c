import Storyboard.Easing.Curve
import Storyboard.Proofs.Faults
import Storyboard.Proofs.Ordering
import Storyboard.Rational

namespace Storyboard

open Outcome

variable {R : Type} [Scalar R]

/-- An arithmetic with a range, or with a scalar that is not a number. -/
def Limited (R : Type) [Scalar R] : Prop := Bounded R ∨ ∃ x : R, Scalar.exact x = .nan

/-- A fault of an operation whose result, or an operand of which, is out of range. -/
def Fault.Ranged (R : Type) [Scalar R] (f : Fault) : Prop :=
  (f = .numeric .overflow ∨ f = .numeric .value) ∧ Limited R

theorem Fault.ranged_overflow (h : Bounded R) : Fault.Ranged R (.numeric .overflow) :=
  ⟨.inl rfl, .inl h⟩

theorem Fault.ranged_value (h : Limited R) : Fault.Ranged R (.numeric .value) := ⟨.inr rfl, h⟩

theorem limited_of_infinite {x : R} {negative : Bool}
    (h : Scalar.exact x = .infinite negative) : Limited R :=
  .inl (.inr ⟨x, negative, h⟩)

/-- Nothing is out of the range of exact numbers. -/
theorem not_bounded_rat : ¬ Bounded Rat := by
  rintro (⟨q, hq⟩ | ⟨x, negative, hx⟩)
  · cases hq
  · cases hx

theorem not_limited_rat : ¬ Limited Rat := by
  rintro (hbounded | ⟨x, hx⟩)
  · exact not_bounded_rat hbounded
  · cases hx

/-- An outcome with no other faults than those of numbers out of range. -/
abbrev Outcome.Ranged (R : Type) [Scalar R] {α : Type} (x : Outcome α) : Prop :=
  Only (Fault.Ranged R) x

/-- A fault of sampling. Where curves are solved up to no error at all there may be a slope of zero
to divide by. -/
def Fault.Sampled (settings : Settings R) (f : Fault) : Prop :=
  f.Ranged R ∨ f = .numeric .zeroDivision ∧ (Number.int 0).lt settings.bezierError = false

/-- Without a range, and where curves are solved up to some error, nothing makes sampling fail. -/
theorem Outcome.Only.returns_of_sampled {α : Type} {settings : Settings R} {x : Outcome α}
    (h : Only (Fault.Sampled settings) x) (hrange : ¬ Limited R)
    (herror : (Number.int 0).lt settings.bezierError = true) : Returns x := by
  cases x with
  | ok a => exact returns_ok a
  | error f =>
    rcases Only.error_iff.mp h with hranged | ⟨-, hzero⟩
    · exact absurd hranged.2 hrange
    · cases hzero.symm.trans herror

namespace Number

/-- A whole number beyond the range of scalars. -/
def Far : Number R → Prop
  | int n => Scalar.ofRat? (R := R) n = none
  | real _ => False

@[simp] theorem not_far_real (x : R) : ¬ (real x).Far := id

theorem Far.bounded {a : Number R} (h : a.Far) : Bounded R := by
  cases a with
  | int n => exact .inl ⟨n, h⟩
  | real x => exact h.elim

theorem toReal_eq_error {a : Number R} {f : Fault} :
    a.toReal = .error f ↔ a.Far ∧ f = .numeric .overflow := by
  cases a with
  | real x => exact iff_of_false (fun h => by cases h) fun h => h.1
  | int n =>
    rw [toReal, Far]
    cases Scalar.ofRat? (R := R) n with
    | some x => exact iff_of_false (fun h => by cases h) fun h => by cases h.1
    | none =>
      refine ⟨fun h => ⟨rfl, (Except.error.inj h).symm⟩, fun h => ?_⟩
      rw [h.2]
      rfl

theorem exactly_toReal (a : Number R) : Exactly (fun f => a.Far ∧ f = .numeric .overflow) a.toReal :=
  (Exactly.self a.toReal).congr fun _ => toReal_eq_error

theorem returns_toReal {a : Number R} : Returns a.toReal ↔ ¬ a.Far := by
  rw [a.exactly_toReal.returns_iff]
  exact ⟨fun h hfar => h _ ⟨hfar, rfl⟩, fun h f hf => h hf.1⟩

/-- A number that is used as a scalar in what follows is refused as one. -/
theorem exactly_bind_toReal {β : Type} {Q : Fault → Prop} {x : Outcome (Number R)}
    {g : Number R → Outcome β}
    (hg : ∀ n, x = .ok n → Exactly (fun f => n.Far ∧ f = .numeric .overflow ∨ Q f) (g n)) :
    Exactly (fun f => (x >>= toReal) = .error f ∨ Q f) (x >>= g) := by
  cases x with
  | error f => exact .error (.inl rfl)
  | ok n =>
    exact (hg n rfl).congr fun f => or_congr_left toReal_eq_error.symm

theorem ranged_toReal (a : Number R) : Outcome.Ranged R a.toReal := by
  refine a.exactly_toReal.only.mono fun f hf => ?_
  rw [hf.2]
  exact Fault.ranged_overflow hf.1.bounded

theorem ranged_lift (onInts : Int → Int → Int) (onReals : R → R → R) (a b : Number R) :
    Outcome.Ranged R (lift onInts onReals a b) :=
  only_lift (ranged_toReal a) (ranged_toReal b)

theorem ranged_ceil (a : Number R) : Outcome.Ranged R a.ceil := by
  rw [ceil, whole]
  cases a with
  | int n => exact .ok _
  | real x =>
    cases hx : Scalar.exact x with
    | nan =>
      simp only [exact, hx]
      exact Only.error_iff.mpr (Fault.ranged_value (.inr ⟨x, hx⟩))
    | infinite negative =>
      simp only [exact, hx]
      exact Only.error_iff.mpr (Fault.ranged_overflow (.inr ⟨x, negative, hx⟩))
    | finite q =>
      simp only [exact, hx]
      exact .ok _

theorem ranged_div_int {m n : Int} (hn : n ≠ 0) :
    Outcome.Ranged R ((int m : Number R).div (int n)) := by
  rw [div, if_neg (by simpa using hn)]
  split
  · exact .ok _
  · rename_i hnone
    exact Only.error_iff.mpr (Fault.ranged_overflow (.inl ⟨_, hnone⟩))

/-- A number that is a scalar, and so never beyond the range of scalars. -/
def IsReal (a : Number R) : Prop := ∃ x, a = .real x

theorem IsReal.not_far {a : Number R} (h : a.IsReal) : ¬ a.Far := by
  obtain ⟨x, rfl⟩ := h
  exact id

theorem isReal_lift_left {onInts : Int → Int → Int} {onReals : R → R → R} {a b c : Number R}
    (ha : a.IsReal) (h : lift onInts onReals a b = .ok c) : c.IsReal := by
  obtain ⟨x, rfl⟩ := ha
  have h : (b.toReal >>= fun y => (pure (real (onReals x y)) : Outcome (Number R))) = .ok c := h
  obtain ⟨y, -, h⟩ := bind_eq_ok.mp h
  exact ⟨_, (pure_eq_ok.mp h).symm⟩

theorem isReal_lift_right {onInts : Int → Int → Int} {onReals : R → R → R} {a b c : Number R}
    (hb : b.IsReal) (h : lift onInts onReals a b = .ok c) : c.IsReal := by
  obtain ⟨y, rfl⟩ := hb
  have h : (a.toReal >>= fun x => (pure (real (onReals x y)) : Outcome (Number R))) = .ok c := by
    cases a <;> exact h
  obtain ⟨x, -, h⟩ := bind_eq_ok.mp h
  exact ⟨_, (pure_eq_ok.mp h).symm⟩

/-- A scalar and a number are added or multiplied unless the number is out of range. -/
theorem exactly_lift_left {onInts : Int → Int → Int} {onReals : R → R → R} {a : Number R}
    (ha : a.IsReal) (b : Number R) :
    Exactly (fun f => b.Far ∧ f = .numeric .overflow) (lift onInts onReals a b) := by
  obtain ⟨x, rfl⟩ := ha
  have h := b.exactly_toReal.bind_total (g := fun y => Pure.pure (real (onReals x y)))
    fun _ _ => returns_pure _
  cases b <;> exact h

theorem exactly_lift_right {onInts : Int → Int → Int} {onReals : R → R → R} (a : Number R)
    {b : Number R} (hb : b.IsReal) :
    Exactly (fun f => a.Far ∧ f = .numeric .overflow) (lift onInts onReals a b) := by
  obtain ⟨y, rfl⟩ := hb
  have h := a.exactly_toReal.bind_total (g := fun x => Pure.pure (real (onReals x y)))
    fun _ _ => returns_pure _
  cases a <;> exact h

theorem returns_lift {onInts : Int → Int → Int} {onReals : R → R → R} {a b : Number R}
    (ha : a.IsReal) (hb : b.IsReal) : Returns (lift onInts onReals a b) :=
  (exactly_lift_left ha b).returns_iff.mpr fun _ h => hb.not_far h.1

/-- A number is divided by a scalar that is not zero, unless it is out of range itself. -/
theorem only_div_real (a : Number R) (y : R) :
    Only (fun f => f.Ranged R ∨ f = .numeric .zeroDivision ∧ (Number.real y).isZero = true)
      (a.div (.real y)) := by
  have hreals : Only (fun f => f.Ranged R ∨ f = .numeric .zeroDivision ∧
      (Number.real y).isZero = true) (a.toReal >>= fun x =>
        if (Scalar.exact y).eq (.finite 0) then numericFault .zeroDivision
        else pure (real (Scalar.div x y))) := by
    refine ((ranged_toReal a).mono fun _ => .inl).bind fun x _ => ?_
    split
    · rename_i hzero
      exact Only.error_iff.mpr (.inr ⟨rfl, hzero⟩)
    · exact .pure _
  cases a <;> exact hreals

theorem isZero_of_lt {n : Number R} (h : (int 0).lt n = true) : n.isZero = false := by
  by_contra hzero
  rw [lt, (Exact.eq_iff.mp (Bool.of_not_eq_false hzero)).1] at h
  exact Bool.false_ne_true ((Exact.lt_irrefl _).symm.trans h)

end Number

namespace Easing

theorem ranged_bezierAt (u p q : Number R) : Outcome.Ranged R (bezierAt u p q) := by
  rw [bezierAt]
  repeat refine (Number.ranged_lift _ _ _ _).bind fun _ _ => ?_
  exact Number.ranged_lift _ _ _ _

theorem ranged_bezierSlope (u p q : Number R) : Outcome.Ranged R (bezierSlope u p q) := by
  rw [bezierSlope]
  repeat refine (Number.ranged_lift _ _ _ _).bind fun _ _ => ?_
  exact Number.ranged_lift _ _ _ _

/-- The slope of a curve whose control points are scalars is one. -/
theorem isReal_bezierSlope {u slope : Number R} {p q : R}
    (h : bezierSlope u (.real p) (.real q) = .ok slope) : slope.IsReal := by
  obtain ⟨inv, -, h⟩ := bind_eq_ok.mp h
  obtain ⟨a, -, h⟩ := bind_eq_ok.mp h
  obtain ⟨b, -, h⟩ := bind_eq_ok.mp h
  obtain ⟨first, hfirst, h⟩ := bind_eq_ok.mp h
  obtain ⟨c, -, h⟩ := bind_eq_ok.mp h
  obtain ⟨d, -, h⟩ := bind_eq_ok.mp h
  obtain ⟨gap, -, h⟩ := bind_eq_ok.mp h
  obtain ⟨second, -, h⟩ := bind_eq_ok.mp h
  obtain ⟨e, -, h⟩ := bind_eq_ok.mp h
  obtain ⟨f, -, h⟩ := bind_eq_ok.mp h
  obtain ⟨rest, -, h⟩ := bind_eq_ok.mp h
  obtain ⟨third, -, h⟩ := bind_eq_ok.mp h
  obtain ⟨sum, hsum, h⟩ := bind_eq_ok.mp h
  have hreal : first.IsReal := Number.isReal_lift_right ⟨p, rfl⟩ hfirst
  exact Number.isReal_lift_left (Number.isReal_lift_left hreal hsum) h

/-- A slope that is not small against a positive error is not zero. -/
theorem isZero_of_magnitude {error slope : Number R} (herror : (Number.int 0).lt error = true)
    (h : ¬ (magnitude slope).lt error = true) : slope.isZero = false := by
  by_contra hzero
  have hexact : slope.exact = .finite 0 := (Exact.eq_iff.mp (Bool.of_not_eq_false hzero)).1
  have hsame : magnitude slope = slope := by
    have hnot : slope.lt (.int 0) = false := by
      rw [Number.lt, hexact]
      exact Exact.lt_irrefl _
    rw [magnitude, hnot, if_neg Bool.false_ne_true]
  rw [hsame, Number.lt, hexact] at h
  exact h herror

/-- Newton's method stops before it divides by zero, if it solves up to a positive error. -/
theorem sampled_solve {settings : Settings R} (t : Number R) (p q : R) (steps : Nat)
    (u : Number R) : Only (Fault.Sampled settings)
      (solve settings.bezierError t (.real p) (.real q) steps u) := by
  have hlift (onInts : Int → Int → Int) (onReals : R → R → R) (a b : Number R) :
      Only (Fault.Sampled settings) (Number.lift onInts onReals a b) :=
    (Number.ranged_lift onInts onReals a b).mono fun _ => .inl
  induction steps generalizing u with
  | zero => exact .ok u
  | succ steps ih =>
    rw [solve]
    refine ((ranged_bezierAt u _ _).mono fun _ => .inl).bind fun x _ => ?_
    refine (hlift _ _ x t).bind fun residual _ => ?_
    split
    · exact .pure u
    · refine ((ranged_bezierSlope u _ _).mono fun _ => .inl).bind fun slope hslope => ?_
      split
      · exact .pure u
      · rename_i hlarge
        obtain ⟨y, rfl⟩ := isReal_bezierSlope hslope
        refine Only.bind ?_ fun part _ => (hlift _ _ u part).bind fun v _ => ih v
        refine (Number.only_div_real residual y).mono fun f hf => hf.imp_right fun hzero => ?_
        refine ⟨hzero.1, Bool.eq_false_iff.mpr fun herror => ?_⟩
        rw [isZero_of_magnitude herror hlarge] at hzero
        exact Bool.false_ne_true hzero.2

theorem sampled_bezierHeight {settings : Settings R} (steps : Nat) (t : Number R)
    (x1 y1 x2 y2 : R) : Only (Fault.Sampled settings)
      (bezierHeight steps settings.bezierError t (.real x1) (.real y1) (.real x2) (.real y2)) := by
  rw [bezierHeight]
  split
  · exact .pure _
  · split
    · exact .pure _
    · refine (sampled_solve t x1 x2 steps t).bind fun u _ => ?_
      exact (ranged_bezierAt u _ _).mono fun _ => .inl

theorem ranged_bounceArc (t : Number R) (floor : Option R) :
    Outcome.Ranged R (bounceArc t floor) := by
  refine (Number.ranged_lift _ _ _ _).bind fun _ _ => ?_
  refine (Number.ranged_lift _ _ _ _).bind fun _ _ => ?_
  cases floor with
  | none => exact .pure _
  | some f => exact Number.ranged_lift _ _ _ _

theorem ranged_bounceAt (t : Number R) : Outcome.Ranged R (bounceAt t) := by
  rw [bounceAt]
  split
  · exact ranged_bounceArc _ _
  · split
    · exact (Number.ranged_lift _ _ _ _).bind fun _ _ => ranged_bounceArc _ _
    · split
      · exact (Number.ranged_lift _ _ _ _).bind fun _ _ => ranged_bounceArc _ _
      · exact (Number.ranged_lift _ _ _ _).bind fun _ _ => ranged_bounceArc _ _

theorem ranged_curve? (j : Json R) : Outcome.Ranged R (curve? j) := by
  cases j with
  | obj members =>
    rw [curve?]
    split
    · refine (Number.ranged_toReal _).bind fun _ _ => (Number.ranged_toReal _).bind fun _ _ => ?_
      exact (Number.ranged_toReal _).bind fun _ _ => (Number.ranged_toReal _).bind fun _ _ => .pure _
    · exact .ok _
  | null | bool | num | str | arr => exact .ok _

theorem ranged_ofOption (j : Option (Json R)) : Outcome.Ranged R (ofOption j) := by
  cases j with
  | none => exact .ok _
  | some j =>
    cases j with
    | null => exact .ok _
    | str text =>
      rw [ofOption, ofJson]
      split
      · exact .ok _
      · split
        · exact .ok _
        · exact (ranged_curve? _).map _
    | bool | num | arr => exact .ok _
    | obj members => exact (ranged_curve? (.obj members)).map _

variable [Trig R]

theorem ranged_exp2 (n : Number R) : Outcome.Ranged R (exp2 n) := by
  refine (Number.ranged_toReal n).bind fun x _ => ?_
  dsimp only
  split
  · rename_i hinfinite
    exact Only.error_iff.mpr (Fault.ranged_overflow (.inr ⟨_, _, hinfinite⟩))
  · exact .pure _

theorem ranged_sine (n : Number R) : Outcome.Ranged R (sine n) := by
  refine (Number.ranged_toReal n).bind fun x _ => ?_
  split
  · rename_i hinfinite
    exact Only.error_iff.mpr (Fault.ranged_value (limited_of_infinite hinfinite))
  · exact .pure _

theorem ranged_elasticAt (t : Number R) : Outcome.Ranged R (elasticAt t) := by
  rw [elasticAt]
  split
  · exact .pure _
  · refine (Number.ranged_lift _ _ _ _).bind fun _ _ => (Number.ranged_lift _ _ _ _).bind fun _ _ => ?_
    refine (ranged_exp2 _).bind fun _ _ => ?_
    repeat refine (Number.ranged_lift _ _ _ _).bind fun _ _ => ?_
    exact (ranged_sine _).bind fun _ _ => Number.ranged_lift _ _ _ _

/-- An easing is applied unless a number is out of range. -/
theorem sampled_apply (settings : Settings R) (e : Easing R) (t : Number R) :
    Only (Fault.Sampled settings) (e.apply settings t) := by
  have hranged {x : Outcome (Number R)} (h : Outcome.Ranged R x) :
      Only (Fault.Sampled settings) x := h.mono fun _ => .inl
  cases e with
  | linear => exact .ok t
  | easeIn => exact hranged (Number.ranged_lift _ _ _ _)
  | easeOut =>
    exact hranged ((Number.ranged_lift _ _ _ _).bind fun _ _ => Number.ranged_lift _ _ _ _)
  | easeInOut =>
    refine hranged ?_
    rw [apply]
    split <;> repeat refine (Number.ranged_lift _ _ _ _).bind fun _ _ => ?_
    · exact Number.ranged_lift _ _ _ _
    · exact Number.ranged_lift _ _ _ _
  | bounce => exact hranged (ranged_bounceAt t)
  | elastic => exact hranged (ranged_elasticAt t)
  | bezier x1 y1 x2 y2 => exact sampled_bezierHeight _ _ _ _ _ _

end Easing

end Storyboard
