import Mathlib.Tactic.Ring
import Storyboard.Affine
import Storyboard.Proofs.Exact

namespace Storyboard

open Outcome

variable {R : Type} [Scalar R] [CommRing R]

/-- An arithmetic that is a commutative ring: its operations are those of the ring, no whole number
is out of range, and every scalar is a number. -/
class RingScalar (R : Type) [Scalar R] [CommRing R] : Prop where
  ordered : ∀ x : R, Scalar.exact x ≠ .nan
  whole : ∀ n : Int, Scalar.ofRat? (R := R) n = some (n : R)
  zero : (Scalar.const 0 0 : R) = 0
  one : (Scalar.const 1 0 : R) = 1
  add : ∀ x y : R, Scalar.add x y = x + y
  mul : ∀ x y : R, Scalar.mul x y = x * y
  neg : ∀ x : R, Scalar.neg x = -x

instance : RingScalar Rat where
  ordered x := by simp [Scalar.exact]
  whole n := rfl
  zero := by decide +kernel
  one := by decide +kernel
  add x y := rfl
  mul x y := rfl
  neg x := rfl

namespace Number

/-- The element of the ring that a number stands for. -/
def element : Number R → R
  | int n => n
  | real x => x

omit [Scalar R] in
@[simp] theorem element_int (n : Int) : (int n : Number R).element = n := rfl

omit [Scalar R] in
@[simp] theorem element_real (x : R) : (real x).element = x := rfl

variable [RingScalar R]

theorem isOrdered_of_ring (a : Number R) : a.isOrdered = true := by
  refine Exact.eq_refl ?_
  cases a with
  | int n => simp [exact]
  | real x => exact RingScalar.ordered x

theorem toReal_ring (a : Number R) : a.toReal = .ok a.element := by
  cases a with
  | int n => rw [toReal, RingScalar.whole]; rfl
  | real x => rfl

theorem lift_ring {onInts : Int → Int → Int} {onReals op : R → R → R}
    (hreals : ∀ x y, onReals x y = op x y) (hints : ∀ m n : Int, ((onInts m n : Int) : R) = op m n)
    (a b : Number R) : ∃ c, lift onInts onReals a b = .ok c ∧ c.element = op a.element b.element := by
  have hlifted {a b : Number R} (h : lift onInts onReals a b = (do
      let x ← a.toReal
      let y ← b.toReal
      return real (onReals x y))) :
      ∃ c, lift onInts onReals a b = .ok c ∧ c.element = op a.element b.element := by
    refine ⟨real (onReals a.element b.element), ?_, hreals _ _⟩
    rw [h, toReal_ring, toReal_ring]
    rfl
  cases a with
  | int m =>
    cases b with
    | int n => exact ⟨int (onInts m n), rfl, hints m n⟩
    | real y => exact hlifted rfl
  | real x => cases b <;> exact hlifted rfl

theorem add_ring (a b : Number R) : ∃ c, a.add b = .ok c ∧ c.element = a.element + b.element :=
  lift_ring RingScalar.add (fun m n => Int.cast_add m n) a b

theorem mul_ring (a b : Number R) : ∃ c, a.mul b = .ok c ∧ c.element = a.element * b.element :=
  lift_ring RingScalar.mul (fun m n => Int.cast_mul m n) a b

theorem element_add {a b c : Number R} (h : a.add b = .ok c) :
    c.element = a.element + b.element := by
  obtain ⟨c', hc', hvalue⟩ := add_ring a b
  obtain rfl := Except.ok.inj (h.symm.trans hc')
  exact hvalue

theorem element_mul {a b c : Number R} (h : a.mul b = .ok c) :
    c.element = a.element * b.element := by
  obtain ⟨c', hc', hvalue⟩ := mul_ring a b
  obtain rfl := Except.ok.inj (h.symm.trans hc')
  exact hvalue

end Number

namespace Affine

/-- An affine map as a map of points. -/
def toMap (m : Affine R) (p : R × R) : R × R :=
  (m.a.element * p.1 + m.c.element * p.2 + m.e.element,
    m.b.element * p.1 + m.d.element * p.2 + m.f.element)

/-- Moving by a distance in each direction. -/
def shift (x y : R) (p : R × R) : R × R := (x + p.1, y + p.2)

/-- Scaling by a factor in each direction. -/
def stretch (x y : R) (p : R × R) : R × R := (x * p.1, y * p.2)

/-- Turning by an angle whose cosine and sine are given. -/
def turn (cos sin : R) (p : R × R) : R × R := (cos * p.1 - sin * p.2, sin * p.1 + cos * p.2)

variable [RingScalar R] {m n k : Affine R}

theorem dot_ring (p q r s : Number R) : ∃ t, dot p q r s = .ok t ∧
    t.element = p.element * q.element + r.element * s.element := by
  obtain ⟨left, hleft, hl⟩ := Number.mul_ring p q
  obtain ⟨right, hright, hr⟩ := Number.mul_ring r s
  obtain ⟨t, ht, hsum⟩ := Number.add_ring left right
  refine ⟨t, ?_, by rw [hsum, hl, hr]⟩
  rw [dot, hleft, ok_bind, hright, ok_bind, ht]

theorem element_dot {p q r s t : Number R} (h : dot p q r s = .ok t) :
    t.element = p.element * q.element + r.element * s.element := by
  obtain ⟨t', ht', hvalue⟩ := dot_ring p q r s
  obtain rfl := Except.ok.inj (h.symm.trans ht')
  exact hvalue

/-- Applying a map to a point always gives the point to which the map takes it. -/
theorem apply_ring (m : Affine R) (x y : Number R) : ∃ u v, m.apply x y = .ok (u, v) ∧
    (u.element, v.element) = m.toMap (x.element, y.element) := by
  obtain ⟨s, hs, hsum⟩ := dot_ring m.a x m.c y
  obtain ⟨u, hu, hx⟩ := Number.add_ring s m.e
  obtain ⟨t, ht, htotal⟩ := dot_ring m.b x m.d y
  obtain ⟨v, hv, hy⟩ := Number.add_ring t m.f
  refine ⟨u, v, ?_, ?_⟩
  · rw [apply, hs, ok_bind, hu, ok_bind, ht, ok_bind, hv]
    rfl
  · rw [hx, hy, hsum, htotal]
    rfl

/-- The product of two maps is the first after the second. -/
theorem toMap_multiply (h : m.multiply n = .ok k) : k.toMap = m.toMap ∘ n.toMap := by
  obtain ⟨a, ha, h⟩ := bind_eq_ok.mp h
  obtain ⟨b, hb, h⟩ := bind_eq_ok.mp h
  obtain ⟨c, hc, h⟩ := bind_eq_ok.mp h
  obtain ⟨d, hd, h⟩ := bind_eq_ok.mp h
  obtain ⟨e₀, he₀, h⟩ := bind_eq_ok.mp h
  obtain ⟨e, he, h⟩ := bind_eq_ok.mp h
  obtain ⟨f₀, hf₀, h⟩ := bind_eq_ok.mp h
  obtain ⟨f, hf, h⟩ := bind_eq_ok.mp h
  obtain rfl := pure_eq_ok.mp h
  funext p
  simp only [toMap, Function.comp_apply, element_dot ha, element_dot hb, element_dot hc,
    element_dot hd, Number.element_add he, Number.element_add hf, element_dot he₀,
    element_dot hf₀]
  ext <;> dsimp only <;> ring

theorem element_zero : (zero : Number R).element = 0 := RingScalar.zero

theorem element_one : (one : Number R).element = 1 := RingScalar.one

theorem toMap_identity : (identity : Affine R).toMap = id := by
  funext p
  simp [toMap, identity, element_zero, element_one]

theorem toMap_translate {x y : Number R} (h : m.translate x y = .ok k) :
    k.toMap = m.toMap ∘ shift x.element y.element := by
  rw [toMap_multiply h]
  congr 1
  funext p
  simp [toMap, identity, element_zero, element_one, shift, add_comm]

theorem toMap_scale {x y : Number R} (h : m.scale x y = .ok k) :
    k.toMap = m.toMap ∘ stretch x.element y.element := by
  rw [toMap_multiply h]
  congr 1
  funext p
  simp [toMap, identity, element_zero, stretch]

variable [Trig R]

/-- An angle in degrees as circular functions take it. -/
def angle (degrees : Number R) : R :=
  degrees.element * Scalar.div Trig.pi (Scalar.const 180 0)

theorem toMap_rotate {degrees : Number R} (h : m.rotate degrees = .ok k) :
    k.toMap = m.toMap ∘ turn (Trig.cos (angle degrees)) (Trig.sin (angle degrees)) := by
  have hcircular {f : R → R} {x y : R} (hy : circular f x = .ok y) : y = f x := by
    rw [circular] at hy
    split at hy
    · cases hy
    · exact (Except.ok.inj hy).symm
  have hangle : radians degrees = .ok (angle degrees) := by
    rw [radians, Number.toReal_ring, angle, ← RingScalar.mul]
    rfl
  obtain ⟨found, hfound, h⟩ := bind_eq_ok.mp h
  obtain rfl := Except.ok.inj (hangle.symm.trans hfound)
  obtain ⟨cos, hcos, h⟩ := bind_eq_ok.mp h
  obtain ⟨sin, hsin, h⟩ := bind_eq_ok.mp h
  rw [toMap_multiply h, ← hcircular hcos, ← hcircular hsin]
  congr 1
  funext p
  simp [toMap, identity, element_zero, turn, RingScalar.neg, sub_eq_add_neg]

end Affine

end Storyboard
