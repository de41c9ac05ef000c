import Storyboard.Affine
import Storyboard.Proofs.Ranges

namespace Storyboard

open Outcome

variable {R : Type} [Scalar R]

namespace Affine

/-- A map whose entries are scalars. -/
def IsReal (m : Affine R) : Prop := ∀ n ∈ m.entries, n.IsReal

omit [Scalar R] in
theorem isReal_iff {m : Affine R} : m.IsReal ↔
    m.a.IsReal ∧ m.b.IsReal ∧ m.c.IsReal ∧ m.d.IsReal ∧ m.e.IsReal ∧ m.f.IsReal := by
  simp [IsReal, entries]

theorem isReal_zero : (zero : Number R).IsReal := ⟨_, rfl⟩

theorem isReal_one : (one : Number R).IsReal := ⟨_, rfl⟩

@[simp] theorem not_far_zero : ¬ (zero : Number R).Far := isReal_zero.not_far

@[simp] theorem not_far_one : ¬ (one : Number R).Far := isReal_one.not_far

theorem isReal_identity : (identity : Affine R).IsReal :=
  isReal_iff.mpr ⟨isReal_one, isReal_zero, isReal_zero, isReal_one, isReal_zero, isReal_zero⟩

theorem exactly_dot {p r : Number R} (hp : p.IsReal) (hr : r.IsReal) (q s : Number R) :
    Exactly (fun f => (q.Far ∨ s.Far) ∧ f = .numeric .overflow) (dot p q r s) := by
  refine Exactly.congr ?_ fun f => or_and_right.symm
  refine (Number.exactly_lift_left hp q).bind fun left hleft => ?_
  refine (Number.exactly_lift_left hr s).bind_total fun right hright => ?_
  exact Number.returns_lift (Number.isReal_lift_left hp hleft) (Number.isReal_lift_left hr hright)

theorem isReal_dot {p q r s n : Number R} (hp : p.IsReal) (h : dot p q r s = .ok n) :
    n.IsReal := by
  obtain ⟨left, hleft, h⟩ := bind_eq_ok.mp h
  obtain ⟨right, -, h⟩ := bind_eq_ok.mp h
  exact Number.isReal_lift_left (Number.isReal_lift_left hp hleft) h

/-- A map whose entries are scalars takes one after it unless an entry of that is out of range. -/
theorem exactly_multiply {m : Affine R} (hm : m.IsReal) (n : Affine R) :
    Exactly (fun f => (∃ a ∈ n.entries, a.Far) ∧ f = .numeric .overflow) (m.multiply n) := by
  obtain ⟨ha, hb, hc, hd, he, hf⟩ := isReal_iff.mp hm
  have h : Exactly (fun f => (n.a.Far ∨ n.b.Far) ∧ f = .numeric .overflow ∨
      (n.a.Far ∨ n.b.Far) ∧ f = .numeric .overflow ∨
      (n.c.Far ∨ n.d.Far) ∧ f = .numeric .overflow ∨
      (n.c.Far ∨ n.d.Far) ∧ f = .numeric .overflow ∨
      (n.e.Far ∨ n.f.Far) ∧ f = .numeric .overflow ∨
      (n.e.Far ∨ n.f.Far) ∧ f = .numeric .overflow) (m.multiply n) := by
    refine (exactly_dot ha hc _ _).bind fun _ _ => (exactly_dot hb hd _ _).bind fun _ _ => ?_
    refine (exactly_dot ha hc _ _).bind fun _ _ => (exactly_dot hb hd _ _).bind fun _ _ => ?_
    refine (exactly_dot ha hc _ _).bind fun x hx => ?_
    refine .bind_of (Number.returns_lift (isReal_dot ha hx) he) fun e _ => ?_
    refine (exactly_dot hb hd _ _).bind_total fun y hy => ?_
    exact (Number.returns_lift (isReal_dot hb hy) hf).bind fun _ _ => returns_pure _
  refine h.congr fun f => ?_
  simp only [entries, List.exists_mem_cons_iff, List.not_mem_nil, false_and]
  tauto

theorem isReal_multiply {m n p : Affine R} (hm : m.IsReal) (h : m.multiply n = .ok p) :
    p.IsReal := by
  obtain ⟨ha, hb, -, -, -, -⟩ := isReal_iff.mp hm
  obtain ⟨a, hx, h⟩ := bind_eq_ok.mp h
  obtain ⟨b, hy, h⟩ := bind_eq_ok.mp h
  obtain ⟨c, hz, h⟩ := bind_eq_ok.mp h
  obtain ⟨d, hw, h⟩ := bind_eq_ok.mp h
  obtain ⟨s, hs, h⟩ := bind_eq_ok.mp h
  obtain ⟨e, he, h⟩ := bind_eq_ok.mp h
  obtain ⟨t, ht, h⟩ := bind_eq_ok.mp h
  obtain ⟨f, hf, h⟩ := bind_eq_ok.mp h
  obtain rfl := pure_eq_ok.mp h
  exact isReal_iff.mpr ⟨isReal_dot ha hx, isReal_dot hb hy, isReal_dot ha hz, isReal_dot hb hw,
    Number.isReal_lift_left (isReal_dot ha hs) he, Number.isReal_lift_left (isReal_dot hb ht) hf⟩

theorem exactly_translate {m : Affine R} (hm : m.IsReal) (x y : Number R) :
    Exactly (fun f => (x.Far ∨ y.Far) ∧ f = .numeric .overflow) (m.translate x y) :=
  (exactly_multiply hm _).congr fun f => by simp [entries, identity]

theorem exactly_scale {m : Affine R} (hm : m.IsReal) (x y : Number R) :
    Exactly (fun f => (x.Far ∨ y.Far) ∧ f = .numeric .overflow) (m.scale x y) :=
  (exactly_multiply hm _).congr fun f => by simp [entries, identity]

variable [Trig R]

/-- A number of degrees is an angle without end. -/
def Endless (degrees : Number R) : Prop :=
  ∃ x negative, radians degrees = .ok x ∧ Scalar.exact x = .infinite negative

theorem exactly_rotate {m : Affine R} (hm : m.IsReal) (degrees : Number R) :
    Exactly (fun f => degrees.Far ∧ f = .numeric .overflow ∨
      Endless degrees ∧ f = .numeric .value) (m.rotate degrees) := by
  have hradians : Exactly (fun f => degrees.Far ∧ f = .numeric .overflow) (radians degrees) :=
    degrees.exactly_toReal.bind_total fun _ _ => returns_pure _
  refine hradians.bind fun angle hangle => ?_
  have hendless : Endless degrees ↔ ∃ negative, Scalar.exact angle = .infinite negative := by
    simp [Endless, hangle]
  rw [hendless]
  cases hexact : Scalar.exact angle with
  | infinite negative =>
    have hcircular : circular (Trig.cos : R → R) angle = .error (.numeric .value) := by
      rw [circular, hexact]
      rfl
    rw [hcircular]
    exact .error ⟨⟨negative, rfl⟩, rfl⟩
  | nan | finite q =>
    have hcircular (g : R → R) : circular g angle = .ok (g angle) := by
      rw [circular, hexact]
    rw [hcircular, ok_bind, hcircular, ok_bind]
    refine .of_returns ((exactly_multiply hm _).returns_iff.mpr fun f hf => ?_) fun f hf => by
      obtain ⟨⟨negative, h⟩, -⟩ := hf
      cases h
    simp [entries, identity] at hf

theorem isReal_rotate {m n : Affine R} {degrees : Number R} (hm : m.IsReal)
    (h : m.rotate degrees = .ok n) : n.IsReal := by
  obtain ⟨angle, -, h⟩ := bind_eq_ok.mp h
  obtain ⟨cos, -, h⟩ := bind_eq_ok.mp h
  obtain ⟨sin, -, h⟩ := bind_eq_ok.mp h
  exact isReal_multiply hm h

end Affine

end Storyboard
