import Mathlib.Algebra.Order.Field.Rat
import Mathlib.Data.Rat.Floor
import Mathlib.Tactic.Linarith
import Mathlib.Tactic.Positivity
import Storyboard.Proofs.Run
import Storyboard.Rational
import Storyboard.Time

namespace Storyboard

namespace Scalar

theorem const_one : (const 1 0 : Rat) = 1 := by decide +kernel

theorem const_half : (const 5 (-1) : Rat) = 1 / 2 := by decide +kernel

end Scalar

namespace Number

/-- The rational that a number stands for. -/
def value : Number Rat → Rat
  | int n => n
  | real x => x

@[simp] theorem value_int (n : Int) : (int n).value = n := rfl

@[simp] theorem value_real (x : Rat) : (real x).value = x := rfl

theorem exact_eq (a : Number Rat) : a.exact = .finite a.value := by
  cases a <;> rfl

theorem toReal_eq (a : Number Rat) : a.toReal = .ok a.value := by
  cases a <;> rfl

theorem lt_eq (a b : Number Rat) : a.lt b = decide (a.value < b.value) := by
  rw [lt, exact_eq, exact_eq]
  rfl

theorem eq_eq (a b : Number Rat) : a.eq b = decide (a.value = b.value) := by
  rw [eq, exact_eq, exact_eq]
  rfl

theorem le_eq (a b : Number Rat) : a.le b = decide (a.value ≤ b.value) := by
  rw [le, exact_eq, exact_eq]
  simp [Exact.le, Exact.lt, Exact.eq, le_iff_lt_or_eq]

theorem add_eq_ok {a b c : Number Rat} (h : a.add b = .ok c) : c.value = a.value + b.value := by
  cases a <;> cases b <;> cases h <;> simp [Scalar.add]

theorem sub_eq_ok {a b c : Number Rat} (h : a.sub b = .ok c) : c.value = a.value - b.value := by
  cases a <;> cases b <;> cases h <;> simp [Scalar.sub]

theorem mul_eq_ok {a b c : Number Rat} (h : a.mul b = .ok c) : c.value = a.value * b.value := by
  cases a <;> cases b <;> cases h <;> simp [Scalar.mul]

theorem div_real_eq_ok {n : Int} {v : Rat} (h : v ≠ 0) :
    (int n : Number Rat).div (real v) = .ok (real (n / v)) := by
  have hv : (Scalar.exact v).eq (.finite 0) = false := by
    simp [Scalar.exact, Exact.eq, h]
  simp only [div, toReal_eq, value_int, value_real, bind, Except.bind, hv]
  rfl

theorem div_eq_ok {n : Int} {b c : Number Rat} (h : (int n : Number Rat).div b = .ok c) :
    c.value = n / b.value := by
  cases b with
  | real v =>
    by_cases hv : v = 0
    · subst hv
      simp only [div, toReal_eq] at h
      cases h
    · rw [div_real_eq_ok hv] at h
      cases h
      rfl
  | int m =>
    by_cases hm : m = 0
    · subst hm
      cases h
    · have hm' : (m == 0) = false := by simpa using hm
      simp only [div, hm', Scalar.ofRat?] at h
      cases h
      change mkRat (n * m.sign) m.natAbs = n / (m : Rat)
      rw [Rat.mkRat_eq_div]
      rcases Int.lt_or_gt_of_ne hm with hneg | hpos
      · have habs : ((m.natAbs : Nat) : Int) = -m := Int.ofNat_natAbs_of_nonpos hneg.le
        rw [Int.sign_eq_neg_one_of_neg hneg, Int.mul_neg_one, ← Int.cast_natCast, habs]
        push_cast
        exact neg_div_neg_eq _ _
      · have habs : ((m.natAbs : Nat) : Int) = m := Int.natAbs_of_nonneg hpos.le
        rw [Int.sign_eq_one_of_pos hpos, Int.mul_one, ← Int.cast_natCast, habs]

theorem floor_eq (a : Number Rat) : a.floor = .ok ⌊a.value⌋ := by
  rw [floor, whole, exact_eq]
  rfl

/-- A frame is the whole number next to a number, the upper one for a half. -/
theorem roundFrame_eq (a : Number Rat) : a.roundFrame = .ok ⌊a.value + 1 / 2⌋ := by
  rw [roundFrame, Scalar.const_half]
  have hadd : ∃ b, a.add (real (1 / 2)) = .ok b := by
    cases a <;> exact ⟨_, rfl⟩
  obtain ⟨b, hb⟩ := hadd
  rw [hb]
  change b.floor = _
  rw [floor_eq, add_eq_ok hb, value_real]

theorem roundFrame_int (n : Int) : (int n : Number Rat).roundFrame = .ok n := by
  rw [roundFrame_eq, value_int]
  congr 1
  rw [Int.floor_eq_iff]
  constructor <;> linarith

/-- An operation that is never refused. -/
def lifted (onInts : Int → Int → Int) (onReals : Rat → Rat → Rat) :
    Number Rat → Number Rat → Number Rat
  | int m, int n => int (onInts m n)
  | a, b => real (onReals a.value b.value)

@[simp] theorem lifted_real_left (onInts : Int → Int → Int) (onReals : Rat → Rat → Rat) (x : Rat)
    (b : Number Rat) : lifted onInts onReals (real x) b = real (onReals x b.value) := rfl

@[simp] theorem lifted_real_right (onInts : Int → Int → Int) (onReals : Rat → Rat → Rat)
    (a : Number Rat) (y : Rat) :
    lifted onInts onReals a (real y) = real (onReals a.value y) := by
  cases a <;> rfl

theorem lift_eq (onInts : Int → Int → Int) (onReals : Rat → Rat → Rat) (a b : Number Rat) :
    lift onInts onReals a b = .ok (lifted onInts onReals a b) := by
  cases a <;> cases b <;> rfl

theorem add_ok (a b : Number Rat) : ∃ c, a.add b = .ok c := ⟨_, lift_eq _ _ a b⟩

theorem sub_ok (a b : Number Rat) : ∃ c, a.sub b = .ok c := ⟨_, lift_eq _ _ a b⟩

theorem mul_ok (a b : Number Rat) : ∃ c, a.mul b = .ok c := ⟨_, lift_eq _ _ a b⟩

/-- A quotient is a scalar, even that of whole numbers. -/
theorem div_eq {a b : Number Rat} (h : b.value ≠ 0) :
    a.div b = .ok (real (a.value / b.value)) := by
  cases a with
  | int n =>
    cases b with
    | real v => exact div_real_eq_ok h
    | int m =>
      have hm : (m == 0) = false := by simpa using h
      obtain ⟨x, hx⟩ : ∃ x : Rat, (int n : Number Rat).div (int m) = .ok (real x) :=
        ⟨_, by simp only [div, hm, Scalar.ofRat?]; rfl⟩
      have hvalue : x = n / m := div_eq_ok hx
      rw [hx, hvalue]
      rfl
  | real x =>
    have hzero : (Scalar.exact b.value).eq (.finite 0) = false := by
      simp [Scalar.exact, Exact.eq, h]
    rw [div, toReal_eq, toReal_eq]
    · simp only [Outcome.ok_bind, hzero]
      rfl
    · simp

theorem div_ok {a b : Number Rat} (h : b.value ≠ 0) : ∃ c, a.div b = .ok c := ⟨_, div_eq h⟩

theorem roundFrame_nonneg {a : Number Rat} {n : Int} (h : a.roundFrame = .ok n)
    (ha : 0 ≤ a.value) : 0 ≤ n := by
  rw [roundFrame_eq] at h
  cases h
  exact Int.floor_nonneg.mpr (by linarith)

end Number

namespace Time

theorem seconds_nonneg (u : TimeUnit) : (0 : Rat) ≤ u.seconds := by
  cases u <;> decide +kernel

theorem amount_nonneg {text : String} {cs : List Char} {a : Rat}
    (h : amount text cs = .ok a) : 0 ≤ a := by
  rw [amount] at h
  split at h
  · cases h
  · split at h
    · cases h
    · rename_i hneg
      cases h
      simpa [Scalar.exact, Exact.lt] using hneg

theorem frame_nonneg {fps : Number Rat} {q : Quantity Rat} {n : Int} (hfps : 0 ≤ fps.value)
    (h : frame fps q = .ok n) : 0 ≤ n := by
  cases q with
  | number a =>
    rw [frame, Number.lt_eq] at h
    split at h
    · cases h
    · rename_i hneg
      exact Number.roundFrame_nonneg h (by simpa using hneg)
  | text s =>
    rw [frame, frameOfText] at h
    split at h
    · cases h
    · split at h
      · obtain ⟨a, ha, h⟩ := Outcome.bind_eq_ok.mp h
        obtain ⟨frames, hframes, h⟩ := Outcome.bind_eq_ok.mp h
        refine Number.roundFrame_nonneg h ?_
        rw [Number.mul_eq_ok hframes]
        exact mul_nonneg (mul_nonneg (amount_nonneg ha) (seconds_nonneg _)) hfps
      · obtain ⟨a, ha, h⟩ := Outcome.bind_eq_ok.mp h
        exact Number.roundFrame_nonneg h (amount_nonneg ha)

theorem frame_int {fps : Number Rat} {n : Int} (h : 0 ≤ n) :
    frame fps (.number (.int n)) = .ok n := by
  rw [frame, Number.lt_eq, Number.roundFrame_int]
  have : ¬ ((Number.int n : Number Rat).value < (Number.int 0 : Number Rat).value) := by
    rw [Number.value_int, Number.value_int]
    exact_mod_cast not_lt.mpr h
  simp only [this, decide_false]
  rfl

/-- A frame that is a time value is its own frame. -/
theorem frame_int_eq_ok {fps : Number Rat} {n m : Int}
    (h : frame fps (.number (.int n)) = .ok m) : m = n := by
  rw [frame, Number.roundFrame_int] at h
  split at h
  · cases h
  · exact (Except.ok.inj h).symm

theorem frameOrZero_nonneg {fps : Number Rat} {q : Option (Quantity Rat)} {n : Int}
    (hfps : 0 ≤ fps.value) (h : frameOrZero fps q = .ok n) : 0 ≤ n := by
  cases q with
  | none =>
    cases h
    exact Int.le_refl 0
  | some q => exact frame_nonneg hfps h

end Time

end Storyboard
