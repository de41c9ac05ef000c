import Storyboard.Command
import Storyboard.Proofs.Run

namespace Storyboard

/-- Whether a refusal is about how objects and files hang together: about a path that two objects
would have, a target that no object has, or a file inside itself. -/
@[simp] def Fault.structural : Fault → Bool
  | .duplicatePath _ | .unknownTarget .. | .circularReference _ => true
  | _ => false

/-- An arithmetic with a range: a rational lies outside of it, or a scalar is infinite. -/
def Bounded (R : Type) [Scalar R] : Prop :=
  (∃ q : Rat, Scalar.ofRat? (R := R) q = none) ∨
    ∃ (x : R) (negative : Bool), Scalar.exact x = .infinite negative

/-- A fault for which a value by itself is to blame: the input is refused, but not for how it hangs
together, or a number is out of range. -/
def Fault.Mild (R : Type) [Scalar R] (f : Fault) : Prop :=
  f.structural = false ∧ (Command.isRefusal f = true ∨ f = .numeric .overflow ∧ Bounded R)

theorem Fault.not_mild {R : Type} [Scalar R] {f : Fault} (h : Command.isRefusal f = false)
    (hrange : f ≠ .numeric .overflow) : ¬ f.Mild R := by
  rintro ⟨-, hrefusal | ⟨hoverflow, -⟩⟩
  · exact Bool.noConfusion (h.symm.trans hrefusal)
  · exact hrange hoverflow

namespace Outcome

variable {α β : Type} {P Q : Fault → Prop}

/-- An outcome that is refused, if at all, with a fault of a kind. -/
def Only (P : Fault → Prop) (x : Outcome α) : Prop := ∀ f, x = .error f → P f

namespace Only

@[simp] theorem ok (a : α) : Only P (.ok a : Outcome α) := fun _ h => by cases h

@[simp] theorem pure (a : α) : Only P (Pure.pure a : Outcome α) := ok a

@[simp] theorem error_iff {f : Fault} : Only P (.error f : Outcome α) ↔ P f := by
  constructor
  · exact fun h => h f rfl
  · intro hf g hg
    cases hg
    exact hf

theorem mono {x : Outcome α} (h : Only P x) (hPQ : ∀ f, P f → Q f) : Only Q x :=
  fun f hf => hPQ f (h f hf)

theorem bind {x : Outcome α} {g : α → Outcome β} (hx : Only P x)
    (hg : ∀ a, x = .ok a → Only P (g a)) : Only P (x >>= g) := by
  cases x with
  | ok a => exact hg a rfl
  | error f => exact error_iff.mpr (error_iff.mp hx)

theorem map {x : Outcome α} (g : α → β) (hx : Only P x) : Only P (x.map g) := by
  cases x with
  | ok a => exact ok (g a)
  | error f => exact error_iff.mpr (error_iff.mp hx)

theorem mapM {g : α → Outcome β} {xs : List α} (hg : ∀ x ∈ xs, Only P (g x)) :
    Only P (xs.mapM g) := by
  induction xs with
  | nil => exact ok []
  | cons x xs ih =>
    rw [List.mapM_cons]
    obtain ⟨hx, hxs⟩ := List.forall_mem_cons.mp hg
    exact bind hx fun _ _ => bind (ih hxs) fun _ _ => ok _

end Only

/-- An outcome that is refused with a fault of a kind, if at all, and that is refused if there is such
a fault. -/
structure Exactly (P : Fault → Prop) (x : Outcome α) : Prop where
  only : Only P x
  refused : ∀ f, P f → ¬ Returns x

namespace Exactly

theorem of_returns {x : Outcome α} (hx : Returns x) (h : ∀ f, ¬ P f) : Exactly P x := by
  obtain ⟨a, rfl⟩ := hx
  exact ⟨.ok a, fun f hf => absurd hf (h f)⟩

theorem error {f : Fault} (h : P f) : Exactly P (.error f : Outcome α) := by
  refine ⟨Only.error_iff.mpr h, fun _ _ hreturns => ?_⟩
  obtain ⟨a, ha⟩ := hreturns
  cases ha

theorem self (x : Outcome α) : Exactly (fun f => x = .error f) x := by
  refine ⟨fun f hf => hf, fun f hf hreturns => ?_⟩
  obtain ⟨a, ha⟩ := hreturns
  cases hf.symm.trans ha

theorem congr {x : Outcome α} (h : Exactly P x) (hPQ : ∀ f, P f ↔ Q f) : Exactly Q x :=
  ⟨h.only.mono fun f => (hPQ f).mp, fun f hf => h.refused f ((hPQ f).mpr hf)⟩

theorem bind {x : Outcome α} {g : α → Outcome β} (hx : Exactly P x)
    (hg : ∀ a, x = .ok a → Exactly Q (g a)) : Exactly (fun f => P f ∨ Q f) (x >>= g) := by
  refine ⟨(hx.only.mono fun _ => .inl).bind fun a ha => (hg a ha).only.mono fun _ => .inr,
    fun f hf hreturns => ?_⟩
  obtain ⟨a, ha, hreturns⟩ := returns_bind.mp hreturns
  rcases hf with hf | hf
  · exact hx.refused f hf ⟨a, ha⟩
  · exact (hg a ha).refused f hf hreturns

/-- What always gives a result has no part in the faults. -/
theorem bind_total {x : Outcome α} {g : α → Outcome β} (hx : Exactly P x)
    (hg : ∀ a, x = .ok a → Returns (g a)) : Exactly P (x >>= g) :=
  (hx.bind fun a ha => of_returns (hg a ha) (P := fun _ => False) fun _ => id).congr fun _ => by
    rw [or_false]

theorem bind_of {x : Outcome α} {g : α → Outcome β} (hx : Returns x)
    (hg : ∀ a, x = .ok a → Exactly Q (g a)) : Exactly Q (x >>= g) := by
  obtain ⟨a, rfl⟩ := hx
  exact hg a rfl

theorem mapM {P : α → Fault → Prop} {g : α → Outcome β} {xs : List α}
    (h : ∀ x ∈ xs, Exactly (P x) (g x)) : Exactly (fun f => ∃ x ∈ xs, P x f) (xs.mapM g) := by
  refine ⟨.mapM fun x hx => (h x hx).only.mono fun f hf => ⟨x, hx, hf⟩, fun f hf hreturns => ?_⟩
  obtain ⟨x, hx, hf⟩ := hf
  exact (h x hx).refused f hf (returns_mapM.mp hreturns x hx)

theorem returns_iff {x : Outcome α} (h : Exactly P x) : Returns x ↔ ∀ f, ¬ P f := by
  constructor
  · exact fun hreturns f hf => h.refused f hf hreturns
  · intro hnone
    cases x with
    | ok a => exact returns_ok a
    | error f => exact absurd (Only.error_iff.mp h.only) (hnone f)

end Exactly

/-- An outcome that only a value by itself is to blame for. -/
abbrev Mild (R : Type) [Scalar R] (x : Outcome α) : Prop := Only (Fault.Mild R) x

end Outcome

open Outcome

variable {R : Type} [Scalar R]

/-- A refusal is mild unless it is structural. -/
theorem Outcome.mild_error {α : Type} {f : Fault} (hf : f.structural = false)
    (h : Command.isRefusal f = true) : Outcome.Mild R (.error f : Outcome α) :=
  Only.error_iff.mpr ⟨hf, .inl h⟩

namespace Number

theorem mild_toReal (a : Number R) : Outcome.Mild R a.toReal := by
  cases a with
  | real x => exact .ok x
  | int n =>
    rw [toReal]
    split
    · exact .ok _
    · rename_i hnone
      exact Only.error_iff.mpr ⟨rfl, .inr ⟨rfl, .inl ⟨n, hnone⟩⟩⟩

theorem only_lift {P : Fault → Prop} {onInts : Int → Int → Int} {onReals : R → R → R}
    {a b : Number R} (ha : Only P a.toReal) (hb : Only P b.toReal) :
    Only P (lift onInts onReals a b) := by
  have hreals : Only P (a.toReal >>= fun x => b.toReal >>= fun y =>
      (Pure.pure (real (onReals x y)) : Outcome (Number R))) :=
    ha.bind fun _ _ => hb.bind fun _ _ => .pure _
  cases a with
  | real x => exact hreals
  | int m =>
    cases b with
    | int n => exact .ok _
    | real y => exact hreals

theorem mild_lift (onInts : Int → Int → Int) (onReals : R → R → R) (a b : Number R) :
    Outcome.Mild R (lift onInts onReals a b) :=
  only_lift (mild_toReal a) (mild_toReal b)

/-- A whole number is divided unless the divisor is zero. -/
theorem only_div_int (m : Int) (b : Number R) :
    Only (fun f => f.Mild R ∨ f = .numeric .zeroDivision ∧ b.isZero = true)
      ((int m : Number R).div b) := by
  cases b with
  | int n =>
    rw [div]
    split
    · rename_i hzero
      obtain rfl : n = 0 := by simpa using hzero
      exact Only.error_iff.mpr (.inr ⟨rfl, rfl⟩)
    · split
      · exact .ok _
      · rename_i hnone
        exact Only.error_iff.mpr (.inl ⟨rfl, .inr ⟨rfl, .inl ⟨_, hnone⟩⟩⟩)
  | real y =>
    refine ((mild_toReal (int m : Number R)).mono fun f hf => .inl hf).bind fun x _ => ?_
    rw [toReal_real, ok_bind]
    split
    · rename_i hzero
      exact Only.error_iff.mpr (.inr ⟨rfl, hzero⟩)
    · exact .pure _

/-- No whole number is divided by zero. -/
theorem div_int_of_isZero {m : Int} {b : Number R} (h : b.isZero = true) (q : Number R) :
    (int m : Number R).div b ≠ .ok q := by
  intro hq
  cases b with
  | int n =>
    have hn : n = 0 := by simpa [isZero, eq, exact, Exact.eq] using h
    rw [hn] at hq
    cases hq
  | real y =>
    obtain ⟨x, -, hq⟩ := bind_eq_ok.mp hq
    have hzero : (Scalar.exact y).eq (.finite 0) = true := h
    rw [toReal_real, ok_bind, if_pos hzero] at hq
    cases hq

theorem mild_floor (a : Number R) : Outcome.Mild R a.floor := by
  rw [floor, whole]
  split
  · exact mild_error rfl rfl
  · rename_i negative hinfinite
    cases a with
    | int n => cases hinfinite
    | real x => exact Only.error_iff.mpr ⟨rfl, .inr ⟨rfl, .inr ⟨x, negative, hinfinite⟩⟩⟩
  · exact .ok _

theorem mild_roundFrame (a : Number R) : Outcome.Mild R a.roundFrame :=
  (mild_lift _ _ _ _).bind fun b _ => mild_floor b

end Number

namespace Time

theorem mild_amount (text : String) (cs : List Char) :
    Outcome.Mild R (amount text cs : Outcome R) := by
  rw [amount]
  split
  · exact mild_error rfl rfl
  · split
    · exact mild_error rfl rfl
    · exact .ok _

theorem mild_frame (fps : Number R) (q : Quantity R) : Outcome.Mild R (frame fps q) := by
  cases q with
  | number n =>
    rw [frame]
    split
    · exact mild_error rfl rfl
    · exact Number.mild_roundFrame n
  | text s =>
    rw [frame, frameOfText]
    split
    · exact mild_error rfl rfl
    · split
      · refine (mild_amount s _).bind fun a _ => ?_
        exact (Number.mild_lift _ _ _ _).bind fun n _ => Number.mild_roundFrame n
      · exact (mild_amount s _).bind fun a _ => Number.mild_roundFrame _

theorem mild_frameOrZero (fps : Number R) (q : Option (Quantity R)) :
    Outcome.Mild R (frameOrZero fps q) := by
  cases q with
  | none => exact .ok 0
  | some q => exact mild_frame fps q

end Time

namespace TimeScope

theorem mild_enter (scope : TimeScope R) (info : GroupInfo R) (fps : Number R) :
    Outcome.Mild R (scope.enter info fps) :=
  (Time.mild_frameOrZero fps info.start).bind fun _ _ =>
    (Number.mild_lift _ _ _ _).bind fun _ _ => .pure _

/-- A moment has an absolute frame unless the scope stands still. -/
theorem only_toAbsolute (scope : TimeScope R) (moment : Int) :
    Only (fun f => f.Mild R ∨ f = .numeric .zeroDivision ∧ scope.speed.isZero = true)
      (scope.toAbsolute (.int moment)) :=
  (Number.only_div_int moment scope.speed).bind fun m _ =>
    ((Number.mild_roundFrame m).mono fun _ => .inl).bind fun _ _ => .pure _

end TimeScope

namespace Easing

theorem mild_checkRange (context : String) (a b : Number R) :
    Outcome.Mild R (checkRange context a b) := by
  rw [checkRange]
  split
  · exact .ok _
  · refine ((Number.mild_toReal a).map _).bind fun s _ => ?_
    refine ((Number.mild_toReal b).map _).bind fun t _ => ?_
    exact mild_error rfl rfl

theorem mild_checkText (context text : String) :
    Outcome.Mild R (checkText (R := R) context text) := by
  rw [checkText]
  split
  · exact .ok _
  · split
    · split
      · exact mild_error rfl rfl
      · split
        · exact mild_error rfl rfl
        · exact mild_checkRange _ _ _
    · exact mild_error rfl rfl

theorem mild_checkMembers (context : String) (members : Members R) :
    Outcome.Mild R (checkMembers context members) := by
  rw [checkMembers]
  split
  · split
    · split
      · exact mild_checkRange _ _ _
      · exact mild_error rfl rfl
    · exact mild_error rfl rfl
  · exact mild_error rfl rfl

theorem mild_checkOption (context : String) (j : Option (Json R)) :
    Outcome.Mild R (checkOption context j) := by
  cases j with
  | none => exact .ok ()
  | some j =>
    cases j with
    | null => exact .ok ()
    | str s => exact mild_checkText context s
    | obj members => exact mild_checkMembers context members
    | bool | num | arr => exact mild_error rfl rfl

end Easing

theorem Percentage.mild_effectValue (context : String) (j : Json R) :
    Outcome.Mild R (effectValue context j) := by
  cases j with
  | num n => exact .ok _
  | str s =>
    rw [effectValue]
    split
    · exact .ok _
    · split <;> exact mild_error rfl rfl
  | null | bool | arr | obj => exact mild_error rfl rfl

omit [Scalar R] in
/-- Keyframes are refused only for the frame of one of them. -/
theorem Track.only_placed {P : Fault → Prop} {frame : Quantity R → Outcome Int}
    {keyframes : List (Keyframe R)} (h : ∀ k ∈ keyframes, Only P (frame k.start)) :
    Only P (Track.placed frame keyframes) :=
  .map _ (.mapM fun k hk => (h k hk).map _)

theorem Track.mild_checkEasings (source property : String) (index : Nat)
    (ks : List (Keyframe R)) : Outcome.Mild R (checkEasings source property index ks) := by
  induction ks generalizing index with
  | nil => exact .ok ()
  | cons k rest ih => exact (Easing.mild_checkOption _ _).bind fun _ _ => ih (index + 1)

namespace EffectUse

theorem mild_keyframesFrom (source property : String) (props : Option (Members R))
    (start duration : Int) (index : Nat) (ks : List (EffectKeyframe R)) :
    Outcome.Mild R (keyframesFrom source property props start duration index ks) := by
  induction ks generalizing index with
  | nil => exact .ok []
  | cons k rest ih =>
    rw [keyframesFrom]
    refine Only.bind ?_ fun first _ => (ih (index + 1)).bind fun others _ => .pure _
    refine (Easing.mild_checkOption _ _).bind fun u _ => ?_
    refine (Percentage.mild_effectValue _ _).bind fun value _ => ?_
    refine Only.bind ?_ fun frame _ => .pure _
    refine (Number.mild_lift _ _ _ _).bind fun distance _ => ?_
    exact (Number.mild_lift _ _ _ _).bind fun time _ => Number.mild_roundFrame time

theorem mild_tracksOf (use : EffectUse R) (effect : Effect R) (fps : Number R)
    (props : Option (Members R)) (start : Int) :
    Outcome.Mild R (use.tracksOf effect fps props start) := by
  have hduration : Outcome.Mild R (use.durationFrames effect fps) := by
    rw [durationFrames]
    split
    · exact Time.mild_frame fps _
    · exact (Number.mild_lift _ _ _ _).bind fun n _ => Number.mild_roundFrame n
  refine hduration.bind fun duration _ => .mapM fun p _ => ?_
  exact (mild_keyframesFrom _ _ _ _ _ _ _).bind fun keyframes _ => .pure _

end EffectUse

end Storyboard
