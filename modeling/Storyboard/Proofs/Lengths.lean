import Storyboard.Proofs.Composition.Extras
import Storyboard.Proofs.Faults

namespace Storyboard

open Outcome (Only)

variable {R : Type} [Scalar R]

/-- A measurer refuses a text with a fault. -/
def Measurer.Refuses (measurer : Measurer R) (f : Fault) : Prop := ∃ t, measurer t = .error f

/-- Hundredths can be taken. -/
def Scalar.Hundredths (R : Type) [Scalar R] : Prop :=
  (Scalar.exact (Scalar.const 100 0 : R)).eq (.finite 0) = false

section

variable (hhundred : Scalar.Hundredths R)

include hhundred

/-- A hundredth of a scalar. -/
theorem Number.div_hundred (x : R) :
    (Number.real x).div (.real (Scalar.const 100 0)) =
      .ok (.real (Scalar.div x (Scalar.const 100 0))) := by
  have hzero : ¬ (Scalar.exact (Scalar.const 100 0 : R)).eq (.finite 0) = true := by
    rw [hhundred]
    exact Bool.false_ne_true
  exact if_neg hzero

theorem Percentage.mild_part (text : String) (length : Number R) :
    Outcome.Mild R (part text length) := by
  rw [part]
  split
  · exact Outcome.mild_error rfl rfl
  · rename_i x _
    rw [Number.div_hundred hhundred, Outcome.ok_bind]
    exact Number.mild_lift _ _ _ _

theorem Percentage.mild_resolve (q : Quantity R) (length : Number R) :
    Outcome.Mild R (resolve q length) := by
  cases q with
  | number n => exact .ok _
  | text s =>
    rw [resolve]
    split
    · exact (mild_part hhundred s length).map _
    · exact .ok _

theorem Clip.mild_resolve (c : Clip R) (size : Size R) : Outcome.Mild R (c.resolve size) := by
  have hside (q : Option (Quantity R)) (length : R) : Outcome.Mild R (resolveSide q length) := by
    cases q with
    | none => exact .ok _
    | some q => exact (Percentage.mild_resolve hhundred q _).map _
  refine (hside _ _).bind fun x _ => (hside _ _).bind fun width _ => ?_
  exact (hside _ _).bind fun y _ => (hside _ _).bind fun height _ => .pure _

end

section

variable {settings : Settings R} {measurer : Measurer R}

theorem mild_lengthOr {default : R} {name : String} {props : Members R}
    (h : ∀ j, Members.get? name props = some j → ∃ n, j = .num n) :
    Outcome.Mild R (lengthOr default name props) := by
  rw [lengthOr]
  split
  · exact .ok _
  · exact .ok _
  · rename_i j _ hj
    obtain ⟨n, rfl⟩ := h j hj
    exact Number.mild_toReal n

/-- Where numbers stand for lengths, measuring is refused by the measurer. -/
theorem only_measure {kind : String} {props : Members R}
    (h : ∀ name ∈ lengthNames kind, ∀ j, Members.get? name props = some j → ∃ n, j = .num n) :
    Only (fun f => f.Mild R ∨ measurer.Refuses f) (measure settings measurer kind props) := by
  have hlength {name : String} (default : R) (hname : name ∈ lengthNames kind) :
      Only (fun f => f.Mild R ∨ measurer.Refuses f) (lengthOr default name props) :=
    (mild_lengthOr (h name hname)).mono fun _ => .inl
  unfold measure
  split
  · exact (hlength _ (by decide)).bind fun _ _ => (hlength _ (by decide)).bind fun _ _ => .pure _
  · exact (hlength _ (by decide)).bind fun _ _ => (hlength _ (by decide)).bind fun _ _ => .pure _
  · have hmeasurer (t : TextRequest R) :
        Only (fun f => f.Mild R ∨ measurer.Refuses f) (measurer t) := fun f hf => .inr ⟨t, hf⟩
    dsimp only
    split
    · rename_i hfilled
      have hsize : Outcome.Mild R ((Members.get? "size" props).getD .null).toReal := by
        cases hget : Members.get? "size" props with
        | none =>
          rw [hget] at hfilled
          cases hfilled
        | some j =>
          obtain ⟨n, rfl⟩ := h "size" (by decide) j hget
          exact Number.mild_toReal n
      exact (hsize.mono fun _ => .inl).bind fun size _ => hmeasurer _
    · exact ((Number.mild_toReal _).mono fun _ => .inl).bind fun size _ => hmeasurer _
  · exact (hlength _ (by decide)).bind fun _ _ => .pure _
  · exact (hlength _ (by decide)).bind fun _ _ => (hlength _ (by decide)).bind fun _ _ => .pure _
  · exact .ok _

theorem Object.Plain.only_measure {o : Object R} (h : o.Plain) :
    Only (fun f => f.Mild R ∨ measurer.Refuses f) (o.measure settings measurer) := by
  refine Storyboard.only_measure fun name hname j hj => ?_
  exact (h.typed_staticProps (Members.mem_of_get? hj)).1 (List.mem_append_right _ hname)

theorem Object.Plain.only_resolveClip {o : Object R} (hhundred : Scalar.Hundredths R)
    (h : o.Plain) :
    Only (fun f => f.Mild R ∨ measurer.Refuses f) (o.resolveClip settings measurer) := by
  rw [Object.resolveClip]
  split
  · exact .pure _
  · rename_i c _
    refine h.only_measure.bind fun size _ => ?_
    exact ((Clip.mild_resolve hhundred c size).mono fun _ => .inl).bind fun _ _ => .pure _

theorem Object.only_resolveAllClips (hhundred : Scalar.Hundredths R) {objects : List (Object R)}
    (h : AllPlain objects) :
    Only (fun f => f.Mild R ∨ measurer.Refuses f)
      (resolveAllClips settings measurer objects) := by
  induction objects using Object.forest with
  | nil => exact .ok _
  | shape b s e rest ih | reference b r e rest ih =>
    obtain ⟨hfirst, -, hrest⟩ := allPlain_cons.mp h
    rw [resolveAllClips, resolveClips]
    exact (hfirst.only_resolveClip hhundred).bind fun _ _ => (ih hrest).bind fun _ _ => .pure _
  | group b cs info e rest ihChildren ihRest =>
    obtain ⟨hfirst, hcs, hrest⟩ := allPlain_cons.mp h
    rw [resolveAllClips, resolveClips]
    refine Only.bind ?_ fun _ _ => (ihRest hrest).bind fun _ _ => .pure _
    refine (ihChildren hcs).bind fun children _ => ?_
    have hgroup : (Object.group b children info e).Plain := hfirst.like rfl rfl rfl
    exact hgroup.only_resolveClip hhundred

theorem Track.only_resolveClip (hhundred : Scalar.Hundredths R) {objects : List (Object R)}
    (h : Object.AllPlain objects) (t : Track R) :
    Only (fun f => f.Mild R ∨ measurer.Refuses f)
      (t.resolveClip settings measurer objects) := by
  rw [Track.resolveClip]
  split
  · exact .pure _
  · split
    · refine Only.bind ?_ fun size _ => ?_
      · rw [targetSize]
        split
        · rename_i o hfind
          exact (h o (Address.id_of_follow hfind).2).only_measure
        · exact .ok _
      · refine Only.bind (.mapM fun k _ => ?_) fun _ _ => .pure _
        refine Only.bind ?_ fun _ _ => .pure _
        exact (Percentage.mild_resolve hhundred k.value _).mono fun _ => .inl
    · exact .pure _

/-- The percentages of a plain tree become lengths, unless a text cannot be measured. -/
theorem only_resolveClipLengths (hhundred : Scalar.Hundredths R) {objects : List (Object R)}
    (h : Object.AllPlain objects) (tracks : List (Track R)) :
    Only (fun f => f.Mild R ∨ measurer.Refuses f)
      (resolveClipLengths settings measurer objects tracks) := by
  refine (Object.only_resolveAllClips hhundred h).bind fun resolved _ => ?_
  exact (Only.mapM fun t _ => Track.only_resolveClip hhundred h t).bind fun _ _ => .pure _

end

end Storyboard
