import Storyboard.Proofs.Easings
import Storyboard.Proofs.Sampling.Neighbours
import Storyboard.Proofs.Shapes

namespace Storyboard

namespace Easing

/-- What makes an easing stay between the ends of a segment: applying it gives its height, which is
that of its pieces, they meet, and it goes from zero to one without leaving the unit interval. One
that is steady never turns back. -/
structure Stays [Trig Rat] (settings : Settings Rat) (e : Easing Rat) : Prop where
  applied : ∀ t, ∃ v, e.apply settings t = .ok v ∧ v.value = height e.pieces t.value
  seamless : Seamless e.pieces
  zero : height e.pieces 0 = 0
  one : height e.pieces 1 = 1
  unit : ∀ t, 0 ≤ t → t ≤ 1 → 0 ≤ height e.pieces t ∧ height e.pieces t ≤ 1
  rises : Steady e → MonotoneOn (height e.pieces) (Set.Icc 0 1)

theorem Confined.stays [Trig Rat] (settings : Settings Rat) {e : Easing Rat} (h : Confined e) :
    Stays settings e where
  applied := apply_value settings h
  seamless := pieces_seamless e
  zero := height_zero h
  one := height_one h
  unit _ h0 h1 := height_unit h h0 h1
  rises := height_mono

end Easing

/-- The easing by which a keyframe is approached; without one it is the linear one. -/
def Keyframe.ApproachedBy (k : Keyframe Rat) (e : Easing Rat) : Prop :=
  match k.easing with
  | none => e = .linear
  | some j => Easing.Means j e

theorem Keyframe.ApproachedBy.ofOption {k : Keyframe Rat} {e : Easing Rat}
    (h : k.ApproachedBy e) : Easing.ofOption k.easing = .ok e := by
  rw [ApproachedBy] at h
  split at h
  · rename_i hnone
    rw [hnone, h, Easing.ofOption]
  · rename_i j hsome
    rw [hsome, Easing.ofOption, Easing.ofJson_of_means h]

namespace Track

/-- The frames on the way from one keyframe to the next, both ends included. A keyframe that others
of the same start follow is not arrived at. -/
inductive OnWay (ks : List (Keyframe Rat)) (p n : Keyframe Rat) : Rat → Prop where
  | within {f : Rat} (hp : lastUpTo ks f = some p) (hn : firstAfter ks f = some n) : OnWay ks p n f
  | arrived {f : Rat} (hp : lastUpTo ks f = some p) (hn : firstAfter ks f = some n)
    (h : lastUpTo ks n.time = some n) : OnWay ks p n n.time

/-- What lies between two numbers, a part of the way from the first. -/
def mix (a b s : Rat) : Rat := a + (b - a) * s

theorem mix_between (a b : Rat) {s : Rat} (h0 : 0 ≤ s) (h1 : s ≤ 1) :
    min a b ≤ mix a b s ∧ mix a b s ≤ max a b := by
  rw [mix]
  rcases le_total a b with hab | hab
  · have hdistance := sub_nonneg.mpr hab
    have hlow := mul_nonneg hdistance h0
    have hhigh := mul_le_of_le_one_right hdistance h1
    rw [min_eq_left hab, max_eq_right hab]
    constructor <;> linarith
  · have hdistance := sub_nonpos.mpr hab
    have hhigh := mul_nonpos_of_nonpos_of_nonneg hdistance h0
    have hlow := mul_le_mul_of_nonpos_left h1 hdistance
    rw [min_eq_right hab, max_eq_left hab]
    constructor <;> linarith

/-- Going on does not turn back. -/
theorem mix_mono (a b : Rat) {s s' : Rat} (h : s ≤ s') :
    (a ≤ b → mix a b s ≤ mix a b s') ∧ (b ≤ a → mix a b s' ≤ mix a b s) := by
  rw [mix, mix]
  constructor
  · intro hab
    linarith [mul_le_mul_of_nonneg_left h (sub_nonneg.mpr hab)]
  · intro hab
    linarith [mul_le_mul_of_nonpos_left h (sub_nonpos.mpr hab)]

section

variable {ks : List (Keyframe Rat)} {p n : Keyframe Rat} {f f' : Rat}

theorem OnWay.bounds (h : OnWay ks p n f) : p.time < n.time ∧ p.time ≤ f ∧ f ≤ n.time := by
  cases h with
  | within hp hn =>
    have hbehind := (lastUpTo_eq_some hp).2.1
    have hafter : f < n.time := by simpa using List.find?_some hn
    exact ⟨hbehind.trans_lt hafter, hbehind, hafter.le⟩
  | @arrived g hp hn _ =>
    have hbehind := (lastUpTo_eq_some hp).2.1
    have hafter : g < n.time := by simpa using List.find?_some hn
    exact ⟨hbehind.trans_lt hafter, (hbehind.trans_lt hafter).le, le_rfl⟩

theorem OnWay.ne_nil (h : OnWay ks p n f) : ks ≠ [] := by
  cases h with
  | within hp _ => exact List.ne_nil_of_mem (lastUpTo_eq_some hp).1
  | arrived hp _ _ => exact List.ne_nil_of_mem (lastUpTo_eq_some hp).1

theorem OnWay.progress_mem (h : OnWay ks p n f) :
    0 ≤ progress p n f ∧ progress p n f ≤ 1 := by
  obtain ⟨hlt, hbehind, hbefore⟩ := h.bounds
  have hgap : 0 < n.time - p.time := sub_pos.mpr hlt
  constructor
  · exact div_nonneg (sub_nonneg.mpr hbehind) hgap.le
  · rw [progress, div_le_one hgap]
    linarith

theorem OnWay.progress_mono (h : OnWay ks p n f) (hle : f ≤ f') :
    progress p n f ≤ progress p n f' := by
  have hgap : 0 < n.time - p.time := sub_pos.mpr h.bounds.1
  exact div_le_div_of_nonneg_right (by linarith) hgap.le

theorem lastUpTo_eq_getLast? (h : firstAfter ks f = none) : lastUpTo ks f = ks.getLast? := by
  have hall : ∀ k ∈ ks, decide (k.time ≤ f) = true := by
    intro k hk
    simpa using List.find?_eq_none.mp h k hk
  rw [lastUpTo, List.filter_eq_self.mpr hall]

variable [Trig Rat]

/-- Outside of a track its first or its last value is held. -/
theorem sample_outside {settings : Settings Rat} (h : InTime ks) (frame : Number Rat) :
    (lastUpTo ks frame.value = none →
      sample settings ks frame = .ok (ks.head?.map Keyframe.value)) ∧
    (firstAfter ks frame.value = none →
      sample settings ks frame = .ok (ks.getLast?.map Keyframe.value)) := by
  by_cases hne : ks = []
  · subst hne
    exact ⟨fun _ => rfl, fun _ => rfl⟩
  rw [sample_eq_shownAt hne h, shownAt]
  constructor
  · intro hnone
    rw [hnone]
  · intro hnone
    obtain ⟨last, hlast⟩ : ∃ last, ks.getLast? = some last :=
      ⟨_, List.getLast?_eq_some_getLast hne⟩
    rw [lastUpTo_eq_getLast? hnone, hlast, hnone]
    exact ite_self _

/-- On the way from one number to another the value is as far as the easing is high. -/
theorem shownAt_onWay {settings : Settings Rat} (hway : OnWay ks p n f) {a b : Number Rat}
    (ha : p.value = .number a) (hb : n.value = .number b) {e : Easing Rat}
    (he : n.ApproachedBy e) (hstays : e.Stays settings) :
    ∃ v, shownAt settings ks f = .ok (some (.number v)) ∧
      v.value = mix a.value b.value (Easing.height e.pieces (progress p n f)) := by
  have hgap : n.time - p.time ≠ 0 := (sub_pos.mpr hway.bounds.1).ne'
  cases hway with
  | within hp hn =>
    simp only [shownAt, hp, hn]
    -- On a keyframe its own value is shown, which no easing has shaped.
    by_cases hat : p.time = f
    · have hprogress : progress p n f = 0 := by rw [progress, hat, sub_self, zero_div]
      refine ⟨a, by rw [if_pos hat, ha], ?_⟩
      rw [hprogress, hstays.zero, mix, mul_zero, add_zero]
    · obtain ⟨eased, heased, hheight⟩ := hstays.applied (.real (progress p n f))
      refine ⟨.real (mix a.value b.value eased.value), ?_, by rw [hheight]; rfl⟩
      simp only [if_neg hat, onTheWay, ha, hb]
      rw [he.ofOption, Outcome.ok_bind, heased]
      rfl
  | arrived hp hn h =>
    have hprogress : progress p n n.time = 1 := div_self hgap
    refine ⟨b, by simp only [shownAt, h, if_true, hb], ?_⟩
    rw [hprogress, hstays.one, mix]
    ring

/-- In exact arithmetic an easing that stays in the unit interval keeps a track between the values
of the keyframes around a frame. With one that never turns back, neither do the values between two
keyframes. -/
theorem sample_stays {settings : Settings Rat} (h : InTime ks) :
    (∀ frame : Number Rat,
      (lastUpTo ks frame.value = none →
        sample settings ks frame = .ok (ks.head?.map Keyframe.value)) ∧
      (firstAfter ks frame.value = none →
        sample settings ks frame = .ok (ks.getLast?.map Keyframe.value))) ∧
    (∀ (p n : Keyframe Rat) (a b : Number Rat) (e : Easing Rat), p.value = .number a →
      n.value = .number b → n.ApproachedBy e → e.Confined →
      (∀ frame : Number Rat, OnWay ks p n frame.value →
        ∃ v, sample settings ks frame = .ok (some (.number v)) ∧
          min a.value b.value ≤ v.value ∧ v.value ≤ max a.value b.value) ∧
      (e.Steady → ∀ frame frame' : Number Rat, OnWay ks p n frame.value →
        OnWay ks p n frame'.value → frame.value ≤ frame'.value →
        ∃ v v', sample settings ks frame = .ok (some (.number v)) ∧
          sample settings ks frame' = .ok (some (.number v')) ∧
          (a.value ≤ b.value → v.value ≤ v'.value) ∧
          (b.value ≤ a.value → v'.value ≤ v.value))) ∧
    ∀ e : Easing Rat, e.Confined → e.Stays settings := by
  refine ⟨sample_outside h, ?_, fun e hconfined => hconfined.stays settings⟩
  intro p n a b e ha hb he hconfined
  have hstays : e.Stays settings := hconfined.stays settings
  have hshown : ∀ frame : Number Rat, OnWay ks p n frame.value →
      ∃ v, sample settings ks frame = .ok (some (.number v)) ∧
        v.value = mix a.value b.value (Easing.height e.pieces (progress p n frame.value)) := by
    intro frame hway
    rw [sample_eq_shownAt hway.ne_nil h]
    exact shownAt_onWay hway ha hb he hstays
  constructor
  · intro frame hway
    obtain ⟨v, hv, hvalue⟩ := hshown frame hway
    obtain ⟨h0, h1⟩ := hstays.unit _ hway.progress_mem.1 hway.progress_mem.2
    refine ⟨v, hv, ?_⟩
    rw [hvalue]
    exact mix_between a.value b.value h0 h1
  · intro hsteady frame frame' hway hway' hle
    obtain ⟨v, hv, hvalue⟩ := hshown frame hway
    obtain ⟨v', hv', hvalue'⟩ := hshown frame' hway'
    have hheight := hstays.rises hsteady hway.progress_mem hway'.progress_mem
      (hway.progress_mono hle)
    refine ⟨v, v', hv, hv', ?_⟩
    rw [hvalue, hvalue']
    exact mix_mono a.value b.value hheight

end

/-- Three keyframes: a way down, shaped by a bounce, and a way up again. -/
def highest : Keyframe Rat := ⟨.number (.int 0), .number (.int 10), none, []⟩

def lowest : Keyframe Rat := ⟨.number (.int 11), .number (.int 0), some (.str "bounce"), []⟩

def settled : Keyframe Rat := ⟨.number (.int 31), .number (.int 5), some (.str "ease-in-out"), []⟩

theorem bouncing_stays : InTime [highest, lowest, settled] ∧
    @sample Rat _ unturned .standard [highest, lowest, settled] (.int 2) =
      .ok (some (.number (.real (15 / 2)))) ∧
    (∃ v, @sample Rat _ unturned .standard [highest, lowest, settled] (.int 2) =
        .ok (some (.number v)) ∧ min 10 0 ≤ v.value ∧ v.value ≤ max 10 0) ∧
    (∃ v v', @sample Rat _ unturned .standard [highest, lowest, settled] (.int 16) =
        .ok (some (.number v)) ∧
      @sample Rat _ unturned .standard [highest, lowest, settled] (.int 31) =
        .ok (some (.number v')) ∧ v.value ≤ v'.value) ∧
    @sample Rat _ unturned .standard [highest, lowest, settled] (.int 40) =
      .ok (some (.number (.int 5))) := by
  let _ : Trig Rat := unturned
  have htimed : ∀ k ∈ [highest, lowest, settled], k.Timed := by
    simp only [List.forall_mem_cons]
    refine ⟨.of_start rfl rfl, .of_start rfl rfl, .of_start rfl rfl, ?_⟩
    exact fun k hk => absurd hk List.not_mem_nil
  have h : InTime [highest, lowest, settled] := ⟨htimed, by decide +kernel⟩
  obtain ⟨houtside, hinside, -⟩ := @sample_stays _ unturned .standard h
  have hdown := hinside highest lowest (.int 10) (.int 0) .bounce rfl rfl (.named rfl) .bounce
  have hup := hinside lowest settled (.int 0) (.int 5) .easeInOut rfl rfl (.named rfl)
    (.steady .easeInOut)
  refine ⟨h, ?_, hdown.1 (.int 2) (.within rfl rfl), ?_, ?_⟩
  · decide +kernel
  · obtain ⟨v, v', hv, hv', hrise, -⟩ := hup.2 .easeInOut (.int 16) (.int 31) (.within rfl rfl)
      (.arrived (f := 16) rfl rfl rfl) (by decide +kernel)
    exact ⟨v, v', hv, hv', hrise (by decide +kernel)⟩
  · exact (houtside (.int 40)).2 rfl

end Track

end Storyboard
