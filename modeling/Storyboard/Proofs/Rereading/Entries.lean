import Storyboard.Proofs.Rereading.Animations

namespace Storyboard

variable {R : Type}

namespace Members

theorem get?_erase {α : Type} {name other : String} {ms : List (String × α)} :
    get? name (erase other ms) = if other = name then none else get? name ms := by
  induction ms with
  | nil => simp [erase, get?]
  | cons first rest ih =>
    obtain ⟨n, v⟩ := first
    rw [erase]
    by_cases hn : n = other
    · subst hn
      rw [if_pos (by simp), ih, get?_cons]
      split <;> rfl
    · rw [if_neg (by simpa using hn), get?_cons, get?_cons, ih]
      by_cases hname : n = name
      · subst hname
        simp [Ne.symm hn]
      · simp [hname]

/-- Where a name stands for one value only, it has that value among the filled members. -/
theorem get?_of_filled {name : String} {ms extras : Members R} {j : Json R}
    (hproper : (Json.obj ms).Proper) (hsub : ∀ m ∈ extras, m ∈ ms)
    (h : get? name (filled extras) = some j) : get? name ms = some j := by
  have hmem : (name, j) ∈ ms := hsub _ (mem_of_mem_filled (mem_of_get? h))
  cases hfound : get? name ms with
  | none => exact absurd rfl (lacks_iff_get?.mpr hfound _ hmem)
  | some j' =>
    cases hproper with
    | obj _ hnames => exact congrArg some (hnames _ (mem_of_get? hfound) _ hmem rfl)

end Members

open Codec Fields

namespace FieldName

theorem take_same {name : String} {ms : Members R} :
    (same name).take ms = ((Members.get? name ms).map (name, ·), Members.erase name ms) := by
  rw [take, same]
  cases h : Members.get? name ms with
  | none => simp [(Members.lacks_iff_get?.mpr h).erase_eq]
  | some j => simp

end FieldName

namespace Fields

variable {ρ α : Type} {name : String} {c : Codec R α} {ms : Members R}

theorem read_required_same_eq_ok {get : ρ → α} {a : α} :
    ((required name c get).read ms).1 = .ok a ↔
      ∃ j, Members.get? name ms = some j ∧ c.read j = .ok a := by
  simp only [required, FieldName.take_same]
  cases Members.get? name ms with
  | none => simp [Checked.under_eq_ok, Checked.fail]
  | some j => simp [Checked.under_eq_ok]

theorem read_record_obj_eq_ok {f : Fields R ρ ρ} {r : ρ} : f.record.read (.obj ms) = .ok r ↔
    (∀ m ∈ ms, Text.hasHalf m.1 = false) ∧ (f.read ms).1 = .ok r := by
  simp only [record]
  by_cases h : (ms.any fun m => Text.hasHalf m.1) = true
  · rw [if_pos h]
    constructor
    · intro hread
      cases hread
    · rintro ⟨hnone, -⟩
      obtain ⟨m, hm, hhalf⟩ := List.any_eq_true.mp h
      rw [hnone m hm] at hhalf
      cases hhalf
  · rw [if_neg h]
    simp only [List.any_eq_true, not_exists, not_and, Bool.not_eq_true] at h
    exact ⟨fun hread => ⟨h, hread⟩, fun hread => hread.2⟩

theorem left_seq {β : Type} {f : Fields R ρ (α → β)} {x : Fields R ρ α} :
    ((f <*> x).read ms).2 = (x.read (f.read ms).2).2 := rfl

theorem left_map {β : Type} {f : α → β} {x : Fields R ρ α} :
    ((f <$> x).read ms).2 = (x.read ms).2 := rfl

theorem left_required_same {get : ρ → α} :
    ((required name c get).read ms).2 = Members.erase name ms := by
  rw [left_required, FieldName.take_same]

theorem left_defaulted_same {default : α} {get : ρ → α} :
    ((defaulted name c default get).read ms).2 = Members.erase name ms := by
  rw [left_defaulted, FieldName.take_same]

theorem left_optional_same {get : ρ → Option α} :
    ((optional name c get).read ms).2 = Members.erase name ms := by
  rw [left_optional, FieldName.take_same]

/-- A field under one name is read from what stands under it. -/
theorem read_defaulted_congr {default : α} {get : ρ → α} {others : Members R}
    (h : Members.get? name ms = Members.get? name others) :
    ((defaulted name c default get).read ms).1 =
      ((defaulted name c default get).read others).1 := by
  simp only [defaulted, FieldName.take_same, h]
  cases Members.get? name others <;> rfl

theorem read_optional_congr {get : ρ → Option α} {others : Members R}
    (h : Members.get? name ms = Members.get? name others) :
    ((optional name c get).read ms).1 = ((optional name c get).read others).1 := by
  simp only [optional, FieldName.take_same, h]
  cases Members.get? name others with
  | none => rfl
  | some j => cases j <;> rfl

end Fields

theorem Codec.read_text_eq_ok {j : Json R} {s : String} : text.read j = .ok s ↔ j = .str s := by
  cases j <;> simp [text, Checked.fail]

open Members

theorem Track.read_eq_ok {ms : Members R} {t : Track R} : codec.read (.obj ms) = .ok t ↔
    (∀ m ∈ ms, Text.hasHalf m.1 = false) ∧ get? "target" ms = some (.str t.target) ∧
      get? "property" ms = some (.str t.property) ∧
      (∃ j, get? "keyframes" ms = some j ∧
        (Codec.list Keyframe.codec).read j = .ok t.keyframes) ∧
      t.extras = erase "keyframes" (erase "property" (erase "target" ms)) := by
  rw [codec, fields, read_record_obj_eq_ok]
  simp only [read_seq_eq_ok, read_map_eq_ok, left_seq, left_map, left_required_same,
    read_required_same_eq_ok, get?_erase, read_text_eq_ok, exists_eq_right, String.reduceEq,
    reduceIte]
  refine and_congr_right fun _ => ⟨?_, ?_⟩
  · rintro ⟨f₂, extras, ⟨f₁, keyframes, ⟨f₀, property, ⟨target, htarget, h₀⟩, hproperty, h₁⟩,
      hkeyframes, h₂⟩, hextras, h₃⟩
    subst h₀ h₁ h₂ h₃
    cases hextras
    exact ⟨htarget, hproperty, hkeyframes, rfl⟩
  · rintro ⟨htarget, hproperty, hkeyframes, hextras⟩
    exact ⟨mk t.target t.property t.keyframes, t.extras, ⟨mk t.target t.property, t.keyframes,
      ⟨mk t.target, t.property, ⟨t.target, htarget, rfl⟩, hproperty, rfl⟩, hkeyframes, rfl⟩,
      by rw [hextras]; rfl, rfl⟩

theorem EffectUse.read_eq_ok {ms : Members R} {e : EffectUse R} : codec.read (.obj ms) = .ok e ↔
    (∀ m ∈ ms, Text.hasHalf m.1 = false) ∧ get? "target" ms = some (.str e.target) ∧
      get? "effect" ms = some (.str e.effect) ∧
      ((Fields.defaulted "start" quantity (.number (.int 0)) start).read ms).1 = .ok e.start ∧
      ((Fields.optional "duration" quantity duration).read ms).1 = .ok e.duration ∧
      e.extras = erase "duration" (erase "start" (erase "effect" (erase "target" ms))) := by
  have hstart : get? "start" (erase "effect" (erase "target" ms)) = get? "start" ms := by
    simp [get?_erase]
  have hduration : get? "duration" (erase "start" (erase "effect" (erase "target" ms))) =
      get? "duration" ms := by
    simp [get?_erase]
  rw [codec, fields, read_record_obj_eq_ok]
  simp only [read_seq_eq_ok, read_map_eq_ok, left_seq, left_map, left_required_same,
    left_defaulted_same, left_optional_same, read_required_same_eq_ok, get?_erase, read_text_eq_ok,
    exists_eq_right, String.reduceEq, reduceIte, read_defaulted_congr hstart,
    read_optional_congr hduration]
  refine and_congr_right fun _ => ⟨?_, ?_⟩
  · rintro ⟨f₃, extras, ⟨f₂, duration, ⟨f₁, start, ⟨f₀, effect, ⟨target, htarget, h₀⟩, heffect,
      h₁⟩, hstart, h₂⟩, hduration, h₃⟩, hextras, h₄⟩
    subst h₀ h₁ h₂ h₃ h₄
    cases hextras
    exact ⟨htarget, heffect, hstart, hduration, rfl⟩
  · rintro ⟨htarget, heffect, hstart, hduration, hextras⟩
    exact ⟨mk e.target e.effect e.start e.duration, e.extras, ⟨mk e.target e.effect e.start,
      e.duration, ⟨mk e.target e.effect, e.start, ⟨mk e.target, e.effect, ⟨e.target, htarget, rfl⟩,
      heffect, rfl⟩, hstart, rfl⟩, hduration, rfl⟩, by rw [hextras]; rfl, rfl⟩

theorem Track.mem_of_mem_extras {ms : Members R} {t : Track R}
    (h : codec.read (.obj ms) = .ok t) : ∀ m ∈ t.extras, m ∈ ms := by
  obtain ⟨-, -, -, -, hextras⟩ := read_eq_ok.mp h
  rw [hextras]
  intro m hm
  exact (ne_of_mem_erase (ne_of_mem_erase (ne_of_mem_erase hm).2).2).2

/-- What is written for a track, name by name. -/
theorem Track.get?_written {t : Track R} {name : String} : get? name (fields.write t) =
    if "target" = name then some (.str t.target)
    else if "property" = name then some (.str t.property)
    else if "keyframes" = name then some ((Codec.list Keyframe.codec).write t.keyframes)
    else get? name (filled t.extras) := by
  change get? name (_ :: _ :: _ :: filled t.extras) = _
  simp only [get?_cons]
  rfl

theorem EffectUse.mem_of_mem_extras {ms : Members R} {e : EffectUse R}
    (h : codec.read (.obj ms) = .ok e) : ∀ m ∈ e.extras, m ∈ ms := by
  obtain ⟨-, -, -, -, -, hextras⟩ := read_eq_ok.mp h
  rw [hextras]
  intro m hm
  exact (ne_of_mem_erase (ne_of_mem_erase (ne_of_mem_erase (ne_of_mem_erase hm).2).2).2).2

theorem EffectUse.get?_written_of_ne {e : EffectUse R} {name : String}
    (h : name ∉ ["target", "effect", "start", "duration"]) :
    get? name (fields.write e) = get? name (filled e.extras) := by
  simp only [List.mem_cons, List.not_mem_nil, or_false, not_or] at h
  obtain ⟨htarget, heffect, hstart, hduration⟩ := h
  change get? name (("target", _) :: ("effect", _) :: ("start", _) ::
    ((Fields.optional "duration" quantity duration).write e ++ filled e.extras)) = _
  rw [get?_cons, if_neg (Ne.symm htarget), get?_cons, if_neg (Ne.symm heffect), get?_cons,
    if_neg (Ne.symm hstart), get?_append]
  simp only [Fields.optional]
  cases e.duration with
  | none => rfl
  | some q =>
    change ((get? name [("duration", quantity.write q)]).or _) = _
    rw [get?_cons, if_neg (Ne.symm hduration)]
    rfl

theorem EffectUse.not_null_of_mem {e : EffectUse R} :
    ∀ m ∈ fields.write e, m.2.isNull = false := by
  have hduration : ∀ m ∈ (Fields.optional "duration" quantity duration).write e,
      m.2.isNull = false := by
    simp only [Fields.optional]
    cases e.duration with
    | none => simp
    | some q => cases q <;> simp [quantity, Json.ofQuantity, Json.isNull]
  have hstart : (Json.ofQuantity e.start).isNull = false := by
    cases e.start <;> rfl
  change ∀ m ∈ _ :: _ :: _ :: ((Fields.optional "duration" quantity duration).write e ++
    filled e.extras), m.2.isNull = false
  refine List.forall_mem_cons.mpr ⟨rfl, List.forall_mem_cons.mpr ⟨rfl, List.forall_mem_cons.mpr
    ⟨hstart, List.forall_mem_append.mpr ⟨hduration, fun m hm => ?_⟩⟩⟩⟩
  simpa using (List.mem_filter.mp hm).2

namespace Entry

theorem two_le_keyframeWeight {j : Json R} {k : Keyframe R} (h : Keyframe.codec.read j = .ok k) :
    2 ≤ keyframeWeight j := by
  cases j with
  | obj ms =>
    rw [Keyframe.codec, Keyframe.fields, read_record_obj_eq_ok] at h
    simp only [read_seq_eq_ok, read_map_eq_ok, left_map, left_required_same,
      read_required_same_eq_ok, get?_erase, String.reduceEq, reduceIte] at h
    obtain ⟨-, f₂, extras, ⟨f₁, easing, ⟨f₀, value, ⟨start, ⟨j, hstart, -⟩, -⟩, ⟨j', hvalue, -⟩, -⟩,
      -⟩, -⟩ := h
    simp only [keyframeWeight, given, List.filter_cons, has, hstart, hvalue, Option.isSome_some,
      if_pos, List.length_cons]
    omega
  | _ => cases h

/-- What is read as a track weighs more than any use of an effect, unless it has no keyframes. -/
theorem trackWeight_of_read {ms : Members R} {t : Track R}
    (h : Track.codec.read (.obj ms) = .ok t) :
    if t.keyframes = [] then trackWeight ms = 3 else 5 ≤ trackWeight ms := by
  obtain ⟨-, htarget, hproperty, ⟨j, hj, hkeyframes⟩, -⟩ := Track.read_eq_ok.mp h
  have hgiven : given ["target", "property", "keyframes"] ms = 3 := by
    simp [given, has, htarget, hproperty, hj]
  cases j with
  | arr items =>
    simp only [trackWeight, hgiven, hj]
    cases items with
    | nil =>
      rw [← Except.ok.inj hkeyframes, if_pos rfl]
      rfl
    | cons item rest =>
      obtain ⟨k, others, hk, -, heq⟩ := Checked.both_eq_ok.mp hkeyframes
      have hweight := two_le_keyframeWeight (Checked.under_eq_ok.mp hk)
      rw [← heq, if_neg (List.cons_ne_nil k others), List.foldr_cons]
      omega
  | _ => cases hkeyframes

theorem effectWeight_le (ms : Members R) : effectWeight ms ≤ 4 := List.length_filter_le _ _

theorem has_of_lt_effectWeight {ms : Members R} (h : 3 < effectWeight ms) :
    ∀ name ∈ ["target", "effect", "start", "duration"], has name ms = true := by
  refine List.length_filter_eq_length_iff.mp (Nat.le_antisymm (List.length_filter_le _ _) ?_)
  exact h

variable {room : Nat} {ms : Members R}

theorem read_obj_eq_track {t : Track R} (hroom : room ≠ 0) :
    read room (.obj ms) = .ok (track t) ↔ Track.codec.read (.obj ms) = .ok t ∧
      ∀ e, EffectUse.codec.read (.obj ms) = .ok e → effectWeight ms ≤ trackWeight ms := by
  simp only [read, Codec.within, beq_iff_eq, if_neg hroom]
  cases Track.codec.read (.obj ms) with
  | error issues => cases EffectUse.codec.read (.obj ms) <;> simp
  | ok t' =>
    cases EffectUse.codec.read (.obj ms) with
    | error issues => simp
    | ok e =>
      by_cases hless : trackWeight ms < effectWeight ms
      · simp [hless]
      · simp [hless, Nat.le_of_not_lt hless]

theorem read_obj_eq_effect {e : EffectUse R} (hroom : room ≠ 0) :
    read room (.obj ms) = .ok (effect e) ↔ EffectUse.codec.read (.obj ms) = .ok e ∧
      ∀ t, Track.codec.read (.obj ms) = .ok t → trackWeight ms < effectWeight ms := by
  simp only [read, Codec.within, beq_iff_eq, if_neg hroom]
  cases Track.codec.read (.obj ms) with
  | error issues => cases EffectUse.codec.read (.obj ms) <;> simp
  | ok t =>
    cases EffectUse.codec.read (.obj ms) with
    | error issues => simp
    | ok e' =>
      by_cases hless : trackWeight ms < effectWeight ms
      · simp [hless]
      · simp [hless]

/-- Animations are read from objects where there is room for them. -/
theorem exists_obj_of_read {j : Json R} {entry : Entry R} (h : read room j = .ok entry) :
    room ≠ 0 ∧ ∃ ms, j = .obj ms := by
  by_cases hroom : room = 0
  · subst hroom
    cases h
  · refine ⟨hroom, ?_⟩
    cases j with
    | obj ms => exact ⟨ms, rfl⟩
    | _ =>
      simp only [read, Codec.within, beq_iff_eq, if_neg hroom] at h
      cases h

theorem given_congr {names : List String} {others : Members R}
    (h : ∀ name ∈ names, get? name ms = get? name others) :
    given names ms = given names others := by
  have hhas : ∀ name ∈ names, has name ms = has name others := fun name hname =>
    congrArg Option.isSome (h name hname)
  rw [given, given, List.filter_congr hhas]

/-- What is written for a track gives nothing for the use of an effect that was not there when the
track was read. -/
theorem effect_of_written {t : Track R} (hproper : (Json.obj ms).Proper)
    (h : Track.codec.read (.obj ms) = .ok t) {e : EffectUse R}
    (he : EffectUse.codec.read (.obj (Track.fields.write t)) = .ok e)
    (hall : ∀ name ∈ ["target", "effect", "start", "duration"],
      has name (Track.fields.write t) = true) :
    (∃ e', EffectUse.codec.read (.obj ms) = .ok e') ∧ effectWeight ms = 4 := by
  obtain ⟨hhalf, htarget, -, -, -⟩ := Track.read_eq_ok.mp h
  have hequal : ∀ name ∈ ["target", "effect", "start", "duration"],
      get? name ms = get? name (Track.fields.write t) := by
    have hextra (name : String) (hother : name ∉ ["target", "property", "keyframes"])
        (hgiven : has name (Track.fields.write t) = true) :
        get? name ms = get? name (Track.fields.write t) := by
      simp only [List.mem_cons, List.not_mem_nil, or_false, not_or] at hother
      obtain ⟨j, hj⟩ := Option.isSome_iff_exists.mp hgiven
      rw [hj]
      rw [Track.get?_written, if_neg (Ne.symm hother.1), if_neg (Ne.symm hother.2.1),
        if_neg (Ne.symm hother.2.2)] at hj
      exact get?_of_filled hproper (Track.mem_of_mem_extras h) hj
    simp only [List.forall_mem_cons] at hall ⊢
    obtain ⟨-, heffect, hstart, hduration, -⟩ := hall
    exact ⟨htarget, hextra _ (by decide) heffect, hextra _ (by decide) hstart,
      hextra _ (by decide) hduration, List.forall_mem_nil _⟩
  have hweight : effectWeight ms = 4 := by
    rw [effectWeight, given_congr hequal, given, List.filter_eq_self.mpr hall]
    rfl
  simp only [List.forall_mem_cons] at hequal
  obtain ⟨-, heffect, hstart, hduration, -⟩ := hequal
  obtain ⟨-, -, heffect', hstart', hduration', -⟩ := EffectUse.read_eq_ok.mp he
  exact ⟨⟨⟨t.target, e.effect, e.start, e.duration, _⟩, EffectUse.read_eq_ok.mpr
    ⟨hhalf, htarget, heffect.trans heffect', (read_defaulted_congr hstart).trans hstart',
      (read_optional_congr hduration).trans hduration', rfl⟩⟩, hweight⟩

/-- A track is read back as a track: what could make it the use of an effect has been there when it
was read. -/
theorem settles_track {t : Track R} (hproper : (Json.obj ms).Proper) (hroom : room ≠ 0)
    (h : read room (.obj ms) = .ok (track t)) : (codec room).Settles (track t) := by
  obtain ⟨htrack, hweight⟩ := (read_obj_eq_track hroom).mp h
  obtain ⟨t', ⟨-, hback⟩, hsame⟩ := Track.settles _ hproper t htrack
  have hread := reread_eq_some.mp hback
  refine ⟨track t', ⟨nofun, reread_eq_some.mpr
    ((read_obj_eq_track hroom).mpr ⟨hread, fun e he => ?_⟩)⟩, hsame⟩
  by_contra hless
  have hmost := effectWeight_le (Track.fields.write t)
  have hwritten := trackWeight_of_read hread
  have hfew : t'.keyframes = [] := by
    by_contra hsome
    rw [if_neg hsome] at hwritten
    exact hless (hmost.trans (by omega))
  rw [if_pos hfew] at hwritten
  have hnone : t.keyframes = [] := by
    obtain ⟨-, -, -, ⟨j, hj, hkeyframes⟩, -⟩ := Track.read_eq_ok.mp hread
    rw [Track.get?_written, if_neg (by decide), if_neg (by decide), if_pos rfl] at hj
    cases hj
    rw [hfew] at hkeyframes
    cases hlist : t.keyframes with
    | nil => rfl
    | cons k rest =>
      rw [hlist] at hkeyframes
      obtain ⟨k', others, -, -, hcons⟩ := Checked.both_eq_ok.mp hkeyframes
      cases hcons
  obtain ⟨⟨e', he'⟩, hfour⟩ := effect_of_written hproper htrack he
    (has_of_lt_effectWeight (by rw [← hwritten]; exact Nat.lt_of_not_le hless))
  have hthree := trackWeight_of_read htrack
  rw [if_pos hnone] at hthree
  have hfits := hweight e' he'
  omega

/-- What is written for the use of an effect gives nothing for a track that was not there when the
use was read. -/
theorem track_of_written {e : EffectUse R} (hproper : (Json.obj ms).Proper)
    (h : EffectUse.codec.read (.obj ms) = .ok e) {t : Track R}
    (ht : Track.codec.read (.obj (EffectUse.fields.write e)) = .ok t) :
    ∃ t', Track.codec.read (.obj ms) = .ok t' ∧ t'.keyframes = t.keyframes := by
  obtain ⟨hhalf, htarget, -, -, -, -⟩ := EffectUse.read_eq_ok.mp h
  obtain ⟨-, -, hproperty, ⟨j, hj, hkeyframes⟩, -⟩ := Track.read_eq_ok.mp ht
  have hsub := EffectUse.mem_of_mem_extras h
  rw [EffectUse.get?_written_of_ne (by decide)] at hproperty hj
  exact ⟨⟨e.target, t.property, t.keyframes, _⟩, Track.read_eq_ok.mpr ⟨hhalf, htarget,
    get?_of_filled hproper hsub hproperty, ⟨j, get?_of_filled hproper hsub hj, hkeyframes⟩, rfl⟩,
    rfl⟩

/-- A track without keyframes that is read from what was written for the use of an effect is written
in the same way. -/
theorem same_of_track {e : EffectUse R} {t : Track R}
    (h : Track.codec.read (.obj (EffectUse.fields.write e)) = .ok t) (hnone : t.keyframes = []) :
    Json.Same (Track.codec.write t) (EffectUse.codec.write e) := by
  obtain ⟨-, htarget, hproperty, ⟨j, hj, hkeyframes⟩, hextras⟩ := Track.read_eq_ok.mp h
  have hj' : j = .arr [] := by
    cases j with
    | arr items =>
      cases items with
      | nil => rfl
      | cons item rest =>
        obtain ⟨k, others, -, -, hcons⟩ := Checked.both_eq_ok.mp hkeyframes
        rw [hnone] at hcons
        cases hcons
    | _ => cases hkeyframes
  have hfilled : filled t.extras = t.extras := List.filter_eq_self.mpr fun m hm => by
    simp [EffectUse.not_null_of_mem m (Track.mem_of_mem_extras h m hm)]
  have hequal (name : String) :
      get? name (Track.fields.write t) = get? name (EffectUse.fields.write e) := by
    rw [Track.get?_written, hfilled, hextras]
    split
    · rename_i heq
      rw [← heq, htarget]
    split
    · rename_i heq
      rw [← heq, hproperty]
    split
    · rename_i heq
      rw [← heq, hj, hj', hnone]
      rfl
    · rename_i htarget' hproperty' hkeyframes'
      rw [get?_erase, if_neg hkeyframes', get?_erase, if_neg hproperty', get?_erase,
        if_neg htarget']
  exact .obj fun name => hequal name ▸ Members.Same.refl _ name

/-- The use of an effect is read back as one, or as a track without keyframes. -/
theorem settles_effect {e : EffectUse R} (hproper : (Json.obj ms).Proper) (hroom : room ≠ 0)
    (h : read room (.obj ms) = .ok (effect e)) : (codec room).Settles (effect e) := by
  obtain ⟨heffect, hweight⟩ := (read_obj_eq_effect hroom).mp h
  obtain ⟨e', ⟨-, hback⟩, hsame⟩ := EffectUse.settles _ hproper e heffect
  have hread := reread_eq_some.mp hback
  by_cases hstays : ∀ t, Track.codec.read (.obj (EffectUse.fields.write e)) = .ok t →
      trackWeight (EffectUse.fields.write e) < effectWeight (EffectUse.fields.write e)
  · exact ⟨effect e', ⟨nofun, reread_eq_some.mpr
      ((read_obj_eq_effect hroom).mpr ⟨hread, hstays⟩)⟩, hsame⟩
  · simp only [not_forall, Nat.not_lt] at hstays
    obtain ⟨t, ht, hless⟩ := hstays
    refine ⟨track t, ⟨nofun, reread_eq_some.mpr
      ((read_obj_eq_track hroom).mpr ⟨ht, fun _ _ => hless⟩)⟩, same_of_track ht ?_⟩
    -- with a keyframe it would have been a track when it was first read
    by_contra hsome
    obtain ⟨t', ht', hkeyframes⟩ := track_of_written hproper heffect ht
    have hmany := trackWeight_of_read ht'
    rw [hkeyframes, if_neg hsome] at hmany
    have hlighter := hweight t' ht'
    have hmost := effectWeight_le ms
    omega

theorem write_ne_null {room : Nat} (entry : Entry R) : (codec room).write entry ≠ .null := by
  cases entry <;> exact write_record_ne_null _

theorem settles (room : Nat) : (codec room : Codec R (Entry R)).Gives (codec room).Settles := by
  intro j hproper entry h
  obtain ⟨hroom, ms, rfl⟩ := exists_obj_of_read h
  cases entry with
  | track t => exact settles_track hproper hroom h
  | effect e => exact settles_effect hproper hroom h

end Entry

end Storyboard
