import Mathlib.Algebra.Order.Archimedean.Basic
import Storyboard.Proofs.Flattening.Timing
import Storyboard.Proofs.Ordering
import Storyboard.Proofs.Sampling
import Storyboard.Proofs.Starts

namespace Storyboard

/-- The frame of a keyframe that starts at a whole one. -/
def Keyframe.frame {R : Type} (k : Keyframe R) : Int :=
  match k.start with
  | .number (.int n) => n
  | _ => 0

namespace Track

section

variable {R : Type}

/-- Keyframes in the order of their moments, each put at the frame of its moment. -/
def byMoment (frame : Int → Int) (ks : List (Int × Keyframe R)) : List (Keyframe R) :=
  (Order.sort (Order.below Prod.fst) ks).map fun k => k.2.startingAt (frame k.1)

/-- The keyframes that fall on a frame, as they are given. -/
def fallingOn (frame : Int → Int) (n : Int) (ks : List (Int × Keyframe R)) : List (Keyframe R) :=
  (ks.filter fun k => frame k.1 = n).map fun k => k.2.startingAt n

theorem filter_frame (frame : Int → Int) (ks : List (Int × Keyframe R)) (n : Int) :
    (ks.map fun k => k.2.startingAt (frame k.1)).filter (·.frame = n) = fallingOn frame n ks := by
  induction ks with
  | nil => rfl
  | cons k ks ih =>
    by_cases hk : frame k.1 = n
    · subst hk
      simpa [fallingOn, Keyframe.frame, Keyframe.startingAt] using ih
    · simpa [fallingOn, Keyframe.frame, Keyframe.startingAt, hk] using ih

/-- The keyframes at one frame of a compiled track are those that fall on it, as they are
declared. -/
theorem filter_ordered {frame : Int → Int} (ks : List (Int × Keyframe R)) (n : Int) :
    (ordered (ks.map fun k => (frame k.1, k.2))).filter (·.frame = n) = fallingOn frame n ks := by
  have hsort := Order.filter_sort Prod.fst (ks.map fun k => (frame k.1, k.2)) n
  refine (filter_frame id (Order.sort (Order.below Prod.fst) _) n).trans ?_
  simp only [fallingOn, id_eq, hsort, List.filter_map, List.map_map]
  rfl

theorem ordered_ascending (ks : List (Int × Keyframe R)) :
    (ordered ks).Pairwise fun a b => a.frame ≤ b.frame :=
  List.pairwise_map.mpr (Order.sort_ascending _ ks)

/-- No moment of the keyframes falls on a frame behind that of a later one. -/
def Ascends (frame : Int → Int) (ks : List (Int × Keyframe R)) : Prop :=
  ∀ a ∈ ks, ∀ b ∈ ks, a.1 ≤ b.1 → frame a.1 ≤ frame b.1

theorem byMoment_ascending {frame : Int → Int} {ks : List (Int × Keyframe R)}
    (h : Ascends frame ks) : (byMoment frame ks).Pairwise fun a b => a.frame ≤ b.frame := by
  have hmem {k : Int × Keyframe R} := (Order.sort_perm (Order.below Prod.fst) ks).mem_iff (a := k)
  refine List.pairwise_map.mpr ((Order.sort_ascending Prod.fst ks).imp_of_mem ?_)
  exact fun ha hb hle => h _ (hmem.mp ha) _ (hmem.mp hb) hle

/-- Keyframes are compiled in the order of their moments exactly if on each frame they are declared
in that order, as far as they differ. -/
theorem ordered_eq_byMoment_iff {frame : Int → Int} {ks : List (Int × Keyframe R)}
    (hascends : Ascends frame ks) :
    ordered (ks.map fun k => (frame k.1, k.2)) = byMoment frame ks ↔
      ∀ n, fallingOn frame n ks = fallingOn frame n (Order.sort (Order.below Prod.fst) ks) := by
  have hsorted (n : Int) : (byMoment frame ks).filter (·.frame = n) =
      fallingOn frame n (Order.sort (Order.below Prod.fst) ks) := filter_frame frame _ n
  constructor
  · intro h n
    rw [← hsorted, ← h, filter_ordered]
  · intro h
    refine Order.eq_of_filter_eq Keyframe.frame (ordered_ascending _) (byMoment_ascending hascends)
      fun n => ?_
    rw [filter_ordered, hsorted, h]

/-- That no keyframe is declared behind a later one on the same frame. -/
def Forward (frame : Int → Int) (ks : List (Int × Keyframe R)) : Prop :=
  ks.Pairwise fun a b => b.1 < a.1 → frame a.1 ≠ frame b.1

theorem Forward.of_injective {frame : Int → Int} (h : Function.Injective frame)
    (ks : List (Int × Keyframe R)) : Forward frame ks := by
  refine List.pairwise_of_forall fun a b hlt he => ?_
  have := h he
  omega

theorem Forward.fallingOn_eq {frame : Int → Int} {ks : List (Int × Keyframe R)}
    (h : Forward frame ks) (n : Int) :
    fallingOn frame n ks = fallingOn frame n (Order.sort (Order.below Prod.fst) ks) := by
  refine congrArg (List.map _) (Order.eq_of_filter_eq Prod.fst ?_ ?_ fun m => ?_)
  · have hsame := h.filter (p := fun k => decide (frame k.1 = n))
    refine (List.Pairwise.and_mem.mp hsame).imp fun {a b} hab => ?_
    obtain ⟨ha, hb, hne⟩ := hab
    have ha : frame a.1 = n := by simpa using (List.mem_filter.mp ha).2
    have hb : frame b.1 = n := by simpa using (List.mem_filter.mp hb).2
    by_contra hlt
    exact hne (not_le.mp hlt) (ha.trans hb.symm)
  · exact (Order.sort_ascending _ ks).filter _
  · rw [List.filter_comm, ← Order.filter_sort Prod.fst ks m, List.filter_comm]

end

section

variable {R : Type} [Scalar R]

/-- Behind its last keyframe a track has reached all of them. -/
theorem countUpTo_eq_length {ks : List (Keyframe R)} {frame : Number R}
    (h : ∀ k ∈ ks, ∃ n : Int, k.start = .number (.int n) ∧ frame.lt (.int n) = false) :
    countUpTo ks frame = .ok ks.length := by
  have habove : ∀ k ∈ ks, (k.start.isAbove frame).map (!·) = .ok true := by
    intro k hk
    obtain ⟨n, hn, hnot⟩ := h k hk
    simp [hn, Quantity.isAbove, Quantity.toNumber, Except.map, hnot]
  obtain ⟨after, hafter, -, hcount, -, hright⟩ := bisect_spec (fun k hk => ⟨true, habove k hk⟩)
    (ks.length + 1) 0 ks.length (Nat.zero_le _) (le_refl _) (by omega)
  have hall : after = ks.length := by
    by_contra hne
    obtain ⟨k, hk, hno⟩ := hright (by omega)
    rw [habove k (List.mem_of_getElem? hk)] at hno
    cases hno
  rw [countUpTo, hafter, hall]

variable [Trig R]

/-- Behind its last keyframe a track holds the value of that keyframe. -/
theorem sample_behind {settings : Settings R} {ks : List (Keyframe R)} {last : Keyframe R}
    {m : Int} (hlast : ks.getLast? = some last) (hm : last.start = .number (.int m))
    (hstarts : ∀ k ∈ ks, ∃ n : Int, k.start = .number (.int n) ∧ n ≤ m) {frame : Number R}
    (hframe : (Number.int m).le frame = true) :
    sample settings ks frame = .ok (some last.value) := by
  obtain ⟨hordered, hreached⟩ := Number.int_le_iff.mp hframe
  have hafter : countUpTo ks frame = .ok ks.length := countUpTo_eq_length fun k hk => by
    obtain ⟨n, hn, hle⟩ := hstarts k hk
    exact ⟨n, hn, Number.not_lt_trans hordered (Number.isOrdered_int m) (Number.isOrdered_int n)
      hreached (Number.int_not_lt hle)⟩
  have hnumbers : ∀ k ∈ ks, ∃ n : Number R, k.start = .number n := by
    intro k hk
    obtain ⟨n, hn, -⟩ := hstarts k hk
    exact ⟨.int n, hn⟩
  obtain ⟨next, hnext, hlater⟩ := countBefore_ok hnumbers frame
  cases ks with
  | nil => cases hlast
  | cons first rest =>
    have hprevious : (first :: rest)[(first :: rest).length - 1]? = some last := by
      rw [← hlast, List.getLast?_eq_getElem?]
    have hpos : ((first :: rest).length == 0) = false := rfl
    simp only [sample, hafter, Outcome.ok_bind, hprevious, Option.getD_some, hnext]
    rw [hpos, if_neg Bool.false_ne_true]
    split
    · rfl
    · rename_i hat
      -- A keyframe that is not before the frame would be at it, and so would the last one.
      have hnone : (first :: rest)[next]? = none := by
        rw [Option.eq_none_iff_forall_ne_some]
        intro k hk
        obtain ⟨x, hx, hge⟩ := hlater k hk
        obtain ⟨n, hn, hle⟩ := hstarts k (List.mem_of_getElem? hk)
        obtain rfl : Number.int n = x := by simpa [hn] using hx
        have hpassed : (Number.int m).lt frame = false := Number.not_lt_trans
          (Number.isOrdered_int m) (Number.isOrdered_int n) hordered (Number.int_not_lt hle) hge
        refine hat ?_
        rw [hm]
        exact (Number.eq_iff_not_lt (Number.isOrdered_int m) hordered).mpr ⟨hpassed, hreached⟩
      rw [hnone]
      rfl

/-- Behind its last frame a track in the order of moments holds the value of the last keyframe. -/
theorem sample_byMoment {settings : Settings R} {frame : Int → Int}
    {ks front : List (Int × Keyframe R)} (hascends : Ascends frame ks) {k : Int × Keyframe R}
    (h : Order.sort (Order.below Prod.fst) ks = front ++ [k]) {now : Number R}
    (hnow : (Number.int (frame k.1)).le now = true) :
    sample settings (byMoment frame ks) now = .ok (some k.2.value) := by
  have hmem {k : Int × Keyframe R} := (Order.sort_perm (Order.below Prod.fst) ks).mem_iff (a := k)
  have hk : k ∈ ks := hmem.mp (h ▸ List.mem_append_right _ List.mem_cons_self)
  have hlast : (byMoment frame ks).getLast? = some (k.2.startingAt (frame k.1)) := by
    simp [byMoment, h]
  refine sample_behind hlast rfl (fun y hy => ?_) hnow
  obtain ⟨z, hz, rfl⟩ := List.mem_map.mp hy
  have hz := hmem.mp hz
  exact ⟨frame z.1, rfl, hascends z hz k hk ((Order.latest_of_sort h).le z hz)⟩

end

/-- How a track is compiled from keyframes with their moments, each of which falls on a frame. That
the order is the one of the moments, where no two of them change places on a frame, needs frames that
ascend with the moments. -/
structure Arranged {R : Type} [Scalar R] (frame : Int → Int) (ks : List (Int × Keyframe R))
    (compiled : List (Keyframe R)) : Prop where
  ascending : compiled.Pairwise fun a b => a.frame ≤ b.frame
  asDeclared : ∀ n, compiled.filter (·.frame = n) = fallingOn frame n ks
  held : ks ≠ [] → ∃ k, Order.Latest (fun k => frame k.1) ks k ∧
    ∀ [Trig R] (settings : Settings R) (now : Number R), (Number.int (frame k.1)).le now = true →
      sample settings compiled now = .ok (some k.2.value)
  byMoment_iff : Ascends frame ks → (compiled = byMoment frame ks ↔
    ∀ n, fallingOn frame n ks = fallingOn frame n (Order.sort (Order.below Prod.fst) ks))
  ofForward : Ascends frame ks → Forward frame ks → compiled = byMoment frame ks ∧
    (ks ≠ [] → ∃ k, Order.Latest Prod.fst ks k ∧
      ∀ [Trig R] (settings : Settings R) (now : Number R),
        (Number.int (frame k.1)).le now = true →
          sample settings compiled now = .ok (some k.2.value))

theorem arranged_ordered {R : Type} [Scalar R] (frame : Int → Int)
    (ks : List (Int × Keyframe R)) :
    Arranged frame ks (ordered (ks.map fun k => (frame k.1, k.2))) where
  ascending := ordered_ascending _
  asDeclared := filter_ordered ks
  held hne := by
    obtain ⟨front, k, hk⟩ := Order.exists_sort_eq_concat Prod.fst
      (List.map_eq_nil_iff.not.mpr hne)
    obtain ⟨x, rfl, hx⟩ := (Order.latest_of_sort hk).of_map
    have hascends : Ascends id (ks.map fun k => (frame k.1, k.2)) := fun _ _ _ _ hle => hle
    exact ⟨x, hx, fun settings now hnow => sample_byMoment hascends hk hnow⟩
  byMoment_iff := ordered_eq_byMoment_iff
  ofForward hascends hforward := by
    have he := (ordered_eq_byMoment_iff hascends).mpr hforward.fallingOn_eq
    refine ⟨he, fun hne => ?_⟩
    obtain ⟨front, k, hk⟩ := Order.exists_sort_eq_concat Prod.fst hne
    refine ⟨k, Order.latest_of_sort hk, fun settings now hnow => ?_⟩
    rw [he]
    exact sample_byMoment hascends hk hnow

/-- There is one way to arrange keyframes. -/
theorem Arranged.eq_ordered {R : Type} [Scalar R] {frame : Int → Int} {ks : List (Int × Keyframe R)}
    {compiled : List (Keyframe R)} (h : Arranged frame ks compiled) :
    compiled = ordered (ks.map fun k => (frame k.1, k.2)) :=
  Order.eq_of_filter_eq Keyframe.frame h.ascending (ordered_ascending _) fun n => by
    rw [h.asDeclared, filter_ordered]

end Track

namespace TimeScope

variable {s : TimeScope Rat}

theorem frameAt_mono (h : 0 < s.speed.value) (m n : Int) (hmn : m ≤ n) :
    s.frameAt m ≤ s.frameAt n := by
  have hdiv : (m : Rat) / s.speed.value ≤ n / s.speed.value :=
    div_le_div_of_nonneg_right (Int.cast_le.mpr hmn) h.le
  exact Int.add_le_add_left (Int.floor_mono (by linarith)) _

theorem ascends_frameAt (h : 0 < s.speed.value) (ks : List (Int × Keyframe Rat)) :
    Track.Ascends s.frameAt ks := fun _ _ _ _ hle => frameAt_mono h _ _ hle

/-- A group that is no faster than its document keeps its moments apart. -/
theorem frameAt_injective (h : 0 < s.speed.value) (hslow : s.speed.value ≤ 1) :
    Function.Injective s.frameAt := by
  refine StrictMono.injective (strictMono_int_of_lt_succ fun m => ?_)
  have hstep : (m : Rat) / s.speed.value + 1 / 2 + 1 ≤
      ((m + 1 : Int) : Rat) / s.speed.value + 1 / 2 := by
    have hone : 1 ≤ 1 / s.speed.value := one_le_one_div h hslow
    rw [Int.cast_add, Int.cast_one, add_div]
    linarith
  have hfloor := Int.floor_mono hstep
  rw [Int.floor_add_one] at hfloor
  simp only [frameAt]
  omega

/-- A group that is faster than its document has two moments that fall on one frame. -/
theorem exists_merged (hfast : 1 < s.speed.value) :
    ∃ m : Int, 0 ≤ m ∧ s.frameAt (m + 1) = s.frameAt m := by
  by_contra hnone
  push Not at hnone
  have hpos : 0 < s.speed.value := one_pos.trans hfast
  -- Otherwise the frames would run on at least as fast as the moments do.
  have hrun (n : Nat) : s.start + n ≤ s.frameAt n := by
    induction n with
    | zero =>
      have hhalf : ⌊(1 / 2 : Rat)⌋ = 0 := by decide +kernel
      simp only [frameAt, Int.cast_zero, Nat.cast_zero, zero_div, zero_add, hhalf, le_refl]
    | succ n ih =>
      have hle : s.frameAt n ≤ s.frameAt (n + 1) := frameAt_mono hpos _ _ (by omega)
      have hne := hnone n (Int.natCast_nonneg n)
      push_cast
      omega
  have hbound (n : Nat) : (n : Rat) * (1 - 1 / s.speed.value) ≤ 1 / 2 := by
    have hfloor : (n : Int) ≤ ⌊(n : Rat) / s.speed.value + 1 / 2⌋ := by
      have := hrun n
      simp only [frameAt, Int.cast_natCast] at this
      omega
    have hle : (n : Rat) ≤ n / s.speed.value + 1 / 2 := by
      simpa using Int.le_floor.mp hfloor
    rw [mul_sub, mul_one_div]
    linarith
  have hgap : 0 < 1 - 1 / s.speed.value := by
    have := (one_div_lt_one_div hpos one_pos).mpr hfast
    linarith
  obtain ⟨n, hn⟩ := exists_nat_gt (1 / (1 - 1 / s.speed.value))
  have := (div_lt_iff₀ hgap).mp hn
  linarith [hbound n]

/-- Keyframes stand in the order of their moments, however they are declared, exactly in the groups
that are no faster than their document. -/
theorem ordered_eq_byMoment_iff_slow (h : 0 < s.speed.value) :
    (∀ ks : List (Int × Keyframe Rat), (∀ k ∈ ks, 0 ≤ k.1) →
      Track.ordered (ks.map fun k => (s.frameAt k.1, k.2)) = Track.byMoment s.frameAt ks) ↔
      s.speed.value ≤ 1 := by
  constructor
  · intro hall
    by_contra hfast
    obtain ⟨m, hm, hmerged⟩ := exists_merged (not_le.mp hfast)
    have := hall [(m + 1, ⟨.text "", .number (.int 1), none, []⟩),
      (m, ⟨.text "", .number (.int 0), none, []⟩)] (by simp; omega)
    simp [Track.ordered, Track.byMoment, Order.sort, Order.insert, Order.below, hmerged,
      Keyframe.startingAt] at this
  · intro hslow ks _
    exact ((Track.arranged_ordered s.frameAt ks).ofForward (ascends_frameAt h ks)
      (.of_injective (frameAt_injective h hslow) ks)).1

end TimeScope

namespace Flattening

section

variable {R : Type} [Scalar R] {d : Disk} {library : EffectLibrary R} {fps : Number R}

/-- The keyframes of a track with their moments. -/
def Dated (fps : Number R) (ks : List (Keyframe R)) (dated : List (Int × Keyframe R)) : Prop :=
  List.Forall₂ (fun k p => Time.frame fps k.start = .ok p.1 ∧ p.2 = k) ks dated

theorem placed_dated {frames : FrameMap R} {ks out : List (Keyframe R)}
    (h : Track.placed (entryFrame fps frames) ks = .ok out) :
    ∃ (dated : List (Int × Keyframe R)) (frame : Int → Int), Dated fps ks dated ∧
      (∀ k ∈ dated, frames.apply k.1 = .ok (frame k.1)) ∧
      out = Track.ordered (dated.map fun k => (frame k.1, k.2)) := by
  obtain ⟨placed, hplaced, rfl⟩ := Outcome.map_eq_ok.mp h
  have hall := Outcome.mapM_eq_ok.mp hplaced
  -- A moment falls on one frame, whichever keyframe starts at it.
  let frame (moment : Int) : Int := (frames.apply moment).toOption.getD 0
  suffices ∃ dated, Dated fps ks dated ∧ (∀ k ∈ dated, frames.apply k.1 = .ok (frame k.1)) ∧
      placed = dated.map fun k => (frame k.1, k.2) by
    obtain ⟨dated, hdated, hframes, rfl⟩ := this
    exact ⟨dated, frame, hdated, hframes, rfl⟩
  clear h hplaced
  induction hall with
  | nil => exact ⟨[], .nil, fun k hk => absurd hk List.not_mem_nil, rfl⟩
  | cons hfirst hrest ih =>
    obtain ⟨dated, hdated, hframes, rfl⟩ := ih
    obtain ⟨n, hn, rfl⟩ := Outcome.map_eq_ok.mp hfirst
    obtain ⟨moment, hmoment, hn⟩ := Outcome.bind_eq_ok.mp hn
    have hframe : frame moment = n := by simp [frame, hn, Except.toOption]
    refine ⟨(moment, _) :: dated, .cons ⟨hmoment, rfl⟩ hdated,
      List.forall_mem_cons.mpr ⟨hn.trans (congrArg _ hframe.symm), hframes⟩, ?_⟩
    rw [List.map_cons, hframe]

/-- The tracks of a source, if it is a property animation. One that is declared in a group or in the
document runs at the speed of that group, and one of a definition file in absolute frames. -/
def Source.Arranges (fps : Number R) (speed : Option (Number R)) (src : Source R)
    (out : List (Track R)) : Prop :=
  match src.cause with
  | .entry (.track t) => ∃ start product t' ks frame, StartsAt fps src.way start ∧
      RunsAt speed src.way product ∧ out = [t'] ∧ t'.property = t.property ∧
      Dated fps t.keyframes ks ∧ (∀ k ∈ ks, FallsOn start product k.1 (frame k.1)) ∧
      Track.Arranged frame ks t'.keyframes
  | .resolved (.track t) => ∃ t' ks, out = [t'] ∧ t'.property = t.property ∧
      Dated fps t.keyframes ks ∧ Track.Arranged id ks t'.keyframes ∧
      t'.keyframes = Track.byMoment id ks
  | _ => True

theorem arranged_resolved {ks out : List (Keyframe R)}
    (h : Track.placed (entryFrame fps .absolute) ks = .ok out) :
    ∃ dated, Dated fps ks dated ∧ Track.Arranged id dated out ∧ out = Track.byMoment id dated := by
  obtain ⟨dated, frame, hdated, hframes, rfl⟩ := placed_dated h
  have hsame : (dated.map fun k => (frame k.1, k.2)) = dated.map fun k => (id k.1, k.2) :=
    List.map_congr_left fun k hk => by rw [Except.ok.inj (hframes k hk).symm]; rfl
  rw [hsame]
  have harranged := Track.arranged_ordered id dated
  exact ⟨dated, hdated, harranged, (harranged.ofForward (fun _ _ _ _ h => h)
    (.of_injective Function.injective_id dated)).1⟩

theorem Source.Emits.arranges {speed : Option (Number R)} {objects : List (Object R)}
    {src : Source R} {out : List (Track R)}
    (h : src.Emits d library fps (TimeScope.root speed) objects out) :
    src.Arranges fps speed out := by
  obtain ⟨own, level, hown, -, h⟩ := h
  rcases src with ⟨position, way, (t | u) | (t | u) | t | t⟩
  · obtain ⟨target, -, keyframes, hplaced, rfl⟩ := h
    obtain ⟨ks, frame, hdated, hframes, rfl⟩ := placed_dated hplaced
    obtain ⟨hstart, hspeed⟩ := along_root hown
    exact ⟨own.start, own.speed, _, ks, frame, hstart, hspeed, rfl, rfl, hdated,
      fun k hk => toAbsolute_eq_ok (hframes k hk), Track.arranged_ordered frame ks⟩
  · exact trivial
  · obtain ⟨target, -, keyframes, hplaced, rfl⟩ := h
    obtain ⟨ks, hdated, harranged, hmoments⟩ := arranged_resolved hplaced
    exact ⟨_, ks, rfl, rfl, hdated, harranged, hmoments⟩
  · exact trivial
  · exact trivial
  · exact trivial

end

/-- The tracks of a source in exact arithmetic, if it is a property animation: moments fall on frames
that ascend with them, and a group that is no faster than its document keeps them apart. -/
def Source.ArrangesExactly (fps : Number Rat) (speed : Option (Number Rat)) (src : Source Rat)
    (out : List (Track Rat)) : Prop :=
  match src.cause with
  | .entry (.track t) => ∃ start product t' ks, StartsAt fps src.way start ∧
      RunsAt speed src.way product ∧ out = [t'] ∧ t'.property = t.property ∧
      Dated fps t.keyframes ks ∧
      (0 < product.value →
        Track.Ascends (TimeScope.frameAt ⟨start, product⟩) ks ∧
        Track.Arranged (TimeScope.frameAt ⟨start, product⟩) ks t'.keyframes ∧
        (product.value ≤ 1 →
          t'.keyframes = Track.byMoment (TimeScope.frameAt ⟨start, product⟩) ks))
  | .resolved (.track t) => ∃ t' ks, out = [t'] ∧ t'.property = t.property ∧
      Dated fps t.keyframes ks ∧ Track.Arranged id ks t'.keyframes ∧
      t'.keyframes = Track.byMoment id ks
  | _ => True

theorem FallsOn.eq_frameAt {start moment frame : Int} {product : Number Rat}
    (h : FallsOn start product moment frame) : frame = TimeScope.frameAt ⟨start, product⟩ moment := by
  obtain ⟨slowed, rounded, hslowed, hrounded, rfl⟩ := h
  have happly : (FrameMap.scaled ⟨start, product⟩).apply moment = .ok (start + rounded) := by
    rw [FrameMap.apply, TimeScope.toAbsolute, hslowed, Outcome.ok_bind, hrounded]
    rfl
  exact FrameMap.apply_eq_ok happly

theorem Source.Arranges.exactly {fps : Number Rat} {speed : Option (Number Rat)} {src : Source Rat}
    {out : List (Track Rat)} (h : src.Arranges fps speed out) : src.ArrangesExactly fps speed out := by
  rcases src with ⟨position, way, (t | u) | (t | u) | t | t⟩
  · obtain ⟨start, product, t', ks, frame, hstart, hspeed, hout, hproperty, hdated, hfalls,
      harranged⟩ := h
    refine ⟨start, product, t', ks, hstart, hspeed, hout, hproperty, hdated, fun hpos => ?_⟩
    have hsame : (ks.map fun k => (frame k.1, k.2)) =
        ks.map fun k => (TimeScope.frameAt ⟨start, product⟩ k.1, k.2) :=
      List.map_congr_left fun k hk => by rw [(hfalls k hk).eq_frameAt]
    rw [harranged.eq_ordered, hsame]
    have harranged := Track.arranged_ordered (TimeScope.frameAt ⟨start, product⟩) ks
    have hascends := TimeScope.ascends_frameAt (s := ⟨start, product⟩) hpos ks
    exact ⟨hascends, harranged, fun hslow => (harranged.ofForward hascends
      (.of_injective (TimeScope.frameAt_injective hpos hslow) ks)).1⟩
  · exact trivial
  · exact h
  · exact trivial
  · exact trivial
  · exact trivial

/-- Property animations are compiled in the order of the absolute frames of their keyframes, and on
one frame as they are declared. Where frames ascend with moments this is the order of the moments
unless a group that is faster than its document puts a moment on one frame with a later one that is
declared in front of it. In exact arithmetic frames do ascend, at every positive speed, and all orders
of declaration come to the same exactly in the groups that are no faster than their document. -/
theorem flatten_arranges {R : Type} [Scalar R] {d : Disk} {fps : Number R}
    {objects compiled : List (Object R)} {entries : List (Entry R)} {speed : Option (Number R)}
    {tracks : List (Track R)} {library library' : EffectLibrary R}
    (h : (flatten d fps objects entries speed).Yields library (compiled, tracks) library') :
    (∃ outs, tracks = outs.flatten ∧
      List.Forall₂ (Source.Arranges fps speed) (sourcesOfAll objects entries) outs) ∧
    (∀ (fps : Number Rat) (speed : Option (Number Rat)) (src : Source Rat) (out : List (Track Rat)),
      src.Arranges fps speed out → src.ArrangesExactly fps speed out) ∧
    ∀ s : TimeScope Rat, 0 < s.speed.value →
      ((∀ ks : List (Int × Keyframe Rat), (∀ k ∈ ks, 0 ≤ k.1) →
        Track.ordered (ks.map fun k => (s.frameAt k.1, k.2)) = Track.byMoment s.frameAt ks) ↔
        s.speed.value ≤ 1) := by
  refine ⟨?_, fun _ _ _ _ harranges => harranges.exactly,
    fun s hpos => TimeScope.ordered_eq_byMoment_iff_slow hpos⟩
  obtain ⟨-, -, outs, rfl, hall⟩ := flatten_yields h
  exact ⟨outs, rfl, hall.imp fun _ _ hemits => hemits.arranges⟩

/-- Two keyframes with their moments, the later one in front. -/
def swapped : List (Int × Keyframe Rat) :=
  [(32, ⟨.number (.int 32), .number (.int 1), none, []⟩),
    (31, ⟨.number (.int 31), .number (.int 2), none, []⟩)]

/-- A rectangle in a group of double speed that moves it. -/
def hurried : Object Rat :=
  .group (.ofId (some "g"))
    [.shape (.ofId (some "r")) (.rect ⟨some (.int 10), some (.int 10), none, none, none⟩) []]
    { GroupInfo.empty with
      speed := some 2
      animations := [.track ⟨"r", "x", swapped.map Prod.snd, []⟩] } []

theorem flatten_arranges_hurried :
    ∃ compiled tracks library', (flatten Disk.empty (.real 30) [hurried] [] none).Yields ⟨[], []⟩
        (compiled, tracks) library' ∧
      ∃ outs, tracks = outs.flatten ∧
        List.Forall₂ (Source.Arranges (.real 30) none) (sourcesOfAll [hurried] []) outs ∧
        List.Forall₂ (Source.ArrangesExactly (.real 30) none) (sourcesOfAll [hurried] []) outs := by
  have hok : ((flatten Disk.empty (.real 30) [hurried] [] none).exec ⟨[], []⟩).1.toOption.any
      (fun _ => true) = true := by
    decide +kernel
  obtain ⟨⟨compiled, tracks⟩, library', hrun, -⟩ := Run.yields_of_test _ hok
  obtain ⟨⟨outs, htracks, hall⟩, hexactly, -⟩ := flatten_arranges hrun
  exact ⟨compiled, tracks, library', hrun, outs, htracks, hall, hall.imp (hexactly _ _)⟩

/-- Both moments fall on frame 16, and from there on the track holds the value of the earlier
one. -/
theorem hurried_holds_earlier :
    ∃ compiled t library', (flatten Disk.empty (.real 30) [hurried] [] none).Yields ⟨[], []⟩
        (compiled, [t]) library' ∧
      StartsAt (.real 30) [hurried] 0 ∧ RunsAt none [hurried] (.real 2) ∧
      Dated (.real 30) (swapped.map Prod.snd) swapped ∧
      t.keyframes ≠ Track.byMoment (TimeScope.frameAt ⟨0, .real 2⟩) swapped ∧
      (∃ k, Order.Latest Prod.fst swapped k ∧ k.2.value = .number (.int 1)) ∧
      ∀ [Trig Rat] (settings : Settings Rat) (now : Number Rat), 16 ≤ now.value →
        Track.sample settings t.keyframes now = .ok (some (.number (.int 2))) := by
  have hok : ((flatten Disk.empty (.real 30) [hurried] [] none).exec ⟨[], []⟩).1.toOption.any
      (fun result => decide (result.2.map (fun t => t.keyframes.map fun k => (k.start, k.value)) =
        [[(.number (.int 16), .number (.int 1)), (.number (.int 16), .number (.int 2))]])) =
        true := by
    decide +kernel
  obtain ⟨⟨compiled, tracks⟩, library', hrun, htest⟩ := Run.yields_of_test _ hok
  obtain ⟨t, rest, rfl, hkeyframes, hrest⟩ := List.map_eq_cons_iff.mp (of_decide_eq_true htest)
  obtain rfl := List.map_eq_nil_iff.mp hrest
  obtain ⟨first, others, hks, hfirst, hothers⟩ := List.map_eq_cons_iff.mp hkeyframes
  obtain ⟨last, nothing, rfl, hlast, hnothing⟩ := List.map_eq_cons_iff.mp hothers
  obtain rfl := List.map_eq_nil_iff.mp hnothing
  obtain ⟨hfirst, -⟩ := Prod.mk.inj hfirst
  obtain ⟨hstart, hvalue⟩ := Prod.mk.inj hlast
  have hdated : Dated (.real 30) (swapped.map Prod.snd) swapped :=
    .cons ⟨Time.frame_int (by decide), rfl⟩ (.cons ⟨Time.frame_int (by decide), rfl⟩ .nil)
  refine ⟨compiled, t, library', hrun, ⟨[0], .cons rfl .nil, rfl⟩, ?_, hdated, ?_,
    ⟨_, ⟨[], _, rfl, by decide, by decide⟩, rfl⟩, ?_⟩
  · have hproduct : Number.mul (R := Rat) (.real (Scalar.const 1 0)) (.real 2) = .ok (.real 2) := by
      decide +kernel
    simp [RunsAt, TimeScope.speedAlong, hurried, Object.groupInfo, hproduct]
  · intro he
    have hvalues : t.keyframes.map Keyframe.value = [.number (.int 2), .number (.int 1)] := by
      rw [he]
      decide +kernel
    rw [hks] at hvalues
    simp [hvalue] at hvalues
  · intro _ settings now hnow
    have hlast : t.keyframes.getLast? = some last := by rw [hks]; rfl
    rw [← hvalue]
    have hnow : (Number.int 16).le now = true := by
      refine Number.int_le_iff.mpr ⟨by simp [Number.isOrdered, Number.eq_eq], ?_⟩
      rw [Number.lt_eq]
      exact decide_eq_false (not_lt.mpr hnow)
    refine Track.sample_behind (m := 16) hlast hstart (fun k hk => ?_) hnow
    rw [hks] at hk
    rcases List.mem_cons.mp hk with rfl | hk
    · exact ⟨16, hfirst, le_refl _⟩
    · obtain rfl := List.mem_singleton.mp hk
      exact ⟨16, hstart, le_refl _⟩

end Flattening

end Storyboard
