import Storyboard.Proofs.Ranges
import Storyboard.Track.Sampling

namespace Storyboard

open Outcome

/-- Circular functions that are constant. -/
abbrev unturned : Trig Rat := ⟨0, fun _ => 0, fun _ => 1, fun _ => 1⟩

namespace Track

/-- Bisection comes to a place with an element behind it on the left, unless it is the lowest, and
one that is not behind it on the right, unless it is the highest. -/
theorem bisect_spec {R : Type} {behind : Keyframe R → Outcome Bool} {ks : List (Keyframe R)}
    (hbehind : ∀ k ∈ ks, Returns (behind k)) (fuel low high : Nat) (hlow : low ≤ high)
    (hhigh : high ≤ ks.length) (hfuel : high - low < fuel) :
    ∃ n, bisect behind ks fuel low high = .ok n ∧ low ≤ n ∧ n ≤ high ∧
      (low < n → ∃ k, ks[n - 1]? = some k ∧ behind k = .ok true) ∧
      (n < high → ∃ k, ks[n]? = some k ∧ behind k = .ok false) := by
  induction fuel generalizing low high with
  | zero => omega
  | succ fuel ih =>
    rw [bisect]
    split
    · rename_i hlt
      have hmiddle : (low + high) / 2 < ks.length := by omega
      obtain ⟨b, hb⟩ := hbehind _ (List.getElem_mem hmiddle)
      have hget : ks[(low + high) / 2]? = some ks[(low + high) / 2] :=
        List.getElem?_eq_getElem hmiddle
      simp only [hget, hb, ok_bind]
      cases b with
      | true =>
        obtain ⟨n, hn, hl, hr, hleft, hright⟩ :=
          ih ((low + high) / 2 + 1) high (by omega) hhigh (by omega)
        refine ⟨n, hn, by omega, hr, fun _ => ?_, hright⟩
        by_cases hfirst : (low + high) / 2 + 1 < n
        · exact hleft hfirst
        · have hlast : n - 1 = (low + high) / 2 := by omega
          exact ⟨_, by rw [hlast]; exact hget, hb⟩
      | false =>
        obtain ⟨n, hn, hl, hr, hleft, hright⟩ :=
          ih low ((low + high) / 2) (by omega) (by omega) (by omega)
        refine ⟨n, hn, hl, by omega, hleft, fun _ => ?_⟩
        by_cases hlast : n < (low + high) / 2
        · exact hright hlast
        · have hsame : n = (low + high) / 2 := by omega
          exact ⟨_, by rw [hsame]; exact hget, hb⟩
    · exact ⟨low, rfl, le_refl low, hlow, fun h => absurd h (lt_irrefl low), fun h => by omega⟩

section

variable {R : Type} [Scalar R]

theorem countUpTo_ok {ks : List (Keyframe R)} (hstarts : ∀ k ∈ ks, ∃ n, k.start = .number n)
    (frame : Number R) :
    ∃ count, countUpTo ks frame = .ok count ∧ (0 < count → ∃ k n, ks[count - 1]? = some k ∧
      k.start = .number n ∧ frame.lt n = false) := by
  have hreturns : ∀ k ∈ ks, Returns ((k.start.isAbove frame).map (!·)) := by
    intro k hk
    obtain ⟨n, hn⟩ := hstarts k hk
    rw [hn]
    exact ⟨_, rfl⟩
  obtain ⟨count, hcount, -, -, hleft, -⟩ := bisect_spec hreturns (ks.length + 1) 0 ks.length
    (Nat.zero_le _) (le_refl _) (by omega)
  refine ⟨count, hcount, fun hpos => ?_⟩
  obtain ⟨k, hk, hreached⟩ := hleft hpos
  obtain ⟨n, hn⟩ := hstarts k (List.mem_of_getElem? hk)
  rw [hn] at hreached
  exact ⟨k, n, hk, hn, by
    simpa [Quantity.isAbove, Quantity.toNumber, Except.map] using hreached⟩

theorem countBefore_ok {ks : List (Keyframe R)} (hstarts : ∀ k ∈ ks, ∃ n, k.start = .number n)
    (frame : Number R) :
    ∃ count, countBefore ks frame = .ok count ∧ ∀ k, ks[count]? = some k →
      ∃ n, k.start = .number n ∧ n.lt frame = false := by
  have hreturns : ∀ k ∈ ks, Returns (k.start.isBelow frame) := by
    intro k hk
    obtain ⟨n, hn⟩ := hstarts k hk
    rw [hn]
    exact ⟨_, rfl⟩
  obtain ⟨count, hcount, -, -, -, hright⟩ := bisect_spec hreturns (ks.length + 1) 0 ks.length
    (Nat.zero_le _) (le_refl _) (by omega)
  refine ⟨count, hcount, fun k hk => ?_⟩
  obtain ⟨_, hsame, hpassed⟩ := hright (List.getElem?_eq_some_iff.mp hk).1
  obtain rfl := Option.some.inj (hsame.symm.trans hk)
  obtain ⟨n, hn⟩ := hstarts _ (List.mem_of_getElem? hk)
  rw [hn] at hpassed
  exact ⟨n, hn, by
    simpa [Quantity.isBelow, Quantity.toNumber, Except.map] using hpassed⟩

variable [Trig R] {settings : Settings R} {ks : List (Keyframe R)}

/-- Between a keyframe at a frame and one at a later frame there is a value at each frame, unless it
is out of range. -/
theorem sampled_between {a b : Keyframe R} {m n : Int} (ha : a.start = .number (.int m))
    (hb : b.start = .number (.int n)) (hne : m ≠ n) (here there : Number R) (frame : Int) :
    Only (Fault.Sampled settings) (between settings a b here there (.int frame)) := by
  have hlift (onInts : Int → Int → Int) (onReals : R → R → R) (p q : Number R) :
      Only (Fault.Sampled settings) (Number.lift onInts onReals p q) :=
    (Number.ranged_lift onInts onReals p q).mono fun _ => .inl
  rw [between, ha, hb]
  refine Only.bind (.ok _) fun start hstart => ?_
  obtain rfl := Except.ok.inj hstart
  refine Only.bind (.ok _) fun done hdone => ?_
  obtain rfl := Except.ok.inj hdone
  refine Only.bind (.ok _) fun stop hstop => ?_
  obtain rfl := Except.ok.inj hstop
  refine Only.bind (.ok _) fun whole hwhole => ?_
  obtain rfl := Except.ok.inj hwhole
  have hdivides : Outcome.Ranged R ((Number.int (frame - m) : Number R).div (.int (n - m))) :=
    Number.ranged_div_int (by omega)
  refine (hdivides.mono fun _ => .inl).bind fun progress _ => ?_
  refine ((Easing.ranged_ofOption b.easing).mono fun _ => .inl).bind fun easing _ => ?_
  refine (Easing.sampled_apply settings easing progress).bind fun eased _ => ?_
  refine (hlift _ _ there here).bind fun distance _ => ?_
  exact (hlift _ _ distance eased).bind fun gained _ => hlift _ _ here gained

/-- A number, or the value of a keyframe. -/
def Held (k : Keyframe R) (q : Quantity R) : Prop := (∃ n, q = .number n) ∨ q = k.value

theorem held_of_sample {frame : Number R} {q : Quantity R}
    (h : sample settings ks frame = .ok (some q)) : ∃ k ∈ ks, Held k q := by
  cases ks with
  | nil => cases h
  | cons first rest =>
    have hprevious (n : Nat) : ((first :: rest)[n]?).getD first ∈ first :: rest := by
      cases hget : (first :: rest)[n]? with
      | none => exact List.mem_cons_self
      | some k => exact List.mem_of_getElem? hget
    have hown {k : Keyframe R} (hk : k ∈ first :: rest)
        (hq : (pure (some k.value) : Outcome (Option (Quantity R))) = .ok (some q)) :
        ∃ k ∈ first :: rest, Held k q := by
      cases hq
      exact ⟨k, hk, .inr rfl⟩
    obtain ⟨after, -, h⟩ := bind_eq_ok.mp h
    split at h
    · exact hown List.mem_cons_self h
    · dsimp only at h
      split at h
      · exact hown (hprevious _) h
      · obtain ⟨before, -, h⟩ := bind_eq_ok.mp h
        split at h
        · exact hown (hprevious _) h
        · split at h
          · obtain ⟨value, -, h⟩ := bind_eq_ok.mp h
            cases h
            exact ⟨_, hprevious (after - 1), .inl ⟨value, rfl⟩⟩
          · exact hown (hprevious _) h

/-- The way from one keyframe to another one at a frame between them is refused. -/
structure Breaks (settings : Settings R) (a b : Keyframe R) (frame : Int) (f : Fault) : Prop where
  starts : ∃ m n : Int, a.start = .number (.int m) ∧ b.start = .number (.int n) ∧ m < frame ∧
    frame ≤ n
  refused : ∃ here there, a.value = .number here ∧ b.value = .number there ∧
    between settings a b here there (.int frame) = .error f

theorem Breaks.sampled {a b : Keyframe R} {frame : Int} {f : Fault}
    (h : Breaks settings a b frame f) : f.Sampled settings := by
  obtain ⟨⟨m, n, ha, hb, hlt, hle⟩, here, there, -, -, hbetween⟩ := h
  exact sampled_between ha hb (by omega) here there frame f hbetween

omit [Trig R] in
/-- A frame that the one of two keyframes at whole frames is before, and that the other is not. -/
theorem starts_around {a b : Keyframe R} {frame : Int} {start stop : Number R}
    (ha : ∃ n : Int, a.start = .number (.int n)) (hb : ∃ n : Int, b.start = .number (.int n))
    (hstart : a.start = .number start) (hreached : (Number.int frame).lt start = false)
    (hat : ¬ a.start.isAt (.int frame) = true) (hstop : b.start = .number stop)
    (hpassed : stop.lt (.int frame) = false) :
    ∃ m n : Int, a.start = .number (.int m) ∧ b.start = .number (.int n) ∧ m < frame ∧
      frame ≤ n := by
  obtain ⟨m, hm⟩ := ha
  obtain ⟨n, hn⟩ := hb
  obtain rfl : Number.int m = start := by simpa [hm] using hstart
  obtain rfl : Number.int n = stop := by simpa [hn] using hstop
  have hle : m ≤ frame := by simpa [Number.lt, Number.exact, Exact.lt] using hreached
  have hge : frame ≤ n := by simpa [Number.lt, Number.exact, Exact.lt] using hpassed
  have hne : m ≠ frame := by
    simpa [hm, Quantity.isAt, Number.eq, Number.exact, Exact.eq] using hat
  exact ⟨m, n, hm, hn, by omega, hge⟩

/-- Keyframes at whole frames can be sampled, as far as there is a way from one to the next. -/
theorem only_sample (hstarts : ∀ k ∈ ks, ∃ n : Int, k.start = .number (.int n)) (frame : Int) :
    Only (fun f => ∃ a ∈ ks, ∃ b ∈ ks, Breaks settings a b frame f)
      (sample settings ks (.int frame)) := by
  have hnumbers : ∀ k ∈ ks, ∃ n : Number R, k.start = .number n := fun k hk =>
    (hstarts k hk).imp' Number.int fun _ => id
  cases ks with
  | nil => exact .ok _
  | cons first rest =>
    obtain ⟨after, hafter, hleft⟩ := countUpTo_ok hnumbers (.int frame)
    obtain ⟨next, hnext, hright⟩ := countBefore_ok hnumbers (.int frame)
    simp only [sample, hafter, hnext, ok_bind]
    split
    · exact .pure _
    · rename_i hzero
      obtain ⟨previous, start, hprevious, hstart, hreached⟩ :=
        hleft (by simpa [Nat.pos_iff_ne_zero] using hzero)
      have hmem := List.mem_of_getElem? hprevious
      rw [hprevious, Option.getD_some]
      split
      · exact .pure _
      · rename_i hat
        split
        · exact .pure _
        · rename_i later hlater
          split
          · rename_i here there hhere hthere
            have hmore := List.mem_of_getElem? hlater
            obtain ⟨stop, hstop, hpassed⟩ := hright later hlater
            -- The frame lies behind the one keyframe and not behind the other.
            have haround := starts_around (hstarts previous hmem) (hstarts later hmore) hstart
              hreached hat hstop hpassed
            refine Only.bind (fun f hf => ?_) fun _ _ => .pure _
            exact ⟨previous, hmem, later, hmore, haround, here, there, hhere, hthere, hf⟩
          · exact .pure _

end

end Track

namespace Members

variable {α : Type}

theorem mem_insert {name : String} {v : α} {ms : List (String × α)} {m : String × α}
    (h : m ∈ insert name v ms) : m = (name, v) ∨ m ∈ ms := by
  induction ms with
  | nil => exact .inl (List.mem_singleton.mp h)
  | cons first rest ih =>
    obtain ⟨n, w⟩ := first
    rw [insert] at h
    split at h
    · rename_i hn
      rcases List.mem_cons.mp h with rfl | hrest
      · exact .inl (by rw [eq_of_beq hn])
      · exact .inr (List.mem_cons_of_mem _ hrest)
    · rcases List.mem_cons.mp h with rfl | hrest
      · exact .inr List.mem_cons_self
      · exact (ih hrest).imp_right (List.mem_cons_of_mem _)

theorem mem_of_get? {name : String} {v : α} {ms : List (String × α)}
    (h : get? name ms = some v) : (name, v) ∈ ms := by
  induction ms with
  | nil => cases h
  | cons first rest ih =>
    obtain ⟨n, w⟩ := first
    rw [get?] at h
    split at h
    · rename_i hn
      cases h
      rw [eq_of_beq hn]
      exact List.mem_cons_self
    · exact List.mem_cons_of_mem _ (ih h)

end Members

namespace Sampler

variable {R : Type}

/-- A keyframe of a track with a target and a property. -/
def Declared (tracks : List (Track R)) (target property : String) (k : Keyframe R) : Prop :=
  ∃ t ∈ tracks, t.target = target ∧ t.property = property ∧ k ∈ t.keyframes

/-- Keyframes by target and property, all of them from tracks. -/
def From (tracks : List (Track R))
    (merged : List (String × List (String × List (Keyframe R)))) : Prop :=
  ∀ p ∈ merged, ∀ q ∈ p.2, ∀ k ∈ q.2, Declared tracks p.1 q.1 k

theorem Declared.mono {tracks more : List (Track R)} {target property : String}
    {k : Keyframe R} (h : Declared tracks target property k) (hmore : tracks ⊆ more) :
    Declared more target property k := by
  obtain ⟨t, ht, hfound⟩ := h
  exact ⟨t, hmore ht, hfound⟩

theorem From.addTrack {done : List (Track R)}
    {acc : List (String × List (String × List (Keyframe R)))} (h : From done acc)
    (t : Track R) : From (done ++ [t]) (addTrack acc t) := by
  have hold : done ⊆ done ++ [t] := List.subset_append_left _ _
  intro p hp q hq k hk
  rcases Members.mem_insert hp with rfl | hp
  · have hown : ∀ q ∈ (Members.get? t.target acc).getD [], ∀ k ∈ q.2,
        Declared done t.target q.1 k := by
      intro q hq k hk
      cases hget : Members.get? t.target acc with
      | none => simp [hget] at hq
      | some own =>
        rw [hget] at hq
        exact h _ (Members.mem_of_get? hget) q hq k hk
    rcases Members.mem_insert hq with rfl | hq
    · rcases List.mem_append.mp hk with hk | hk
      · cases hget : Members.get? t.property ((Members.get? t.target acc).getD []) with
        | none => simp [hget] at hk
        | some keyframes =>
          rw [hget] at hk
          exact (hown _ (Members.mem_of_get? hget) k hk).mono hold
      · exact ⟨t, List.mem_append_right _ (List.mem_singleton_self t), rfl, rfl, hk⟩
    · exact (hown q hq k hk).mono hold
  · exact (h p hp q hq k hk).mono hold

theorem merged_from (tracks : List (Track R)) : From tracks (merged tracks) := by
  have hfold (todo done : List (Track R))
      (acc : List (String × List (String × List (Keyframe R)))) (h : From done acc) :
      From (done ++ todo) (todo.foldl Sampler.addTrack acc) := by
    induction todo generalizing done acc with
    | nil => simpa using h
    | cons t rest ih => simpa using ih _ _ (h.addTrack t)
  exact hfold tracks [] [] fun p hp => by simp at hp

section

variable [Scalar R]

theorem sortKeyframes_of_ordered {ks : List (Keyframe R)}
    (hstarts : ∀ k ∈ ks, ∃ n, k.start = .number n ∧ n.isOrdered = true) :
    Track.sortKeyframes ks = .ok (Order.sort Keyframe.startsBefore ks) := by
  have hnumbers : ks.all Keyframe.startsAtNumber = true := by
    refine List.all_eq_true.mpr fun k hk => ?_
    obtain ⟨n, hn, -⟩ := hstarts k hk
    rw [Keyframe.startsAtNumber, hn]
  have hordered : ks.all Keyframe.isOrdered = true := by
    refine List.all_eq_true.mpr fun k hk => ?_
    obtain ⟨n, hn, hcompares⟩ := hstarts k hk
    simpa [Keyframe.isOrdered, hn] using hcompares
  rw [Track.sortKeyframes, hnumbers, Bool.true_or, if_pos rfl, Order.arrange_of_all hordered]

/-- The keyframes of every target and property in the order of their starts. -/
def arranged (tracks : List (Track R)) : Sampler R :=
  ⟨(merged tracks).map fun p =>
    (p.1, p.2.map fun q => (q.1, Order.sort Keyframe.startsBefore q.2))⟩

/-- Tracks whose keyframes start at numbers that can be compared can be sampled. -/
theorem ofTracks_of_ordered {tracks : List (Track R)}
    (hstarts : ∀ t ∈ tracks, ∀ k ∈ t.keyframes, ∃ n, k.start = .number n ∧ n.isOrdered = true) :
    ofTracks tracks = .ok (arranged tracks) := by
  have hfrom := merged_from tracks
  have hsort : ∀ p ∈ merged tracks, p.2.mapM (fun q => do
      let keyframes ← Track.sortKeyframes q.2
      return (q.1, keyframes)) =
        .ok (p.2.map fun q => (q.1, Order.sort Keyframe.startsBefore q.2)) := by
    intro p hp
    refine mapM_eq_ok.mpr (List.forall₂_map_right_iff.mpr (List.forall₂_same.mpr fun q hq => ?_))
    rw [sortKeyframes_of_ordered fun k hk => ?_]
    · rfl
    · obtain ⟨t, ht, -, -, hkt⟩ := hfrom p hp q hq k hk
      exact hstarts t ht k hkt
  refine bind_eq_ok.mpr ⟨_, mapM_eq_ok.mpr ?_, rfl⟩
  refine List.forall₂_map_right_iff.mpr (List.forall₂_same.mpr fun p hp => ?_)
  rw [hsort p hp]
  rfl

end

theorem From.arranged (tracks : List (Track R)) [Scalar R] : From tracks (arranged tracks).tracks := by
  intro p' hp' q' hq' k hk
  obtain ⟨p, hp, rfl⟩ := List.mem_map.mp hp'
  obtain ⟨q, hq, rfl⟩ := List.mem_map.mp hq'
  exact merged_from tracks p hp q hq k ((Order.sort_perm _ _).mem_iff.mp hk)

theorem From.tracksFor {tracks : List (Track R)} {s : Sampler R} (h : From tracks s.tracks)
    (target : String) :
    ∀ p ∈ s.tracksFor target, ∀ k ∈ p.2, Declared tracks target p.1 k := by
  intro p hp k hk
  rw [Sampler.tracksFor] at hp
  cases hget : Members.get? target s.tracks with
  | none => simp [hget] at hp
  | some own =>
    rw [hget] at hp
    exact h _ (Members.mem_of_get? hget) p hp k hk

section

variable [Scalar R] [Trig R] {settings : Settings R} {tracks : List (Track R)} {s : Sampler R}

/-- The values of a target at a frame come from keyframes of its tracks. -/
theorem held_of_sampleTarget (hfrom : From tracks s.tracks) {target : String} {frame : Number R}
    {values : List (String × Quantity R)}
    (h : s.sampleTarget settings target frame = .ok values) :
    ∀ v ∈ values, ∃ k, Declared tracks target v.1 k ∧ Track.Held k v.2 := by
  obtain ⟨samples, hsamples, h⟩ := bind_eq_ok.mp h
  obtain rfl := pure_eq_ok.mp h
  intro v hv
  obtain ⟨x, hx, rfl⟩ := List.mem_filterMap.mp hv
  obtain ⟨p, hp, hvalue⟩ := exists_related_of_mem (mapM_eq_ok.mp hsamples) hx
  obtain ⟨value, hsampled, hvalue⟩ := bind_eq_ok.mp hvalue
  obtain ⟨q, rfl, rfl⟩ := Option.map_eq_some_iff.mp (pure_eq_ok.mp hvalue)
  obtain ⟨k, hk, hheld⟩ := Track.held_of_sample hsampled
  exact ⟨k, hfrom.tracksFor target p hp k hk, hheld⟩

/-- Two keyframes that are declared for a property of a target between which there is no way at a
frame. -/
def Breaks (settings : Settings R) (tracks : List (Track R)) (target : String) (frame : Int)
    (f : Fault) : Prop :=
  ∃ property a b, Declared tracks target property a ∧ Declared tracks target property b ∧
    Track.Breaks settings a b frame f

theorem only_sampleTarget (hfrom : From tracks s.tracks)
    (hstarts : ∀ t ∈ tracks, ∀ k ∈ t.keyframes, ∃ n : Int, k.start = .number (.int n))
    (target : String) (frame : Int) :
    Only (Breaks settings tracks target frame) (s.sampleTarget settings target (.int frame)) := by
  refine Only.bind (.mapM fun p hp => ?_) fun _ _ => .pure _
  have hown := hfrom.tracksFor target p hp
  have hsample : Only (fun f => ∃ a ∈ p.2, ∃ b ∈ p.2, Track.Breaks settings a b frame f)
      (Track.sample settings p.2 (.int frame)) := by
    refine Track.only_sample (fun k hk => ?_) frame
    obtain ⟨t, ht, -, -, hkt⟩ := hown k hk
    exact hstarts t ht k hkt
  refine (hsample.mono fun f hf => ?_).bind fun _ _ => .pure _
  obtain ⟨a, ha, b, hb, hbreaks⟩ := hf
  exact ⟨p.1, a, b, hown a ha, hown b hb, hbreaks⟩

end

end Sampler

end Storyboard
