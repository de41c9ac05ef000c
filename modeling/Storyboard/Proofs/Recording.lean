import Mathlib.Data.List.Induction
import Storyboard.Proofs.Compilation
import Storyboard.Proofs.Ordering
import Storyboard.Proofs.Sampling
import Storyboard.Recording

namespace Storyboard

open Outcome

variable {R : Type} [Scalar R]

namespace Recording

variable {frame : Number R} {frames : List (Number R × List (DrawItem R))} {left : Recording R}

theorem items?_update (frame : Number R) (change : List (DrawItem R) → List (DrawItem R))
    (frames : List (Number R × List (DrawItem R))) (f : Number R) :
    items? f (update frame change frames) =
      if frame.eq f then some (change ((items? frame frames).getD [])) else items? f frames := by
  induction frames with
  | nil => rfl
  | cons entry rest ih =>
    obtain ⟨g, kept⟩ := entry
    cases hg : g.eq frame with
    | true =>
      rw [update, if_pos hg, items?, items?, items?, if_pos hg, Number.eq_congr_left hg f]
      cases frame.eq f <;> rfl
    | false =>
      have hupdate : update frame change ((g, kept) :: rest) =
          (g, kept) :: update frame change rest := by
        simp [update, hg]
      rw [hupdate, items?, ih]
      cases hf : frame.eq f with
      | true =>
        have hgf : g.eq f = false := (Number.eq_congr_right hf g).symm.trans hg
        simp [items?, hg, hgf]
      | false => simp [items?]

theorem update_update (h : frame.isOrdered = true)
    (change change' : List (DrawItem R) → List (DrawItem R))
    (frames : List (Number R × List (DrawItem R))) :
    update frame change (update frame change' frames) = update frame (change ∘ change') frames := by
  have hself : frame.eq frame = true := h
  induction frames with
  | nil => simp [update, hself]
  | cons entry rest ih =>
    obtain ⟨g, kept⟩ := entry
    cases hg : g.eq frame <;> simp [update, hg, ih]

theorem names_update (frame : Number R) (change : List (DrawItem R) → List (DrawItem R))
    (frames : List (Number R × List (DrawItem R))) :
    (update frame change frames).map Prod.fst =
      if (frames.map Prod.fst).any frame.eq then frames.map Prod.fst
      else frames.map Prod.fst ++ [frame] := by
  induction frames with
  | nil => rfl
  | cons entry rest ih =>
    obtain ⟨g, kept⟩ := entry
    rw [update, Number.eq_comm g frame]
    cases hg : frame.eq g with
    | true => simp [hg]
    | false =>
      simp only [Bool.false_eq_true, if_false, List.map_cons, ih, List.any_cons, hg, Bool.false_or]
      split <;> rfl

theorem draw_closed (h : left.current = none) (item : DrawItem R) :
    (draw item).exec left = (.error .drawOutsideFrame, left) := by
  rw [draw, Run.exec_get_bind, h]
  rfl

theorem draw_open (h : left.current = some frame) (item : DrawItem R) :
    (draw item).exec left =
      (.ok (), { left with frames := update frame (· ++ [item]) left.frames }) := by
  rw [draw, Run.exec_get_bind, h]
  rfl

/-- Items are drawn behind those that the open frame holds. -/
theorem drawAll_exec (h : frame.isOrdered = true) (front items : List (DrawItem R)) :
    (drawAll items).exec ⟨update frame (fun _ => front) frames, some frame⟩ =
      (.ok (), ⟨update frame (fun _ => front ++ items) frames, some frame⟩) := by
  induction items generalizing front with
  | nil =>
    rw [List.append_nil]
    rfl
  | cons item rest ih =>
    have hbehind : (fun _ : List (DrawItem R) => front ++ item :: rest) =
        fun _ => front ++ [item] ++ rest := by
      simp
    -- An item changes the entry that the items before it have changed.
    rw [drawAll, Run.exec_bind, draw_open rfl, hbehind, ← ih]
    simp only [update_update h, Function.comp_def]

theorem closeFrame_exec (h : frame.isOrdered = true) (items : List (DrawItem R)) :
    closeFrame.exec ⟨update frame (fun _ => items) frames, some frame⟩ =
      (.ok items, ⟨update frame (fun _ => items) frames, none⟩) := by
  have hself : frame.eq frame = true := h
  rw [closeFrame, Run.exec_get_bind, Option.bind_some, items?_update, hself]
  rfl

end Recording

namespace Renderer

open Recording

variable {calls : List (Number R)} {frame f g : Number R}

/-- The last call of a frame. -/
def lastCall (calls : List (Number R)) (frame : Number R) : Option (Number R) :=
  calls.reverse.find? (·.eq frame)

theorem lastCall_concat (calls : List (Number R)) (frame f : Number R) :
    lastCall (calls ++ [frame]) f = if frame.eq f then some frame else lastCall calls f := by
  rw [lastCall, List.reverse_append, List.reverse_singleton, List.singleton_append, List.find?_cons]
  cases frame.eq f <;> rfl

theorem lastCall_eq_some (h : lastCall calls f = some g) : g ∈ calls ∧ g.eq f = true :=
  ⟨List.mem_reverse.mp (List.mem_of_find?_eq_some h),
    List.find?_some (p := fun g : Number R => g.eq f) h⟩

theorem isSome_lastCall : (lastCall calls f).isSome = true ↔ ∃ g ∈ calls, g.eq f = true := by
  simp [lastCall, List.find?_isSome]

/-- The last of all calls is the last one of its frame. -/
theorem lastCall_of_getLast (h : ∀ f ∈ calls, f.isOrdered = true) (hlast : calls.getLast? = some g) :
    lastCall calls g = some g := by
  obtain ⟨before, rfl⟩ := List.getLast?_eq_some_iff.mp hlast
  have hself : g.eq g = true := h g (by simp)
  rw [lastCall_concat, if_pos hself]

/-- Among whole frames the last call of a frame is a call of this very frame. -/
theorem forall_lastCall_of_whole {P : Number R → Prop} (h : ∀ f ∈ calls, ∃ n : Int, f = .int n) :
    (∀ f g, lastCall calls f = some g → P g) ↔ ∀ f ∈ calls, P f := by
  constructor
  · intro hlast f hf
    obtain ⟨n, rfl⟩ := h f hf
    obtain ⟨g, hg⟩ := Option.isSome_iff_exists.mp
      (isSome_lastCall.mpr ⟨_, hf, Number.int_eq_int.mpr rfl⟩)
    obtain ⟨hmem, hsame⟩ := lastCall_eq_some hg
    obtain ⟨m, rfl⟩ := h g hmem
    obtain rfl := Number.int_eq_int.mp hsame
    exact hlast _ _ hg
  · intro hall f g hg
    exact hall g (lastCall_eq_some hg).1

variable [Trig R] {r : Renderer R} {left : Recording R}

/-- What a call leaves in the entry of its frame: what is drawn at it, or nothing. -/
def drawn (r : Renderer R) (frame : Number R) : List (DrawItem R) :=
  (r.sampleFrame frame).toOption.getD []

/-- The frame that a call leaves open. -/
def leftOpen (r : Renderer R) (frame : Number R) : Option (Number R) :=
  match r.sampleFrame frame with
  | .ok _ => none
  | .error _ => some frame

/-- The recording after frames were called one after another, whether or not calls were refused. -/
def renderEach (r : Renderer R) (calls : List (Number R)) : Recording R :=
  calls.foldl (fun left frame => ((r.renderFrame frame).exec left).2) Recording.empty

/-- The frames up to the first one at which rendering is refused, and this one. -/
def attempted (r : Renderer R) : List (Number R) → List (Number R)
  | [] => []
  | frame :: rest =>
    match r.sampleFrame frame with
    | .ok _ => frame :: r.attempted rest
    | .error _ => [frame]

/-- A call answers what is drawn at its frame. -/
theorem renderFrame_exec (h : frame.isOrdered = true) (left : Recording R) :
    (r.renderFrame frame).exec left =
      (r.sampleFrame frame, ⟨update frame (fun _ => r.drawn frame) left.frames, r.leftOpen frame⟩)
    := by
  rw [renderFrame, Run.exec_modify_bind, Run.exec_lift_bind, drawn, leftOpen]
  cases r.sampleFrame frame with
  | error fault => rfl
  | ok items =>
    simp only [Run.exec_bind, openFrame, drawAll_exec h, List.nil_append, closeFrame_exec h]
    rfl

theorem renderEach_concat (h : frame.isOrdered = true) : r.renderEach (calls ++ [frame]) =
    ⟨update frame (fun _ => r.drawn frame) (r.renderEach calls).frames, r.leftOpen frame⟩ := by
  rw [renderEach, List.foldl_append, List.foldl_cons, List.foldl_nil, renderFrame_exec h]
  rfl

theorem current_renderEach (h : ∀ f ∈ calls, f.isOrdered = true) :
    (r.renderEach calls).current = calls.getLast?.bind r.leftOpen := by
  cases calls using List.reverseRecOn with
  | nil => rfl
  | append_singleton calls frame =>
    rw [renderEach_concat (h frame (by simp)), List.getLast?_concat, Option.bind_some]

theorem items?_renderEach (h : ∀ f ∈ calls, f.isOrdered = true) (f : Number R) :
    items? f (r.renderEach calls).frames = (lastCall calls f).map r.drawn := by
  induction calls using List.reverseRecOn with
  | nil => rfl
  | append_singleton calls frame ih =>
    obtain ⟨hcalls, hframe⟩ := List.forall_mem_append.mp h
    rw [renderEach_concat (hframe frame (by simp)), items?_update, lastCall_concat, ih hcalls]
    split <;> rfl

theorem names_renderEach (h : ∀ f ∈ calls, f.isOrdered = true) :
    (r.renderEach calls).frames.map Prod.fst = distinct calls := by
  induction calls using List.reverseRecOn with
  | nil => rfl
  | append_singleton calls frame ih =>
    obtain ⟨hcalls, hframe⟩ := List.forall_mem_append.mp h
    rw [renderEach_concat (hframe frame (by simp)), names_update, ih hcalls, distinct, distinct,
      List.foldl_append]
    rfl

theorem sampleFrame_of_returns (h : Returns (r.sampleFrame g)) :
    r.sampleFrame g = .ok (r.drawn g) := by
  obtain ⟨items, hitems⟩ := h
  rw [drawn, hitems]
  rfl

theorem leftOpen_of_returns (h : Returns (r.sampleFrame g)) : r.leftOpen g = none := by
  rw [leftOpen, sampleFrame_of_returns h]

theorem refused_of_not_returns (h : ¬ Returns (r.sampleFrame g)) :
    r.drawn g = [] ∧ r.leftOpen g = some g := by
  rw [drawn, leftOpen]
  cases hsample : r.sampleFrame g with
  | error fault => exact ⟨rfl, rfl⟩
  | ok items => exact absurd ⟨items, hsample⟩ h

/-- What a recording holds after calls. There is an entry for every frame that was called, in the
order of the first calls, with what the last call of the frame has left in it. Behind a call that was
refused its frame is open, and otherwise no item can be drawn. -/
structure Records (r : Renderer R) (calls : List (Number R)) (left : Recording R) : Prop where
  answers : ∀ f, f.isOrdered = true → ((r.renderFrame f).exec left).1 = r.sampleFrame f
  names : left.frames.map Prod.fst = distinct calls
  entries : ∀ f, items? f left.frames = (lastCall calls f).map r.drawn
  closed : (∀ g, calls.getLast? = some g → Returns (r.sampleFrame g)) →
    ∀ item, (draw item).exec left = (.error .drawOutsideFrame, left)
  stray : ∀ g, calls.getLast? = some g → ¬ Returns (r.sampleFrame g) →
    ∀ item, ∃ next, (draw item).Yields left () next ∧
      ∀ f, items? f next.frames = if g.eq f then some [item] else items? f left.frames

/-- A recording in which no refused call is seen. The frames with entries are those of which a call
was answered, each entry holds all that is drawn at its frame, and no frame is open. -/
structure Consistent (r : Renderer R) (calls : List (Number R)) (left : Recording R) : Prop where
  recorded : ∀ f, (items? f left.frames).isSome = true ↔
    ∃ g ∈ calls, g.eq f = true ∧ Returns (r.sampleFrame g)
  complete : ∀ f items, items? f left.frames = some items →
    ∃ g, lastCall calls f = some g ∧ r.sampleFrame g = .ok items
  closed : ∀ item, (draw item).exec left = (.error .drawOutsideFrame, left)

theorem records_renderEach (r : Renderer R) (h : ∀ f ∈ calls, f.isOrdered = true) :
    Records r calls (r.renderEach calls) where
  answers f hf := by rw [renderFrame_exec hf]
  names := names_renderEach h
  entries := items?_renderEach h
  closed hlast item := by
    refine draw_closed ?_ item
    rw [current_renderEach h, Option.bind_eq_none_iff]
    exact fun g hg => leftOpen_of_returns (hlast g hg)
  stray g hlast hrefused item := by
    obtain ⟨hnothing, hopen⟩ := refused_of_not_returns hrefused
    have hcurrent : (r.renderEach calls).current = some g := by
      rw [current_renderEach h, hlast, Option.bind_some, hopen]
    refine ⟨_, draw_open hcurrent item, fun f => ?_⟩
    rw [items?_update, items?_renderEach h, lastCall_of_getLast h hlast, Option.map_some, hnothing]
    rfl

/-- A recording is consistent exactly if no last call of a frame is refused. -/
theorem Records.consistent_iff (hrecords : Records r calls left)
    (h : ∀ f ∈ calls, f.isOrdered = true) : Consistent r calls left ↔
      ∀ f g, lastCall calls f = some g → Returns (r.sampleFrame g) := by
  constructor
  · intro hconsistent f g hlast
    obtain ⟨g', hlast', hitems⟩ := hconsistent.complete f (r.drawn g) (by
      rw [hrecords.entries, hlast, Option.map_some])
    obtain rfl := Option.some.inj (hlast.symm.trans hlast')
    exact ⟨_, hitems⟩
  · intro hanswered
    refine ⟨fun f => ?_, fun f items hitems => ?_, hrecords.closed fun g hlast => ?_⟩
    · rw [hrecords.entries, Option.isSome_map, isSome_lastCall]
      constructor
      · intro hcalled
        obtain ⟨g, hlast⟩ := Option.isSome_iff_exists.mp (isSome_lastCall.mpr hcalled)
        obtain ⟨hg, hsame⟩ := lastCall_eq_some hlast
        exact ⟨g, hg, hsame, hanswered f g hlast⟩
      · intro hfound
        obtain ⟨g, hg, hsame, -⟩ := hfound
        exact ⟨g, hg, hsame⟩
    · rw [hrecords.entries] at hitems
      obtain ⟨g, hlast, rfl⟩ := Option.map_eq_some_iff.mp hitems
      exact ⟨g, hlast, sampleFrame_of_returns (hanswered f g hlast)⟩
    · exact hanswered g g (lastCall_of_getLast h hlast)

/-- Rendering frames together is calling them one after another up to the first that is refused. -/
theorem renderAll_exec (r : Renderer R) {frames : List (Number R)}
    (h : ∀ f ∈ frames, f.isOrdered = true) (calls : List (Number R)) :
    (r.renderAll frames).exec (r.renderEach calls) =
      (frames.mapM r.sampleFrame, r.renderEach (calls ++ r.attempted frames)) := by
  induction frames generalizing calls with
  | nil =>
    rw [attempted, List.append_nil]
    rfl
  | cons frame rest ih =>
    obtain ⟨hframe, hrest⟩ := List.forall_mem_cons.mp h
    rw [renderAll, Run.exec_bind, renderFrame_exec hframe, ← renderEach_concat hframe, attempted,
      List.mapM_cons]
    cases r.sampleFrame frame with
    | error fault => rfl
    | ok items =>
      simp only [Run.exec_bind, ih hrest, List.append_assoc, List.singleton_append]
      cases rest.mapM r.sampleFrame <;> rfl

/-- After any calls a recording holds what the last call of each frame has left, in an entry for
every frame that was called. So the entries are those of the frames that were rendered, each with
all that is drawn at its frame, and items cannot be drawn outside of a frame, exactly if the last
call of no frame was refused; for whole frames this means that no call was. -/
theorem renderEach_recorded (r : Renderer R) (h : ∀ f ∈ calls, f.isOrdered = true) :
    Records r calls (r.renderEach calls) ∧
      (Consistent r calls (r.renderEach calls) ↔
        ∀ f g, lastCall calls f = some g → Returns (r.sampleFrame g)) ∧
      ((∀ f ∈ calls, ∃ n : Int, f = .int n) →
        (Consistent r calls (r.renderEach calls) ↔ ∀ f ∈ calls, Returns (r.sampleFrame f))) ∧
      ∀ frames : List (Number R), (∀ f ∈ frames, f.isOrdered = true) →
        (r.renderAll frames).exec (r.renderEach calls) =
          (frames.mapM r.sampleFrame, r.renderEach (calls ++ r.attempted frames)) := by
  have hrecords := records_renderEach r h
  have hconsistent := hrecords.consistent_iff h
  refine ⟨hrecords, hconsistent, fun hwhole => ?_, fun frames hframes =>
    renderAll_exec r hframes calls⟩
  rw [hconsistent, forall_lastCall_of_whole hwhole]

/-- A rectangle whose place is a number before frame 30, and a text from then on. -/
def lapsing : Timeline Rat where
  project := ⟨320, 240, 30, 60, []⟩
  objects := [.shape (.ofId (some "r")) (.rect ⟨some (.int 10), some (.int 10), none, ⟨none, none⟩⟩)
    []]
  tracks := [⟨"r", "x", [⟨.number (.int 0), .number (.int 5), none, []⟩,
    ⟨.number (.int 30), .text "50%", none, []⟩], []⟩]
  extras := []

/-- Of calls that are answered and refused the refused one is seen, between the others. -/
theorem lapsing_recorded : ∃ r : Renderer Rat,
    ofTimeline bareStudio.settings bareStudio.measurer lapsing = .ok r ∧
      (∀ f ∈ [.int 0, .int 30, .int 0, .int 29], (f : Number Rat).isOrdered = true) ∧
      (@renderEach Rat _ unturned r [.int 0, .int 30, .int 0, .int 29]).frames.map
        (fun e => (e.1, e.2.map DrawItem.id)) =
          [(.int 0, [some "r"]), (.int 30, []), (.int 29, [some "r"])] ∧
      @Records Rat _ unturned r [.int 0, .int 30, .int 0, .int 29]
        (@renderEach Rat _ unturned r [.int 0, .int 30, .int 0, .int 29]) ∧
      ¬ @Consistent Rat _ unturned r [.int 0, .int 30, .int 0, .int 29]
        (@renderEach Rat _ unturned r [.int 0, .int 30, .int 0, .int 29]) := by
  let _ : Trig Rat := unturned
  have hok : (ofTimeline bareStudio.settings bareStudio.measurer lapsing).toOption.any (fun r =>
      (r.sampleFrame (.int 30)).toOption.isNone &&
        decide ((r.renderEach [.int 0, .int 30, .int 0, .int 29]).frames.map
          (fun e => (e.1, e.2.map DrawItem.id)) =
            [(.int 0, [some "r"]), (.int 30, []), (.int 29, [some "r"])])) = true := by
    decide +kernel
  obtain ⟨r, hr, hok⟩ := (Option.any_eq_true _ _).mp hok
  obtain ⟨hrefused, hframes⟩ := Bool.and_eq_true_iff.mp hok
  have hordered : ∀ f ∈ [.int 0, .int 30, .int 0, .int 29], (f : Number Rat).isOrdered = true := by
    simp [Number.isOrdered_int]
  obtain ⟨hrecords, -, hwhole, -⟩ := renderEach_recorded r hordered
  refine ⟨r, toOption_eq_some.mp hr, hordered, of_decide_eq_true hframes, hrecords, ?_⟩
  rw [hwhole (by simp)]
  intro hanswered
  obtain ⟨items, hitems⟩ := hanswered (.int 30) (by simp)
  rw [hitems] at hrefused
  cases hrefused

/-- The call of a frame is refused, and there is an entry for it with nothing drawn in it, and then
an item is drawn outside of every frame that could be rendered. -/
theorem lapsing_inconsistent : ∃ r : Renderer Rat,
    ofTimeline bareStudio.settings bareStudio.measurer lapsing = .ok r ∧
      ((@renderFrame Rat _ unturned r (.int 30)).exec empty).1.map List.length =
        .error (.numeric .operand) ∧
      items? (.int 30) (@renderEach Rat _ unturned r [.int 30]).frames = some [] ∧
      (∀ item, ∃ next, (draw item).Yields (@renderEach Rat _ unturned r [.int 30]) () next) ∧
      ¬ @Consistent Rat _ unturned r [.int 30] (@renderEach Rat _ unturned r [.int 30]) := by
  let _ : Trig Rat := unturned
  have hok : (ofTimeline bareStudio.settings bareStudio.measurer lapsing).toOption.any (fun r =>
      decide ((r.sampleFrame (.int 30)).map List.length = .error (.numeric .operand))) = true := by
    decide +kernel
  obtain ⟨r, hr, hok⟩ := (Option.any_eq_true _ _).mp hok
  have hfault := of_decide_eq_true hok
  have hrefused : ¬ Returns (r.sampleFrame (.int 30)) := by
    intro hreturns
    rw [sampleFrame_of_returns hreturns] at hfault
    cases hfault
  have hordered : ∀ f ∈ [Number.int 30], (f : Number Rat).isOrdered = true := by
    simp [Number.isOrdered_int]
  have hrecords := records_renderEach r hordered
  have hlast : lastCall [Number.int 30] (.int 30 : Number Rat) = some (.int 30) :=
    lastCall_of_getLast hordered rfl
  refine ⟨r, toOption_eq_some.mp hr, ?_, ?_, fun item => ?_, fun hconsistent => ?_⟩
  · rw [renderFrame_exec (Number.isOrdered_int 30), hfault]
  · rw [hrecords.entries, hlast, Option.map_some, (refused_of_not_returns hrefused).1]
  · exact (hrecords.stray (.int 30) rfl hrefused item).imp fun next h => h.1
  · exact hrefused ((hrecords.consistent_iff hordered).mp hconsistent _ _ hlast)

end Renderer

end Storyboard
