import Storyboard.Proofs.Checks
import Storyboard.Proofs.Expansion.Failure
import Storyboard.Proofs.Flattening.Failure
import Storyboard.Proofs.Flattening.Timing
import Storyboard.Proofs.Lengths
import Storyboard.Proofs.Ranges

namespace Storyboard

open Flattening

variable {R : Type} [Scalar R]

namespace Flattening

variable {d : Disk} {fps : Number R} {library : EffectLibrary R} {f : Fault}

/-- An animation with a keyframe has no tracks at a speed of zero. -/
theorem Timed.speed_ne_zero {start : Int} {speed : Number R} {e : Entry R} {out : List (Track R)}
    (h : Timed d library fps start speed e out) (hkeyframe : e.HasKeyframe d library) :
    speed.isZero = false := by
  rw [Bool.eq_false_iff]
  intro hzero
  have hnever (moment frame : Int) : ¬ FallsOn start speed moment frame := by
    rintro ⟨slowed, rounded, hslowed, -, -⟩
    exact Number.div_int_of_isZero hzero slowed hslowed
  cases e with
  | track t =>
    obtain ⟨t', -, -, hbecomes⟩ := h
    obtain ⟨k, hk⟩ := List.exists_mem_of_ne_nil _ hkeyframe
    obtain ⟨k', -, moment, frame, -, hfalls, -⟩ := hbecomes.exists_compiled hk
    exact hnever moment frame hfalls
  | effect use =>
    obtain ⟨effect, first, duration, props, hgives, -, -, hall⟩ := h
    obtain ⟨effect', hgives', p, hp, hkeyframes⟩ := hkeyframe
    obtain rfl := hgives.unique hgives'
    obtain ⟨k, hk⟩ := List.exists_mem_of_ne_nil _ hkeyframes
    obtain ⟨t', -, -, hbecomes⟩ := exists_related_of_mem hall.flip hp
    obtain ⟨k', -, moment, frame, context, value, -, hfalls, -⟩ := hbecomes.exists_compiled hk
    exact hnever moment frame hfalls

/-- The effect of a source with tracks is given by the library. -/
theorem Source.Emits.gives {root : TimeScope R} {objects : List (Object R)} {src : Source R}
    {out : List (Track R)} {name : String} (h : src.Emits d library fps root objects out)
    (hname : src.cause.effect? = some name) : ∃ e, library.Gives d name e := by
  have hentry {objects : List (Object R)} {path : String} {frames : FrameMap R} {e : Entry R}
      (h : EmitsEntry d library fps objects path frames e out) (hname : e.effect? = some name) :
      ∃ e, library.Gives d name e := by
    obtain ⟨target, -, h⟩ := h
    cases e with
    | track t => cases hname
    | effect use =>
      cases hname
      obtain ⟨start, -, effect, tracks, hgives, -⟩ := h
      exact ⟨effect, hgives⟩
  obtain ⟨own, level, -, -, h⟩ := h
  rcases src with ⟨position, way, e | e | t | t⟩
  · exact hentry h hname
  · exact hentry h (by cases e <;> exact hname)
  · cases hname
    obtain ⟨_, _, _, _, -, -, -, path, -, effect, tracks, hgives, -⟩ := h
    exact ⟨effect, hgives⟩
  · cases hname
    obtain ⟨_, _, _, _, _, -, -, -, -, path, -, effect, tracks, hgives, -⟩ := h
    exact ⟨effect, hgives⟩

/-- A source that strays has no tracks. -/
theorem Source.Strays.not_emits {root : TimeScope R} {objects : List (Object R)} {src : Source R}
    (h : src.Strays d library fps root f) (out : List (Track R)) :
    ¬ src.Emits d library fps root objects out := by
  intro hemits
  cases h with
  | hidden hname hhides =>
    obtain ⟨e, hgives⟩ := hemits.gives hname
    obtain ⟨l, hget, -⟩ := EffectLibrary.get_of_gives hgives
    cases (congrArg Prod.fst hget).symm.trans hhides.1
  | still hcause hkeyframe hown hzero =>
    obtain ⟨own', level, hown', -, h⟩ := hemits
    obtain rfl := Except.ok.inj (hown'.symm.trans hown)
    rw [hcause] at h
    rw [(EmitsEntry.timed h).speed_ne_zero hkeyframe] at hzero
    cases hzero

theorem Source.Strays.not_refusal {root : TimeScope R} {src : Source R}
    (h : src.Strays d library fps root f) : Command.isRefusal f = false := by
  cases h with
  | hidden hname hhides => exact hhides.not_refusal
  | still hcause hkeyframe hown hzero => rfl

end Flattening

/-- An arithmetic in which only factors of zero multiply to zero. -/
structure Scalar.NoUnderflow (R : Type) [Scalar R] : Prop where
  one : (Number.real (Scalar.const 1 0 : R)).isZero = false
  mul : ∀ x y : R, (Number.real x).isZero = false → (Number.real y).isZero = false →
    (Number.real (Scalar.mul x y)).isZero = false

/-- Without underflow, speeds above zero do not multiply a speed to zero. -/
theorem TimeScope.isZero_speedAlong (hmul : Scalar.NoUnderflow R) {x : R} {way : List (Object R)}
    {product : Number R} (hx : (Number.real x).isZero = false)
    (hspeeds : ∀ o ∈ way, ∀ v, o.groupInfo.speed = some v → (Scalar.exact v).le (.finite 0) = false)
    (h : speedAlong (.real x) way = .ok product) : product.isZero = false := by
  induction way generalizing x with
  | nil =>
    cases h
    exact hx
  | cons o rest ih =>
    obtain ⟨hfirst, hrest⟩ := List.forall_mem_cons.mp hspeeds
    refine ih (hmul.mul x _ hx ?_) hrest h
    cases hspeed : o.groupInfo.speed with
    | none => exact hmul.one
    | some v => exact (Bool.or_eq_false_iff.mp (hfirst v hspeed)).2

/-- Without underflow, a source of a valid tree stands still only at a document speed of zero. -/
theorem Flattening.speed_of_still (hmul : Scalar.NoUnderflow R) {fps : Number R}
    {objects : List (Object R)} {entries : List (Entry R)} {speed : Option R} {src : Source R}
    {own : TimeScope R} (hchecked : Object.checkTree objects = .ok ())
    (hsrc : src ∈ sourcesOfAll objects entries)
    (hown : TimeScope.along fps (TimeScope.root (speed.map .real)) src.way = .ok own)
    (hzero : own.speed.isZero = true) : ∃ v, speed = some v ∧ (Number.real v).isZero = true := by
  have hspeeds : ∀ o ∈ src.way, ∀ v, o.groupInfo.speed = some v →
      (Scalar.exact v).le (.finite 0) = false := fun o ho =>
    (Object.valid_of_checkTree hchecked
      (Address.mem_walk_of_way (sourcesOfAll_spec hsrc).1 ho)).speed
  have hruns := (along_root hown).2
  cases speed with
  | none =>
    rw [TimeScope.isZero_speedAlong hmul hmul.one hspeeds hruns] at hzero
    cases hzero
  | some v =>
    refine ⟨v, rfl, ?_⟩
    rw [← Bool.not_eq_false]
    intro hv
    rw [TimeScope.isZero_speedAlong hmul hv hspeeds hruns] at hzero
    cases hzero

theorem Scalar.noUnderflow_rat : Scalar.NoUnderflow Rat := by
  have hzero (x : Rat) : (Number.real x).isZero = false ↔ x ≠ 0 := decide_eq_false_iff_not
  refine ⟨by decide +kernel, fun x y hx hy => (hzero _).mpr ?_⟩
  exact mul_ne_zero ((hzero x).mp hx) ((hzero y).mp hy)

theorem Track.only_checkAll (objects : List (Object R)) (tracks : List (Track R)) :
    Outcome.Only (fun f => Command.isRefusal f = true ∨ f = .numeric .overflow ∧ Bounded R)
      (checkAll objects tracks) := by
  induction tracks with
  | nil => exact .ok ()
  | cons t rest ih =>
    refine Outcome.Only.bind ?_ fun _ _ => ih
    rw [check]
    split
    · exact Outcome.Only.error_iff.mpr (.inl rfl)
    · split
      · exact (mild_checkEasings _ _ _ _).mono fun _ hmild => hmild.2
      · exact Outcome.Only.error_iff.mpr (.inl rfl)

theorem readDocument_fails {j : Json R} {f : Fault}
    (h : readDocument Document.codec j = .error f) : Command.isRefusal f = true := by
  rw [readDocument] at h
  cases hread : Document.codec.read j with
  | ok doc =>
    rw [hread] at h
    cases h
  | error issues =>
    rw [hread] at h
    cases h
    rfl

namespace Studio

/-- A compilation comes to a definition that it cannot open, or to a source that has no tracks, and
neither is a refusal. -/
inductive Strays (s : Studio R) (folder : Place) (doc : Document R) (c : Catalog R) : Fault → Prop
  | definition {k f} (hdeclared : Object.checkTree doc.objects = .ok ())
      (hcall : Expansion.Calls s.disk (.real doc.project.fps) ⟨folder, 0, []⟩ doc.objects
        c.definitions k)
      (h : k.Strays s.disk f) : Strays s folder doc c f
  | source {expanded definitions src f} (hdeclared : Object.checkTree doc.objects = .ok ())
      (hexpands : (Expansion.expandObjects s.disk (.real doc.project.fps) ⟨folder, 0, []⟩
        doc.objects).Yields c.definitions expanded definitions)
      (hchecked : Object.checkTree expanded = .ok ())
      (hsrc : src ∈ sourcesOfAll expanded doc.animations)
      (h : src.Strays s.disk c.effects (.real doc.project.fps)
        (TimeScope.root (doc.speed.map .real)) f) : Strays s folder doc c f

variable {s : Studio R} {folder : Place} {doc : Document R} {c : Catalog R} {f : Fault}

theorem compile_fails (hhundred : Scalar.Hundredths R) (hdoc : Object.AllPlain doc.objects)
    (h : (s.compile folder doc).Fails c f) :
    Command.isRefusal f = true ∨ f = .numeric .overflow ∧ Bounded R ∨ s.measurer.Refuses f ∨
      s.Strays folder doc c f := by
  by_cases hmild : f.Mild R
  · exact hmild.2.imp_right .inl
  have hproblems {objects : List (Object R)} (h : Object.checkTree objects = .error f) :
      Command.isRefusal f = true := by
    rw [Object.checkTree] at h
    split at h
    · cases h
    · cases h
      rfl
  rcases Run.fails_lift_bind.mp h with h | ⟨⟨⟩, hdeclared, h⟩
  · exact .inl (hproblems h)
  rcases Run.fails_bind.mp h with h | ⟨expanded, c₁, hexpands, h⟩
  · obtain ⟨k, hcall, ⟨place, -, rfl⟩ | hstrays⟩ :=
      (Expansion.expandObjects_fails hmild).mp (Catalog.withDefinitions_fails.mp h)
    · exact .inl rfl
    · exact .inr (.inr (.inr (.definition hdeclared hcall hstrays)))
  obtain ⟨definitions, hyields, rfl⟩ := Catalog.withDefinitions_yields.mp hexpands
  rcases Run.fails_lift_bind.mp h with h | ⟨⟨⟩, hchecked, h⟩
  · exact .inl (hproblems h)
  rcases Run.fails_bind.mp h with h | ⟨⟨flat, tracks⟩, c₂, hflattens, h⟩
  · rcases flatten_fails hmild (Catalog.withEffects_fails.mp h) with ⟨p, rfl⟩ | ⟨src, hsrc, hstrays⟩
    · exact .inl rfl
    · exact .inr (.inr (.inr (.source hdeclared hyields hchecked hsrc hstrays)))
  obtain ⟨effects, hflattens, -⟩ := Catalog.withEffects_yields.mp hflattens
  rcases Run.fails_lift_bind.mp h with h | ⟨⟨objects, found⟩, -, h⟩
  · have hplain := allPlain_flatten hdoc hyields hflattens
    rcases only_resolveClipLengths hhundred hplain tracks f h with h | h
    · exact (hmild h).elim
    · exact .inr (.inr (.inl h))
  rcases Run.fails_lift_bind.mp h with h | ⟨⟨⟩, -, h⟩
  · exact (Track.only_checkAll objects found f h).imp_right .inl
  · exact (Run.fails_pure.mp h).elim

theorem Strays.not_refusal (h : s.Strays folder doc c f) : Command.isRefusal f = false := by
  cases h with
  | definition hdeclared hcall hstrays => exact hstrays.not_refusal
  | source hdeclared hexpands hchecked hsrc hstrays => exact hstrays.not_refusal

/-- A call that strays decides what the compilation is refused with. -/
theorem compile_of_call {k : Expansion.Call R} (hdeclared : Object.checkTree doc.objects = .ok ())
    (hcall : Expansion.Calls s.disk (.real doc.project.fps) ⟨folder, 0, []⟩ doc.objects
      c.definitions k) (h : k.Strays s.disk f) : (s.compile folder doc).Fails c f := by
  have hexpand := (Expansion.expandObjects_fails h.not_mild).mpr ⟨k, hcall, .inr h⟩
  refine Run.fails_lift_bind.mpr (.inr ⟨(), hdeclared, ?_⟩)
  exact Run.fails_bind.mpr (.inl (Catalog.withDefinitions_fails.mpr hexpand))

/-- What strays leaves no timeline. -/
theorem Strays.not_yields (h : s.Strays folder doc c f) (timeline : Timeline R)
    (c' : Catalog R) : ¬ (s.compile folder doc).Yields c timeline c' := by
  intro hyields
  cases h with
  | definition hdeclared hcall hstrays =>
    cases (congrArg Prod.fst hyields).symm.trans (compile_of_call hdeclared hcall hstrays)
  | source hdeclared hexpands hchecked hsrc hstrays =>
    obtain ⟨expanded', flat, tracks, hstages, -, -⟩ := compile_yields.mp hyields
    obtain rfl := Except.ok.inj (congrArg Prod.fst (hexpands.symm.trans hstages.expands))
    obtain ⟨-, -, outs, -, hall⟩ := flatten_yields hstages.flattens
    obtain ⟨out, -, hemits⟩ := exists_related_of_mem hall.flip hsrc
    exact hstrays.not_emits out hemits

theorem compileJson_fails (hhundred : Scalar.Hundredths R) {j : Json R}
    (h : (s.compileJson folder j).Fails c f) :
    Command.isRefusal f = true ∨ f = .numeric .overflow ∧ Bounded R ∨ s.measurer.Refuses f ∨
      ∃ doc, readDocument Document.codec j = .ok doc ∧ s.Strays folder doc c f := by
  rcases Run.fails_lift_bind.mp h with h | ⟨doc, hread, h⟩
  · exact .inl (readDocument_fails h)
  · refine (compile_fails hhundred (Document.allPlain hread) h).imp_right ?_
    exact .imp_right (.imp_right fun hstrays => ⟨doc, hread, hstrays⟩)

theorem compileFile_fails {path : String} {route : Route}
    (hroute : route = Route.ofPath (Route.ofPlace folder) path)
    (h : (s.compileFile folder path).Fails c f) :
    (∃ cause, s.disk.readMembers (R := R) (Route.shown path) route = .error cause ∧
      f = .read cause) ∨
    ∃ members, s.disk.readMembers (Route.shown path) route = .ok members ∧
      (s.compileJson (Place.ofRoute route).folder (.obj members)).Fails c f := by
  subst hroute
  unfold compileFile at h
  dsimp only at h
  cases hread : s.disk.readMembers (R := R) (Route.shown path)
      (Route.ofPath (Route.ofPlace folder) path) with
  | error cause =>
    rw [hread] at h
    exact .inl ⟨cause, rfl, (Run.fails_throw.mp h).symm⟩
  | ok members =>
    rw [hread] at h
    exact .inr ⟨members, rfl, h⟩

/-- Without underflow, frames are divided by zero only at a document speed of zero. -/
theorem Strays.speed (hmul : Scalar.NoUnderflow R)
    (h : s.Strays folder doc c (.numeric .zeroDivision)) :
    ∃ v, doc.speed = some v ∧ (Number.real v).isZero = true := by
  cases h with
  | definition hdeclared hcall hstrays => cases hstrays
  | source hdeclared hexpands hchecked hsrc hstrays =>
    cases hstrays with
    | hidden hname hhides =>
      obtain ⟨-, cause, hcause, -⟩ := hhides
      cases hcause
    | still hcause hkeyframe hown hzero => exact speed_of_still hmul hchecked hsrc hown hzero

end Studio

theorem Command.ofFault_eq_failed {f g : Fault} (h : ofFault g = .failed f) :
    g = f ∧ isRefusal f = false ∧ ∀ path, f ≠ .read (.missing path) := by
  rw [ofFault.eq_def] at h
  split at h
  · cases h
  · rename_i hmissing
    split at h
    · cases h
    · rename_i hrefusal
      cases h
      exact ⟨rfl, Bool.eq_false_iff.mpr hrefusal, hmissing⟩

/-- What the command line does not report is a document that it cannot open, or a failure of
compilation that is no refusal. -/
theorem Command.load_failed {s : Studio R} (hhundred : Scalar.Hundredths R) {folder : Place}
    {path : String} {route : Route} (hroute : route = Route.ofPath (Route.ofPlace folder) path)
    {f : Fault} (h : load s folder path = .error (.failed f)) :
    (∃ cause, f = .read cause ∧ cause.hinders = true ∧
      s.disk.readMembers (R := R) (Route.shown path) route = .error cause) ∨
    f = .numeric .overflow ∧ Bounded R ∨ s.measurer.Refuses f ∨
    ∃ members doc, s.disk.readMembers (Route.shown path) route = .ok members ∧
      readDocument Document.codec (.obj members) = .ok doc ∧
      s.Strays (Place.ofRoute route).folder doc ⟨.empty, EffectLibrary.ofFolders
        (Bundled.folders folder s.settings.effectsFolder)⟩ f := by
  subst hroute
  obtain ⟨g, hfails, hg⟩ : ∃ g, (s.compileFile folder path).Fails ⟨.empty, EffectLibrary.ofFolders
      (Bundled.folders folder s.settings.effectsFolder)⟩ g ∧ ofFault g = .failed f := by
    rw [load] at h
    cases hrun : ((s.compileFile folder path).exec ⟨.empty, EffectLibrary.ofFolders
        (Bundled.folders folder s.settings.effectsFolder)⟩).1 with
    | ok timeline =>
      rw [hrun] at h
      cases h
    | error g =>
      rw [hrun] at h
      exact ⟨g, hrun, Except.error.inj h⟩
  obtain ⟨rfl, hrefusal, hmissing⟩ := ofFault_eq_failed hg
  rcases Studio.compileFile_fails rfl hfails with ⟨cause, hread, rfl⟩ | ⟨members, hread, hfails⟩
  · rcases Disk.readMembers_kinds hread with hhinders | hrefused | rfl
    · exact .inl ⟨cause, rfl, hhinders, hread⟩
    · exact Bool.noConfusion (hrefusal.symm.trans hrefused)
    · exact (hmissing _ rfl).elim
  · rcases Studio.compileJson_fails hhundred hfails with hrefused | hrest
    · exact Bool.noConfusion (hrefusal.symm.trans hrefused)
    · refine .inr (hrest.imp_right (.imp_right ?_))
      rintro ⟨doc, hdoc, hstrays⟩
      exact ⟨members, doc, hread, hdoc, hstrays⟩

/-- A compilation without a timeline has refused its input, or a number is out of range, or a text
cannot be measured, or something strays: the file of a definition or an effect cannot be opened, the
parameters of a component are no object, or a keyframe is declared at a speed of zero. What strays
is no refusal, and there is no timeline beside it; a call that strays is what the compilation is
refused with, in any document with valid objects. Without underflow the speed is zero only if the
document says so. The command line reports everything else. -/
theorem compile_strays (s : Studio R) (hhundred : Scalar.Hundredths R) :
    (∀ folder j c f, (s.compileJson folder j).Fails c f →
      Command.isRefusal f = true ∨ f = .numeric .overflow ∧ Bounded R ∨ s.measurer.Refuses f ∨
        ∃ doc, readDocument Document.codec j = .ok doc ∧ s.Strays folder doc c f) ∧
    (∀ folder j doc c f, readDocument Document.codec j = .ok doc → s.Strays folder doc c f →
      Command.isRefusal f = false ∧
        ∀ timeline c', ¬ (s.compileJson folder j).Yields c timeline c') ∧
    (∀ folder j doc c k f, readDocument Document.codec j = .ok doc →
      Object.checkTree doc.objects = .ok () →
      Expansion.Calls s.disk (.real doc.project.fps) ⟨folder, 0, []⟩ doc.objects c.definitions k →
      k.Strays s.disk f → (s.compileJson folder j).Fails c f) ∧
    (Scalar.NoUnderflow R → ∀ folder doc c, s.Strays folder doc c (.numeric .zeroDivision) →
      ∃ v, doc.speed = some v ∧ (Number.real v).isZero = true) ∧
    ∀ folder path route f, route = Route.ofPath (Route.ofPlace folder) path →
      Command.load s folder path = .error (.failed f) →
      (∃ cause, f = .read cause ∧ cause.hinders = true ∧
        s.disk.readMembers (R := R) (Route.shown path) route = .error cause) ∨
      f = .numeric .overflow ∧ Bounded R ∨ s.measurer.Refuses f ∨
      ∃ members doc, s.disk.readMembers (Route.shown path) route = .ok members ∧
        readDocument Document.codec (.obj members) = .ok doc ∧
        s.Strays (Place.ofRoute route).folder doc ⟨.empty, EffectLibrary.ofFolders
          (Bundled.folders folder s.settings.effectsFolder)⟩ f := by
  refine ⟨fun folder j c f h => Studio.compileJson_fails hhundred h, ?_, ?_,
    fun hmul folder doc c h => h.speed hmul,
    fun folder path route f hroute h => Command.load_failed hhundred hroute h⟩
  · intro folder j doc c f hread h
    refine ⟨h.not_refusal, fun timeline c' hyields => ?_⟩
    obtain ⟨doc', hread', hyields⟩ := Run.yields_lift_bind.mp hyields
    obtain rfl := Except.ok.inj (hread'.symm.trans hread)
    exact h.not_yields timeline c' hyields
  · intro folder j doc c k f hread hdeclared hcall h
    exact Run.fails_lift_bind.mpr (.inr ⟨doc, hread, Studio.compile_of_call hdeclared hcall h⟩)

/-- A document that stands still, with a keyframe. -/
def stillDocument : Json Rat :=
  .obj [
    ("project", .obj [("width", .int 320), ("height", .int 240), ("fps", .int 30),
      ("frames", .int 60)]),
    ("animationSpeed", .int 0),
    ("objects", .arr [.obj [("type", .str "rect"), ("id", .str "r"), ("width", .int 10),
      ("height", .int 10)]]),
    ("animations", .arr [.obj [("target", .str "r"), ("property", .str "x"),
      ("keyframes", .arr [.obj [("start", .int 30), ("value", .int 5)]])]])]

theorem stillDocument_fails :
    (bareStudio.compileJson ⟨[]⟩ stillDocument).Fails ⟨.empty, ⟨[], []⟩⟩
      (.numeric .zeroDivision) := by
  refine Run.fails_of_map (fun _ => ()) ?_
  decide +kernel

/-- A document with a component. -/
def componentDocument : Json Rat :=
  .obj [
    ("project", .obj [("width", .int 320), ("height", .int 240), ("fps", .int 30),
      ("frames", .int 60)]),
    ("objects", .arr [.obj [("type", .str "component"), ("id", .str "c"),
      ("source", .str "c.json")]]),
    ("animations", .arr [])]

/-- A studio with a component that declares a list as its parameters. -/
def listedStudio : Studio Rat :=
  { bareStudio with
    disk := Disk.empty.writeJson (R := Rat) ⟨["c.json"]⟩
      (.obj [("parameters", .arr [.int 1]), ("objects", .arr [])]) }

theorem componentDocument_fails :
    (listedStudio.compileJson ⟨[]⟩ componentDocument).Fails ⟨.empty, ⟨[], []⟩⟩ .notAMapping := by
  refine Run.fails_of_map (fun _ => ()) ?_
  decide +kernel

theorem load_folder :
    Command.load bareStudio ⟨[]⟩ "/" = .error (.failed (.read (.folder "/"))) := by
  have hfailed : (Command.load bareStudio ⟨[]⟩ "/").map (fun _ => ()) =
      .error (.failed (.read (.folder "/"))) := by
    decide +kernel
  cases h : Command.load bareStudio ⟨[]⟩ "/" with
  | ok timeline =>
    rw [h] at hfailed
    cases hfailed
  | error e =>
    rw [h] at hfailed
    exact congrArg _ (Except.error.inj hfailed)

theorem readMembers_folder (members : Members Rat) : bareStudio.disk.readMembers
    (Route.shown "/") (Route.ofPath (Route.ofPlace ⟨[]⟩) "/") ≠ .ok members := by
  intro h
  have hnone : (bareStudio.disk.readMembers (R := Rat) (Route.shown "/")
      (Route.ofPath (Route.ofPlace ⟨[]⟩) "/")).toOption.isNone = true := by
    decide +kernel
  rw [h] at hnone
  cases hnone

/-- Where all texts are measured and no number is out of range, an outcome that is no refusal comes
from something else. -/
theorem neither_refused_nor_limited {m : Measurer Rat} {f : Fault} {P : Prop}
    (hmeasurer : ¬ m.Refuses f) (hf : Command.isRefusal f = false)
    (h : Command.isRefusal f = true ∨ f = .numeric .overflow ∧ Bounded Rat ∨ m.Refuses f ∨ P) :
    P := by
  rcases h with h | ⟨-, h⟩ | h | h
  · exact Bool.noConfusion (hf.symm.trans h)
  · exact (not_bounded_rat h).elim
  · exact (hmeasurer h).elim
  · exact h

theorem not_refuses_bare (f : Fault) : ¬ bareStudio.measurer.Refuses f := by
  intro h
  obtain ⟨t, h⟩ := h
  cases h

/-- What strays for parameters that are no object is a call of a component. -/
theorem Studio.Strays.call {s : Studio Rat} {folder : Place} {doc : Document Rat}
    {c : Catalog Rat} (h : s.Strays folder doc c .notAMapping) :
    ∃ k, Object.checkTree doc.objects = .ok () ∧
      Expansion.Calls s.disk (.real doc.project.fps) ⟨folder, 0, []⟩ doc.objects c.definitions k ∧
      k.Strays s.disk .notAMapping := by
  cases h with
  | definition hdeclared hcall h => exact ⟨_, hdeclared, hcall, h⟩
  | source hdeclared hexpands hchecked hsrc h =>
    cases h with
    | hidden hname hhides =>
      obtain ⟨-, cause, hcause, -⟩ := hhides
      cases hcause

/-- A document strays by the speed that it declares, another one by the file of its component, and
a folder in the place of a document is not reported. -/
theorem stray_documents_found : Scalar.Hundredths Rat ∧
    (∃ doc v, readDocument Document.codec stillDocument = .ok doc ∧
      bareStudio.Strays ⟨[]⟩ doc ⟨.empty, ⟨[], []⟩⟩ (.numeric .zeroDivision) ∧
      doc.speed = some v ∧ (Number.real v).isZero = true ∧
      ∀ timeline c', ¬ (bareStudio.compileJson ⟨[]⟩ stillDocument).Yields ⟨.empty, ⟨[], []⟩⟩
        timeline c') ∧
    (∃ doc k, readDocument Document.codec componentDocument = .ok doc ∧
      Expansion.Calls listedStudio.disk (.real doc.project.fps) ⟨⟨[]⟩, 0, []⟩ doc.objects .empty
        k ∧
      k.Strays listedStudio.disk .notAMapping ∧
      (listedStudio.compileJson ⟨[]⟩ componentDocument).Fails ⟨.empty, ⟨[], []⟩⟩ .notAMapping) ∧
    ∃ cause, cause.hinders = true ∧ bareStudio.disk.readMembers (R := Rat) (Route.shown "/")
      (Route.ofPath (Route.ofPlace ⟨[]⟩) "/") = .error cause := by
  have hhundred : Scalar.Hundredths Rat := by
    rw [Scalar.Hundredths]
    decide +kernel
  obtain ⟨honly, hnever, -, hspeed, hreported⟩ := compile_strays bareStudio hhundred
  refine ⟨hhundred, ?_, ?_, ?_⟩
  · obtain ⟨doc, hread, hstrays⟩ := neither_refused_nor_limited (not_refuses_bare _) rfl
      (honly _ _ _ _ stillDocument_fails)
    obtain ⟨v, hv, hzero⟩ := hspeed Scalar.noUnderflow_rat _ _ _ hstrays
    exact ⟨doc, v, hread, hstrays, hv, hzero, (hnever _ _ _ _ _ hread hstrays).2⟩
  · obtain ⟨honly, -, hdecides, -, -⟩ := compile_strays listedStudio hhundred
    obtain ⟨doc, hread, hstrays⟩ := neither_refused_nor_limited (not_refuses_bare _) rfl
      (honly _ _ _ _ componentDocument_fails)
    obtain ⟨k, hdeclared, hcall, h⟩ := hstrays.call
    exact ⟨doc, k, hread, hcall, h, hdecides _ _ _ _ _ _ hread hdeclared hcall h⟩
  · rcases hreported _ _ _ _ rfl load_folder with ⟨cause, -, hcause, hread⟩ | ⟨-, h⟩ | h |
      ⟨members, doc, hread, -⟩
    · exact ⟨cause, hcause, hread⟩
    · exact (not_bounded_rat h).elim
    · exact (not_refuses_bare _ h).elim
    · exact (readMembers_folder _ hread).elim

/-- A component that declares a list as its parameters fails without a refusal. -/
theorem listed_parameters_not_refused :
    (listedStudio.compileJson ⟨[]⟩ componentDocument).Fails ⟨.empty, ⟨[], []⟩⟩ .notAMapping ∧
      Command.isRefusal .notAMapping = false := ⟨componentDocument_fails, rfl⟩

end Storyboard
