import Storyboard.Composition
import Storyboard.Proofs.Sampling

namespace Storyboard

open Outcome

namespace Fields

variable {R ρ σ α β : Type} {P : String × Json R → Prop} {r : ρ}

theorem forall_mem_map {f : α → β} {x : Fields R ρ α} :
    (∀ m ∈ (f <$> x).write r, P m) ↔ ∀ m ∈ x.write r, P m := Iff.rfl

theorem forall_mem_combine {f : Fields R ρ (α → β)} {x : Fields R ρ α} :
    (∀ m ∈ (f <*> x).write r, P m) ↔ (∀ m ∈ f.write r, P m) ∧ ∀ m ∈ x.write r, P m :=
  List.forall_mem_append

theorem forall_mem_optional {name : FieldName} {c : Codec R α} {get : ρ → Option α} :
    (∀ m ∈ (optional name c get).write r, P m) ↔
      ∀ a, get r = some a → P (name.wire, c.write a) := by
  rw [optional]
  cases h : get r <;> simp [h]

theorem forall_mem_defaulted {name : FieldName} {c : Codec R α} {a : α} {get : ρ → α} :
    (∀ m ∈ (defaulted name c a get).write r, P m) ↔ P (name.wire, c.write (get r)) :=
  List.forall_mem_singleton

theorem forall_mem_within {part : ρ → σ} {f : Fields R σ α} :
    (∀ m ∈ (f.within part).write r, P m) ↔ ∀ m ∈ f.write (part r), P m := Iff.rfl

end Fields

/-- The properties that every object is drawn by. -/
def drawnNames : List String :=
  ["scale", "scaleX", "scaleY", "x", "y", "rotation", "opacity", "blur"]

/-- The properties that objects of some kind are measured by. -/
def measuredNames : List String := ["width", "height", "radius", "radiusX", "radiusY", "size"]

/-- The properties that an object of a kind is measured by. -/
def lengthNames (kind : String) : List String :=
  match kind with
  | "rect" | "image" => ["width", "height"]
  | "circle" => ["radius"]
  | "ellipse" => ["radiusX", "radiusY"]
  | "text" => ["size"]
  | _ => []

theorem lengthNames_subset (kind : String) : lengthNames kind ⊆ measuredNames := by
  unfold lengthNames
  split <;> simp [measuredNames]

/-- The sides of a clip rectangle. -/
def sideNames : List String := ["x", "y", "width", "height"]

theorem clip_notMem (kind : String) : "clip" ∉ drawnNames ++ lengthNames kind := by
  intro h
  rcases List.mem_append.mp h with h | h
  · exact absurd h (by decide)
  · exact absurd (lengthNames_subset kind h) (by decide)

/-- A declared member has a value of its type, if drawing looks at it. -/
@[mk_iff] structure Typed {R : Type} (clip : Option (Clip R)) (m : String × Json R) : Prop where
  number : m.1 ∈ drawnNames ++ measuredNames → ∃ n, m.2 = .num n
  anchor : m.1 = "anchor" → ∃ s, m.2 = .str s
  clip : m.1 = "clip" → ∃ c, clip = some c ∧ m.2 = .obj (Clip.fields.write c)

namespace Object

variable {R : Type} [Scalar R] {clip : Option (Clip R)}

theorem typed_base (b : Base R) : ∀ m ∈ Base.fields.write b, Typed b.clip m := by
  simp only [Base.fields, Fields.forall_mem_combine, Fields.forall_mem_map,
    Fields.forall_mem_optional]
  simp [typed_iff, FieldName.same, drawnNames, measuredNames, Codec.number, Codec.choice,
    Clip.codec, Fields.record]
  exact fun c hc => ⟨c, hc, rfl⟩

theorem typed_group (room : Nat) (child : Codec R (Json R)) (g : GroupParts R (Json R)) :
    ∀ m ∈ (GroupParts.fields room child).write g, Typed clip m := by
  simp only [GroupParts.fields, Fields.forall_mem_combine, Fields.forall_mem_map,
    Fields.forall_mem_optional, Fields.forall_mem_defaulted]
  simp [typed_iff, FieldName.same, drawnNames, measuredNames]

omit [Scalar R] in
theorem typed_component (room : Nat) (c : ComponentParts R) :
    ∀ m ∈ (ComponentParts.fields room).write c, Typed clip m := by
  simp only [ComponentParts.fields, Fields.forall_mem_combine, Fields.forall_mem_map,
    Fields.forall_mem_optional, Fields.forall_mem_defaulted]
  simp [typed_iff, FieldName.same, drawnNames, measuredNames]

omit [Scalar R] in
theorem typed_scene (room : Nat) (s : SceneParts R) :
    ∀ m ∈ (SceneParts.fields room).write s, Typed clip m := by
  simp only [SceneParts.fields, Fields.forall_mem_combine, Fields.forall_mem_map,
    Fields.forall_mem_optional]
  simp [typed_iff, FieldName.same, drawnNames, measuredNames]

theorem typed_written {α : Type} {kind : String} {f : Fields R α α} {b : Base R} {a : α}
    (h : ∀ m ∈ f.write a, Typed b.clip m) : ∀ m ∈ written kind f b a, Typed b.clip m := by
  have htag : Typed b.clip ("type", .str kind) := by
    simp [typed_iff, drawnNames, measuredNames]
  exact List.forall_mem_append.mpr ⟨List.forall_mem_append.mpr
    ⟨typed_base b, List.forall_mem_singleton.mpr htag⟩, h⟩

theorem typed_shape (b : Base R) (s : Shape R) (e : Members R) :
    ∀ m ∈ members [] (.shape b s e), Typed b.clip m := by
  cases s <;> refine typed_written ?_ <;>
    simp only [TextShape.fields, Image.fields, Rect.fields, Line.fields, Point.fields,
      Circle.fields, Ellipse.fields, Path.fields, Stroke.fields, Fields.forall_mem_combine,
      Fields.forall_mem_map, Fields.forall_mem_optional, Fields.forall_mem_defaulted,
      Fields.forall_mem_within] <;>
    simp [typed_iff, FieldName.same, drawnNames, measuredNames, Codec.number]

/-- Declared members have values of their types. -/
theorem typed_members (o : Object R) : ∀ m ∈ members [] o, Typed o.base.clip m := by
  cases o with
  | shape b s e => exact typed_shape b s e
  | group b cs info e => exact typed_written (typed_group _ _ _)
  | reference b r e =>
    obtain ⟨kind, source, start, duration, transition⟩ := r
    cases kind with
    | component params => exact typed_written (typed_component _ _)
    | scene => exact typed_written (typed_scene _ _)

/-- What stands beside the declared members of an object and of its clip has other names than what
drawing looks at. -/
structure Plain {R : Type} (o : Object R) : Prop where
  extras : ∀ m ∈ o.extras, m.1 ∉ drawnNames ++ lengthNames o.kind ∧ m.1 ≠ "anchor" ∧ m.1 ≠ "clip"
  clip : ∀ c, o.base.clip = some c → ∀ m ∈ c.extras, m.1 ∉ sideNames

theorem Plain.typed_staticProps {o : Object R} (h : o.Plain) {m : String × Json R}
    (hm : m ∈ o.staticProps) :
    (m.1 ∈ drawnNames ++ lengthNames o.kind → ∃ n, m.2 = .num n) ∧
      (m.1 = "anchor" → ∃ s, m.2 = .str s) ∧
      (m.1 = "clip" → ∃ c, o.base.clip = some c ∧ m.2 = .obj (Clip.fields.write c)) := by
  rcases (List.mem_append.mp hm).imp List.mem_of_mem_filter List.mem_of_mem_filter with hm | hm
  · have htyped := typed_members o m hm
    refine ⟨fun hname => htyped.number ?_, htyped.anchor, htyped.clip⟩
    rcases List.mem_append.mp hname with hname | hname
    · exact List.mem_append_left _ hname
    · exact List.mem_append_right _ (lengthNames_subset _ hname)
  · obtain ⟨hnumber, hanchor, hclip⟩ := h.extras m hm
    exact ⟨fun h => absurd h hnumber, fun h => absurd h hanchor, fun h => absurd h hclip⟩

end Object

/-- A side of a clip rectangle, if it is a place or a length. -/
def Clip.side? {R : Type} (c : Clip R) (name : String) : Option (Quantity R) :=
  match name with
  | "x" => c.x
  | "y" => c.y
  | _ => none

theorem Clip.mem_fields {R : Type} {c : Clip R} (hplain : ∀ m ∈ c.extras, m.1 ∉ sideNames) :
    ∀ m ∈ Clip.fields.write c, m.1 = "x" ∨ m.1 = "y" →
      ∃ q, c.side? m.1 = some q ∧ m.2 = .ofQuantity q := by
  have hrest : ∀ m ∈ (Fields.rest Clip.extras).write c, m.1 ≠ "x" ∧ m.1 ≠ "y" := by
    intro m hm
    have hother := hplain m (List.mem_of_mem_filter hm)
    constructor <;> intro hname <;> exact hother (by simp [sideNames, hname])
  simp only [Clip.fields, Fields.forall_mem_combine, Fields.forall_mem_map,
    Fields.forall_mem_optional]
  refine ⟨⟨⟨⟨fun q hq _ => ⟨q, hq, ?_⟩, fun q hq _ => ⟨q, hq, ?_⟩⟩, ?_⟩, ?_⟩, ?_⟩
  · cases q <;> rfl
  · cases q <;> rfl
  · intro q _ h
    simp [FieldName.same] at h
  · intro q _ h
    simp [FieldName.same] at h
  · intro m hm h
    exact absurd h (not_or.mpr (hrest m hm))

theorem Members.mem_ofList {α : Type} {ms : List (String × α)} {m : String × α}
    (h : m ∈ ofList ms) : m ∈ ms := by
  have hfold (todo acc : List (String × α)) :
      ∀ m ∈ todo.foldl (fun acc m => insert m.1 m.2 acc) acc, m ∈ acc ∨ m ∈ todo := by
    induction todo generalizing acc with
    | nil => exact fun m hm => .inl hm
    | cons first rest ih =>
      intro m hm
      rcases ih _ m hm with hm | hm
      · rcases mem_insert hm with rfl | hm
        · exact .inr List.mem_cons_self
        · exact .inl hm
      · exact .inr (List.mem_cons_of_mem _ hm)
  exact (hfold ms [] m h).resolve_left (by simp)

namespace Composition

theorem eq_of_clipPart? {name part : String} (h : clipPart? name = some part) :
    name = "clip." ++ part := by
  rw [clipPart?] at h
  split at h
  · rename_i hlead
    obtain ⟨rest, hrest⟩ := List.isPrefixOf_iff_prefix.mp hlead
    rw [← hrest, List.drop_left] at h
    cases h
    apply String.toList_injective
    rw [String.toList_append, ← hrest]
    exact congrArg _ String.toList_ofList.symm
  · cases h

variable {R : Type} [Scalar R]

section

variable {P Q : String → Json R → Prop}

/-- The parts of a clip have texts for names, and something holds of each of them. -/
def PartsAll (Q : String → Json R → Prop) (parts : Parts R) : Prop :=
  ∀ x ∈ parts, ∃ name, x.1 = .str name ∧ Q name x.2

theorem PartsAll.setPart {parts : Parts R} {name : String} {v : Json R}
    (h : PartsAll Q parts) (hv : Q name v) : PartsAll Q (setPart (.str name, v) parts) := by
  induction parts with
  | nil => exact fun x hx => ⟨name, by simp_all [Composition.setPart]⟩
  | cons first rest ih =>
    obtain ⟨given, hgiven, hfirst⟩ := h first List.mem_cons_self
    have hrest : PartsAll Q rest := fun x hx => h x (List.mem_cons_of_mem _ hx)
    rw [Composition.setPart]
    split
    · rename_i hsame
      rw [hgiven] at hsame
      obtain rfl : given = name := eq_of_beq hsame
      intro x hx
      rcases List.mem_cons.mp hx with rfl | hx
      · exact ⟨given, hgiven, hv⟩
      · exact hrest x hx
    · intro x hx
      rcases List.mem_cons.mp hx with rfl | hx
      · exact ⟨given, hgiven, hfirst⟩
      · exact ih hrest x hx

theorem foldl_override {overrides : Members R} {m : Merged R}
    (hprops : ∀ x ∈ m.props, P x.1 x.2) (hclip : PartsAll Q m.clip)
    (hplain : ∀ o ∈ overrides, clipPart? o.1 = none → P o.1 o.2)
    (hpart : ∀ o ∈ overrides, ∀ part, clipPart? o.1 = some part → Q part o.2) :
    (∀ x ∈ (overrides.foldl override m).props, P x.1 x.2) ∧
      PartsAll Q (overrides.foldl override m).clip := by
  induction overrides generalizing m with
  | nil => exact ⟨hprops, hclip⟩
  | cons o rest ih =>
    refine ih ?_ ?_ (fun x hx => hplain x (List.mem_cons_of_mem _ hx))
      (fun x hx => hpart x (List.mem_cons_of_mem _ hx))
    · rw [override]
      split
      · exact hprops
      · rename_i hnone
        intro x hx
        rcases Members.mem_insert hx with rfl | hx
        · exact hplain o List.mem_cons_self hnone
        · exact hprops x hx
    · rw [override]
      split
      · rename_i part hsome
        exact hclip.setPart (hpart o List.mem_cons_self part hsome)
      · exact hclip

/-- Values can be put over declared properties whose clip is an object. -/
theorem mergeProps_ok {declared overrides : Members R}
    (hdeclared : ∀ m ∈ declared, m.1 ≠ "clip" → P m.1 m.2)
    (hclip : ∀ m ∈ declared, m.1 = "clip" → ∃ ms, m.2 = .obj ms ∧ ∀ x ∈ ms, Q x.1 x.2)
    (hnames : ∀ o ∈ overrides, o.1 ≠ "clip")
    (hplain : ∀ o ∈ overrides, clipPart? o.1 = none → P o.1 o.2)
    (hpart : ∀ o ∈ overrides, ∀ part, clipPart? o.1 = some part → Q part o.2) :
    ∃ props, mergeProps declared overrides = .ok props ∧
      (∀ m ∈ props, m.1 ≠ "clip" → P m.1 m.2) ∧
      ∀ m ∈ props, m.1 = "clip" → ∃ ms, m.2 = .obj ms ∧ ∀ x ∈ ms, Q x.1 x.2 := by
  -- The clip that is declared is an object, if there is one.
  obtain ⟨parts, hparts, hall⟩ : ∃ parts,
      clipParts ((Members.get? "clip" declared).getD .null) = .ok parts ∧ PartsAll Q parts := by
    cases hget : Members.get? "clip" declared with
    | none => exact ⟨[], rfl, fun x hx => by simp at hx⟩
    | some j =>
      obtain ⟨ms, rfl, hms⟩ := hclip _ (Members.mem_of_get? hget) rfl
      rw [Option.getD_some, clipParts]
      split
      · exact ⟨[], rfl, fun x hx => by simp at hx⟩
      · refine ⟨_, rfl, fun x hx => ?_⟩
        obtain ⟨m, hm, rfl⟩ := List.mem_map.mp hx
        exact ⟨m.1, rfl, hms m hm⟩
  have hfold := foldl_override (m := ⟨declared, parts, false⟩)
    (P := fun name v => (name ≠ "clip" → P name v) ∧
      (name = "clip" → ∃ ms, v = .obj ms ∧ ∀ x ∈ ms, Q x.1 x.2))
    (fun m hm => ⟨hdeclared m hm, hclip m hm⟩) hall
    (fun o ho hnone => ⟨fun _ => hplain o ho hnone, fun h => absurd h (hnames o ho)⟩) hpart
  refine ⟨_, by rw [mergeProps, hparts]; rfl, ?_⟩
  have hmembers : ∀ x ∈ partMembers (overrides.foldl override ⟨declared, parts, false⟩).clip,
      Q x.1 x.2 := by
    intro x hx
    obtain ⟨p, hp, rfl⟩ := List.mem_map.mp (Members.mem_ofList hx)
    obtain ⟨name, hname, hv⟩ := hfold.2 p hp
    rw [hname]
    exact hv
  split
  · constructor
    · intro m hm hne
      rcases Members.mem_insert hm with rfl | hm
      · exact absurd rfl hne
      · exact (hfold.1 m hm).1 hne
    · intro m hm hname
      rcases Members.mem_insert hm with rfl | hm
      · exact ⟨_, rfl, hmembers⟩
      · exact (hfold.1 m hm).2 hname
  · exact ⟨fun m hm => (hfold.1 m hm).1, fun m hm => (hfold.1 m hm).2⟩

end

/-- A value that a keyframe of an object's tracks holds for a property. -/
def Sourced (tracks : List (Track R)) (o : Object R) (property : String) (j : Json R) :
    Prop :=
  ∃ id k q, o.id = some id ∧ Sampler.Declared tracks id property k ∧ Track.Held k q ∧
    j = .ofQuantity q

/-- The values that an object is drawn with: numbers under the names of numbers, and what keyframes
hold. -/
structure Values (tracks : List (Track R)) (o : Object R) (props : Members R) : Prop where
  number : ∀ m ∈ props, m.1 ∈ drawnNames ++ lengthNames o.kind →
    (∃ n, m.2 = .num n) ∨ Sourced tracks o m.1 m.2
  anchor : ∀ m ∈ props, m.1 = "anchor" → ∃ s, m.2 = .str s
  clip : ∀ m ∈ props, m.1 = "clip" → ∃ ms, m.2 = .obj ms ∧ ∀ x ∈ ms, x.1 = "x" ∨ x.1 = "y" →
    (∃ c q, o.base.clip = some c ∧ c.side? x.1 = some q ∧ x.2 = .ofQuantity q) ∨
      Sourced tracks o ("clip." ++ x.1) x.2

section

variable {tracks : List (Track R)} {o : Object R} {overrides : Members R}

/-- Values of keyframes are put over what an object declares. -/
theorem exists_values (hplain : o.Plain)
    (hnames : ∀ t ∈ tracks, t.property ≠ "anchor" ∧ t.property ≠ "clip")
    (hsourced : ∀ m ∈ overrides, Sourced tracks o m.1 m.2) :
    ∃ props, mergeProps o.staticProps overrides = .ok props ∧ Values tracks o props := by
  have hallowed : ∀ m ∈ overrides, m.1 ≠ "anchor" ∧ m.1 ≠ "clip" := by
    intro m hm
    obtain ⟨id, k, q, -, ⟨t, ht, -, hproperty, -⟩, -, -⟩ := hsourced m hm
    rw [← hproperty]
    exact hnames t ht
  obtain ⟨props, hprops, hown, hclip⟩ := mergeProps_ok
    (P := fun name j => (name ∈ drawnNames ++ lengthNames o.kind →
      (∃ n, j = .num n) ∨ Sourced tracks o name j) ∧ (name = "anchor" → ∃ s, j = .str s))
    (Q := fun name j => name = "x" ∨ name = "y" →
      (∃ c q, o.base.clip = some c ∧ c.side? name = some q ∧ j = .ofQuantity q) ∨
        Sourced tracks o ("clip." ++ name) j)
    (fun m hm _ => ⟨fun hname => .inl ((hplain.typed_staticProps hm).1 hname),
      (hplain.typed_staticProps hm).2.1⟩)
    (fun m hm hname => by
      obtain ⟨c, hc, hm⟩ := (hplain.typed_staticProps hm).2.2 hname
      refine ⟨_, hm, fun x hx hside => .inl ?_⟩
      obtain ⟨q, hq, hx⟩ := Clip.mem_fields (hplain.clip c hc) x hx hside
      exact ⟨c, q, hc, hq, hx⟩)
    (fun m hm => (hallowed m hm).2)
    (fun m hm _ => ⟨fun _ => .inr (hsourced m hm), fun h => absurd h (hallowed m hm).1⟩)
    (fun m hm part hpart _ => .inr (by
      rw [← eq_of_clipPart? hpart]
      exact hsourced m hm))
  refine ⟨props, hprops, fun m hm hname => ?_, fun m hm hname => ?_, hclip⟩
  · refine (hown m hm ?_).1 hname
    intro hc
    rw [hc] at hname
    exact clip_notMem o.kind hname
  · exact (hown m hm (by rw [hname]; decide)).2 hname

variable [Trig R] {settings : Settings R} {s : Sampler R}

/-- An object that is not looked up among the targets keeps what it declares, and any other one is
sampled. -/
theorem propsAt_cases (settings : Settings R) (s : Sampler R) (o : Object R) (frame : Number R) :
    propsAt settings s o frame = mergeProps o.staticProps [] ∨
      ∃ id, o.id = some id ∧ propsAt settings s o frame =
        s.sampleTarget settings id frame >>= fun values =>
          mergeProps o.staticProps (values.map fun v => (v.1, Json.ofQuantity v.2)) := by
  rw [propsAt]
  cases hid : o.id with
  | none => exact .inl rfl
  | some id =>
    dsimp only
    split
    · exact .inl rfl
    · exact .inr ⟨id, rfl, rfl⟩

theorem sourced_values (hfrom : Sampler.From tracks s.tracks) {id : String} (hid : o.id = some id)
    {frame : Number R} {values : List (String × Quantity R)}
    (h : s.sampleTarget settings id frame = .ok values) :
    ∀ m ∈ values.map fun v => (v.1, Json.ofQuantity v.2), Sourced tracks o m.1 m.2 := by
  intro m hm
  obtain ⟨v, hv, rfl⟩ := List.mem_map.mp hm
  obtain ⟨k, hdeclared, hk⟩ := Sampler.held_of_sampleTarget hfrom h v hv
  exact ⟨id, k, v.2, hid, hdeclared, hk, rfl⟩

theorem values_of_propsAt (hfrom : Sampler.From tracks s.tracks) (hplain : o.Plain)
    (hnames : ∀ t ∈ tracks, t.property ≠ "anchor" ∧ t.property ≠ "clip") {frame : Number R}
    {props : Members R} (h : propsAt settings s o frame = .ok props) : Values tracks o props := by
  obtain ⟨overrides, hsourced, hmerge⟩ : ∃ overrides,
      (∀ m ∈ overrides, Sourced tracks o m.1 m.2) ∧
        mergeProps o.staticProps overrides = .ok props := by
    rcases propsAt_cases settings s o frame with hnone | ⟨id, hid, hsampled⟩
    · exact ⟨[], List.forall_mem_nil _, hnone.symm.trans h⟩
    · obtain ⟨values, hvalues, hmerge⟩ := bind_eq_ok.mp (hsampled.symm.trans h)
      exact ⟨_, sourced_values hfrom hid hvalues, hmerge⟩
  obtain ⟨props', hprops', hown⟩ := exists_values hplain hnames hsourced
  obtain rfl := Except.ok.inj (hmerge.symm.trans hprops')
  exact hown

/-- An object has values at a frame, unless there is no way between two of its keyframes. -/
theorem only_propsAt (hfrom : Sampler.From tracks s.tracks) (hplain : o.Plain)
    (hnames : ∀ t ∈ tracks, t.property ≠ "anchor" ∧ t.property ≠ "clip")
    (hstarts : ∀ t ∈ tracks, ∀ k ∈ t.keyframes, ∃ n : Int, k.start = .number (.int n))
    (frame : Int) :
    Only (fun f => ∃ id, o.id = some id ∧ Sampler.Breaks settings tracks id frame f)
      (propsAt settings s o (.int frame)) := by
  have hmerges {overrides : Members R} (hsourced : ∀ m ∈ overrides, Sourced tracks o m.1 m.2)
      {P : Fault → Prop} : Only P (mergeProps o.staticProps overrides) := by
    obtain ⟨props, hprops, -⟩ := exists_values hplain hnames hsourced
    rw [hprops]
    exact .ok _
  rcases propsAt_cases settings s o (.int frame) with hnone | ⟨id, hid, hsampled⟩
  · rw [hnone]
    exact hmerges (List.forall_mem_nil _)
  · rw [hsampled]
    refine ((Sampler.only_sampleTarget hfrom hstarts id frame).mono fun f hf => ⟨id, hid, hf⟩).bind
      fun values hvalues => hmerges (sourced_values hfrom hid hvalues)

end

end Composition

end Storyboard
