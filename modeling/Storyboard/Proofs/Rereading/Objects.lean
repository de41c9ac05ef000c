import Storyboard.Proofs.Rereading.Entries

namespace Storyboard

variable {R α : Type}

open Codec Fields

/-- A part of a record that is read back as one for which the same is written, exactly if `P`. -/
def Fields.SettlesIff (f : Fields R α α) (names : List FieldName) (a : α) (P : Prop) : Prop :=
  ∃ back same, f.Rereads a names back same ∧
    (P → ∃ a', back = some a' ∧ Members.Same (f.write a') (f.write a)) ∧
      ∀ a', back = some a' → same a' → P

theorem Fields.Rereads.settlesIff {f : Fields R α α} {names : List FieldName} {a a' : α}
    {back : Option α} {same : α → Prop} (h : f.Rereads a names back same) (hback : back = some a')
    (hsame : Members.Same (f.write a') (f.write a)) : f.SettlesIff names a True :=
  ⟨back, same, h, fun _ => ⟨a', hback, hsame⟩, fun _ _ _ => trivial⟩

theorem Clip.settles : (codec : Codec R (Clip R)).Gives codec.Settles := by
  refine gives_record <| .skip <| .skip <| .skip <| .start ?_
  intro x y width height extras hextras
  exact settles_record (.optional (exact_quantity.option _) <|
      .optional (exact_quantity.option _) <| .optional (exact_quantity.option _) <| .map <|
      rereads_optional (exact_quantity.option _))
    (Model.usable .clip) hextras (by simp) rfl (.refl _) rfl

section

variable [Scalar R]

namespace PathCommand

omit [Scalar R] in
theorem settles_tagged {kind : String} {f : Fields R α α} {names : List FieldName}
    {same : α → α → Prop} (hf : ∀ a, f.Rereads a names (some a) (same a))
    (husable : Usable (FieldName.same "type" :: names))
    (hsettled : ∀ p, ∀ n ∈ FieldName.same "type" :: names,
      n.Settled ((tagged kind f).record.write p)) :
    (tagged kind f).record.Gives (tagged kind f).record.Settles := by
  refine gives_record (.skip (.start ?_))
  intro _ a extras hextras
  exact settles_record (.seq (.map (rereads_tag "type" kind)) (.within (hf a)))
    husable hextras (hsettled _) rfl (.refl _) rfl

/-- A step is read back by its kind. -/
theorem settles_of_readAs {kind : String} {f : Fields R α α} {toStep : α → PathStep R}
    (hgives : (tagged kind f).record.Gives (tagged kind f).record.Settles)
    (hwrite : ∀ p, write ⟨toStep p.1, p.2⟩ = (tagged kind f).record.write p)
    (hread : ∀ p, read ((tagged kind f).record.write p) =
      readAs kind f toStep ((tagged kind f).record.write p))
    {j : Json R} (hproper : j.Proper) {c : PathCommand R} (h : readAs kind f toStep j = .ok c) :
    codec.Settles c := by
  have h' := Checked.under_eq_ok.mp h
  cases hp : (tagged kind f).record.read j with
  | error issues =>
    rw [hp] at h'
    cases h'
  | ok p =>
    rw [hp] at h'
    cases h'
    obtain ⟨p', ⟨hnull, hback⟩, hsame⟩ := hgives j hproper p hp
    refine ⟨⟨toStep p'.1, p'.2⟩, ⟨?_, reread_eq_some.mpr ?_⟩, ?_⟩
    · change write ⟨toStep p.1, p.2⟩ ≠ _
      rw [hwrite]
      exact hnull
    · change read (write ⟨toStep p.1, p.2⟩) = _
      rw [hwrite, hread, readAs, Checked.under_eq_ok, reread_eq_some.mp hback]
      rfl
    · change Json.Same (write ⟨toStep p'.1, p'.2⟩) (write ⟨toStep p.1, p.2⟩)
      rw [hwrite, hwrite]
      exact hsame

theorem settles_position (kind : String) : (tagged kind (Position.fields (R := R))).record.Gives
    (tagged kind Position.fields).record.Settles :=
  settles_tagged (fun _ => .required (exact_scalar _) <| .map <| rereads_required (exact_scalar _))
    (Model.usable .moveTo) fun _ => by simp

omit [Scalar R] in
theorem settles_closePath : (tagged (R := R) "closePath" (Fields.const ())).record.Gives
    (tagged "closePath" (Fields.const ())).record.Settles :=
  settles_tagged (fun _ => rereads_const ()) (Model.usable .closePath) fun _ => by simp

theorem settles_quadraticCurve :
    (tagged "quadraticCurveTo" (QuadraticCurve.fields (R := R))).record.Gives
      (tagged "quadraticCurveTo" QuadraticCurve.fields).record.Settles :=
  settles_tagged (fun _ => .required (exact_scalar _) <| .required (exact_scalar _) <|
      .required (exact_scalar _) <| .map <| rereads_required (exact_scalar _))
    (Model.usable .quadraticCurve) fun _ => by simp

theorem settles_bezierCurve : (tagged "bezierCurveTo" (BezierCurve.fields (R := R))).record.Gives
    (tagged "bezierCurveTo" BezierCurve.fields).record.Settles := by
  -- all are written whatever they are
  have hwritten (p : BezierCurve R × Members R) : ∀ n ∈ Model.names .bezierCurve,
      n.Settled ((tagged "bezierCurveTo" BezierCurve.fields).record.write p) := by
    simp only [Model.names, List.forall_mem_cons]
    exact ⟨id, fun _ => rfl, fun _ => rfl, fun _ => rfl, fun _ => rfl, id, id,
      List.forall_mem_nil _⟩
  exact settles_tagged (fun _ => .required (exact_scalar _) <| .required (exact_scalar _) <|
      .required (exact_scalar _) <| .required (exact_scalar _) <| .required (exact_scalar _) <|
      .map <| rereads_required (exact_scalar _))
    (Model.usable .bezierCurve) hwritten

theorem settles_arc : (tagged "arc" (Arc.fields (R := R))).record.Gives
    (tagged "arc" Arc.fields).record.Settles := by
  have hwritten (p : Arc R × Members R) :
      ∀ n ∈ Model.names .arc, n.Settled ((tagged "arc" Arc.fields).record.write p) := by
    simp only [Model.names, List.forall_mem_cons]
    exact ⟨id, id, id, id, fun _ => rfl, fun _ => rfl, id, List.forall_mem_nil _⟩
  exact settles_tagged (fun _ => .optional (exact_flag.option _) <| .required (exact_scalar _) <|
      .required (exact_scalar _) <| .required (exact_scalar _) <| .required (exact_scalar _) <|
      .map <| rereads_required (exact_scalar _))
    (Model.usable .arc) hwritten

theorem settles_arcTo : (tagged "arcTo" (TangentArc.fields (R := R))).record.Gives
    (tagged "arcTo" TangentArc.fields).record.Settles :=
  settles_tagged (fun _ => .required (exact_scalar _) <| .required (exact_scalar _) <|
      .required (exact_scalar _) <| .required (exact_scalar _) <| .map <|
      rereads_required (exact_scalar _))
    (Model.usable .tangentArc) fun _ => by simp

theorem settles : (codec : Codec R (PathCommand R)).Gives codec.Settles := by
  intro j hproper c h
  change read j = .ok c at h
  unfold read at h
  split at h
  · split at h
    · exact settles_of_readAs (settles_position _) (fun _ => rfl) (fun _ => rfl) hproper h
    · exact settles_of_readAs (settles_position _) (fun _ => rfl) (fun _ => rfl) hproper h
    · exact settles_of_readAs settles_closePath (fun _ => rfl) (fun _ => rfl) hproper h
    · exact settles_of_readAs settles_quadraticCurve (fun _ => rfl) (fun _ => rfl) hproper h
    · exact settles_of_readAs settles_bezierCurve (fun _ => rfl) (fun _ => rfl) hproper h
    · exact settles_of_readAs settles_arc (fun _ => rfl) (fun _ => rfl) hproper h
    · exact settles_of_readAs settles_arcTo (fun _ => rfl) (fun _ => rfl) hproper h
    · cases h
    · cases h
  · cases h

theorem write_ne_null (c : PathCommand R) : codec.write c ≠ .null := by
  obtain ⟨step, extras⟩ := c
  cases step <;> exact write_record_ne_null _

end PathCommand

theorem Stroke.rereads (s : Stroke R) : fields.Rereads s names (some s) fun _ => True := by
  have h : fields.Rereads s _ (some s) _ :=
    .optional (exact_number.option _) <| .map <| rereads_optional (exact_text.option _)
  exact h.anyway

theorem Base.settles : (fields : Fields R (Base R) (Base R)).Gives fun b =>
    fields.SettlesIff names b True := by
  refine .skip <| .seq (gives_optional Clip.settles) <| .skip <| .skip <| .skip <| .skip <| .skip <|
    .skip <| .skip <| .skip <| .skip <| .start ?_
  intro id x y rotation opacity scale scaleX scaleY z anchor clip hclip blur
  obtain ⟨clip', hread, hsame⟩ := Settles.option hclip
  have h : fields.Rereads
      ⟨id, x, y, rotation, opacity, scale, scaleX, scaleY, z, anchor, clip, blur⟩ _ _ _ :=
    .optional (exact_number.option _) <| .optional hread <|
      .optional ((exact_choice Anchor.ofName?_name).option _) <|
      .optional (exact_number.option _) <| .optional (exact_number.option _) <|
      .optional (exact_number.option _) <| .optional (exact_number.option _) <|
      .optional (exact_number.option _) <| .optional (exact_number.option _) <|
      .optional (exact_number.option _) <| .optional (exact_number.option _) <| .map <|
      rereads_optional (exact_text.option _)
  exact h.settlesIff rfl (.append (.append (.refl _) (hsame.written rfl rfl)) (.refl _))

instance : (Base.fields (R := R)).Trims := clears_base.trims

def Shape.model : Shape R → Model
  | text .. => .text
  | image .. => .image
  | rect .. => .rect
  | line .. => .line
  | point .. => .point
  | circle .. => .circle
  | ellipse .. => .ellipse
  | path .. => .path

def ReferenceKind.model : ReferenceKind R → Model
  | component _ => .componentReference
  | scene => .sceneReference

namespace Object

def model : Object R → Model
  | shape _ s _ => s.model
  | group .. => .group
  | reference _ ref _ => ref.kind.model

def transition? : Object R → Option (GroupTransition R)
  | shape .. => none
  | group _ _ info _ => info.transition
  | reference _ ref _ => ref.transition

/-- No field of the object itself or of its transition was given under its other spelling beside a
null. -/
structure Steady (o : Object R) : Prop where
  settled : ∀ n ∈ o.model.names, n.Settled o.write
  transition : ∀ t, o.transition? = some t → t.Steady

/-- Lists of objects whose parts are all steady. -/
def AllSteady (objects : List (Object R)) : Prop := ∀ o ∈ Address.walk objects, o.Steady

theorem allSteady_nil : AllSteady ([] : List (Object R)) := fun o ho => by
  simp [Address.walk] at ho

theorem allSteady_cons {o : Object R} {rest : List (Object R)} :
    AllSteady (o :: rest) ↔ o.Steady ∧ AllSteady o.children ∧ AllSteady rest := by
  rw [AllSteady, Address.walk_cons, List.forall_mem_append, List.forall_mem_cons, and_assoc]
  rfl

theorem allSteady_single {o : Object R} : AllSteady [o] ↔ (∀ n ∈ o.model.names, n.Settled o.write) ∧
    (∀ t, o.transition? = some t → t.Steady) ∧ AllSteady o.children := by
  rw [allSteady_cons]
  exact ⟨fun h => ⟨h.1.settled, h.1.transition, h.2.1⟩,
    fun h => ⟨⟨h.1, h.2.1⟩, h.2.2, allSteady_nil⟩⟩

theorem allSteady_iff {objects : List (Object R)} :
    AllSteady objects ↔ ∀ o ∈ objects, AllSteady [o] := by
  induction objects with
  | nil => simp [allSteady_nil]
  | cons o rest ih =>
    rw [List.forall_mem_cons, ← ih, allSteady_cons, allSteady_cons]
    simp only [allSteady_nil, and_true, and_assoc]

theorem allSteady_shape {b : Base R} {s : Shape R} {e : Members R} : AllSteady [shape b s e] ↔
    ∀ n ∈ s.model.names, n.Settled (shape b s e).write := by
  rw [allSteady_single]
  exact ⟨fun h => h.1, fun h => ⟨h, nofun, allSteady_nil⟩⟩

/-- A way to read objects that reads an object back exactly if all its parts are steady. -/
def ReadsBack (read : Json R → Checked (Object R)) : Prop :=
  Codec.Gives ⟨read, write⟩ fun o => Codec.Settles ⟨read, write⟩ o ↔ AllSteady [o]

/-- A way to read objects of a kind that reads an object back exactly if all its parts are
steady. -/
def ReadsKindBack (kind : String) (read : Json R → Checked (Object R)) : Prop :=
  Codec.Gives ⟨read, write⟩ fun o => o.write.member? "type" = some (.str kind) ∧
    (Codec.Settles ⟨read, write⟩ o ↔ AllSteady [o])

theorem write_declared {kind : String} {f : Fields R α α} {b : Base R} {a : α} :
    (declared kind f).write (b, a) =
      Base.fields.write b ++ [("type", .str kind)] ++ f.write a := by
  rw [declared, write_seq, write_seq, write_map, write_within, write_within, write_tag]

/-- What every object can declare settles, so that its own fields decide. -/
theorem settlesIff_declared {kind : String} {f : Fields R α α} {names : List FieldName} {b : Base R}
    {a : α} {P : Prop} (hb : Base.fields.SettlesIff Base.names b True)
    (ha : f.SettlesIff names a P) :
    (declared kind f).SettlesIff (Model.objectNames names) (b, a) P := by
  obtain ⟨backBase, sameBase, hbase, hsettles, -⟩ := hb
  obtain ⟨back, same, hown, hto, hof⟩ := ha
  refine ⟨_, _, .seq (.seq (.map (.within hbase)) (rereads_tag "type" kind)) (.within hown),
    fun hP => ?_, ?_⟩
  · obtain ⟨b', rfl, hsame⟩ := hsettles trivial
    obtain ⟨a', rfl, hsame'⟩ := hto hP
    refine ⟨(b', a'), rfl, ?_⟩
    rw [write_declared, write_declared]
    exact .append (.append hsame (.refl _)) hsame'
  · rintro p' hback ⟨-, hsame⟩
    obtain ⟨g, a', hg, ha', rfl⟩ := applied_eq_some.mp hback
    obtain ⟨g', u, hg', -, rfl⟩ := applied_eq_some.mp hg
    obtain ⟨b', -, rfl⟩ := Option.map_eq_some_iff.mp hg'
    exact hof a' ha' hsame

/-- An object of a kind settles exactly if no member stands under the other spelling of a field that
is not written, and its own fields settle. -/
theorem settles_tagged {kind : String} {f : Fields R α α} {Part : α → Prop}
    {names : List FieldName} (hf : f.Gives fun a => f.SettlesIff names a (Part a))
    (husable : Usable (Model.objectNames names)) :
    (tagged kind f).record.Gives fun p => (tagged kind f).record.Settles p ↔
      (∀ n ∈ Model.objectNames names, n.Settled ((tagged kind f).record.write p)) ∧
        Part p.1.2 := by
  have hdeclared : (declared kind f).Gives fun d =>
      (declared kind f).SettlesIff (Model.objectNames names) d (Part d.2) :=
    .seq (.within hf) <| .skip <| .map (.within Base.settles) fun _ hb _ _ ha =>
      settlesIff_declared hb ha
  refine gives_record (.map (.within hdeclared) ?_)
  rintro d ⟨back, same, h, hto, hof⟩ extras hextras
  refine settles_record_iff (.map (.within h)) husable hextras (.start fun _ _ => rfl)
    (fun hpart => ?_) fun g hg hsame => ?_
  · obtain ⟨d', rfl, hsame⟩ := hto hpart
    refine ⟨_, rfl, ?_⟩
    rw [write_map, write_map, write_within, write_within]
    exact hsame
  · obtain ⟨d', hd', rfl⟩ := Option.map_eq_some_iff.mp hg
    exact hof d' hd' hsame

theorem lacks_type (b : Base R) : Members.Lacks "type" (Base.fields.write b) := by
  rw [Members.Lacks]
  simp only [Base.fields, Fields.forall_mem_combine, Fields.forall_mem_map,
    Fields.forall_mem_optional]
  simp [FieldName.same]

/-- The kind of an object is written under its name. -/
theorem member_type {kind : String} {f : Fields R α α} {b : Base R} {a : α} {e : Members R} :
    Json.member? "type" (.obj (written kind f b a ++ e)) = some (.str kind) := by
  change Members.get? "type" _ = _
  rw [written, write_declared, List.append_assoc, List.append_assoc, Members.get?_append,
    Members.lacks_iff_get?.mp (lacks_type b)]
  rfl

theorem write_tagged {kind : String} {f : Fields R α α} {p : (Base R × α) × Members R} :
    (tagged kind f).record.write p =
      .obj (written kind f p.1.1 p.1.2 ++ Members.filled p.2) := by
  change Json.obj ((tagged kind f).write p) = _
  rw [tagged, write_seq, write_map, write_within]
  rfl

section

variable {kind : String} {f : Fields R α α} {toObject : Base R → α → Members R → Object R}
  (hwrite : ∀ b a e, (toObject b a e).write = .obj (written kind f b a ++ Members.filled e))

include hwrite

/-- An object settles as the record does that it is read from. -/
theorem settles_readAs {p : (Base R × α) × Members R} :
    Codec.Settles ⟨readAs kind f toObject, write⟩ (toObject p.1.1 p.1.2 p.2) ↔
      (tagged kind f).record.Settles p := by
  have hwritten (p : (Base R × α) × Members R) :
      (toObject p.1.1 p.1.2 p.2).write = (tagged kind f).record.write p := by
    rw [hwrite, write_tagged]
  have hreread : Codec.reread ⟨readAs kind f toObject, write⟩ (toObject p.1.1 p.1.2 p.2) =
      ((tagged kind f).record.reread p).map fun p => toObject p.1.1 p.1.2 p.2 := by
    change (readAs kind f toObject (toObject p.1.1 p.1.2 p.2).write).toOption = _
    rw [hwritten, readAs, Codec.reread]
    exact Checked.toOption_map
  constructor
  · rintro ⟨o', ⟨-, hread⟩, hsame⟩
    rw [hreread] at hread
    obtain ⟨p', hp', rfl⟩ := Option.map_eq_some_iff.mp hread
    refine ⟨p', ⟨write_record_ne_null p, hp'⟩, ?_⟩
    rw [← hwritten, ← hwritten]
    exact hsame
  · rintro ⟨p', ⟨hnull, hread⟩, hsame⟩
    refine ⟨toObject p'.1.1 p'.1.2 p'.2, ⟨?_, ?_⟩, ?_⟩
    · change (toObject p.1.1 p.1.2 p.2).write ≠ _
      rw [hwritten]
      exact hnull
    · rw [hreread, hread]
      rfl
    · change Json.Same (toObject p'.1.1 p'.1.2 p'.2).write (toObject p.1.1 p.1.2 p.2).write
      rw [hwritten, hwritten]
      exact hsame

/-- Objects are read back exactly if their own fields are. -/
theorem readsBack_readAs (m : Model) {names : List FieldName} {Part : α → Prop}
    (hf : f.Gives fun a => f.SettlesIff names a (Part a))
    (hnames : m.names = Model.objectNames names)
    (hsteady : ∀ b a e, AllSteady [toObject b a e] ↔
      (∀ n ∈ m.names, n.Settled (toObject b a e).write) ∧ Part a) :
    ReadsKindBack kind (readAs kind f toObject) := by
  intro j hproper o h
  change readAs kind f toObject j = .ok o at h
  rw [readAs] at h
  cases hp : (tagged kind f).record.read j with
  | error issues =>
    rw [hp] at h
    cases h
  | ok p =>
    rw [hp] at h
    cases h
    have husable : Usable (Model.objectNames names) := by
      rw [← hnames]
      exact m.usable
    refine ⟨by rw [hwrite, member_type], (settles_readAs hwrite).trans ?_⟩
    refine (settles_tagged hf husable j hproper p hp).trans ?_
    rw [hsteady, hwrite, write_tagged, hnames]

end

/-- Shapes without parts that are records are read back. -/
theorem readsBack_shape (m : Model) {kind : String} {f : Fields R α α} {toShape : α → Shape R}
    {names : List FieldName} {same : α → α → Prop} (hf : ∀ a, f.Rereads a names (some a) (same a))
    (hnames : m.names = Model.objectNames names) (hmodel : ∀ a, (toShape a).model = m)
    (hwrite : ∀ b a e,
      (shape b (toShape a) e).write = .obj (written kind f b a ++ Members.filled e)) :
    ReadsKindBack kind (readShape kind f toShape) := by
  have hsettles : f.Gives fun a => f.SettlesIff names a True := fun _ _ a _ =>
    (hf a).settlesIff rfl (.refl _)
  refine readsBack_readAs hwrite m hsettles hnames fun b a e => ?_
  rw [allSteady_shape, hmodel, and_true]

theorem readsTextBack : ReadsKindBack "text" (readShape "text" (TextShape.fields (R := R)) .text) :=
  readsBack_shape .text (fun _ => .seq (.optional (exact_flag.option _) <|
      .optional (exact_flag.option _) <| .optional (exact_flag.option _) <|
      .optional ((exact_choice Alignment.ofName?_name).option _) <|
      .optional (exact_text.option _) <| .optional (exact_number.option _) <|
      .optional (exact_text.option _) <| .map <| rereads_optional (exact_text.option _))
      (.within (Stroke.rereads _)))
    rfl (fun _ => rfl) fun _ _ _ => rfl

theorem readsImageBack : ReadsKindBack "image" (readShape "image" (Image.fields (R := R)) .image) :=
  readsBack_shape .image (fun _ => .optional (exact_number.option _) <|
      .optional (exact_number.option _) <| .map <| rereads_optional (exact_text.option _))
    rfl (fun _ => rfl) fun _ _ _ => rfl

theorem readsRectBack : ReadsKindBack "rect" (readShape "rect" (Rect.fields (R := R)) .rect) :=
  readsBack_shape .rect (fun _ => .seq (.optional (exact_text.option _) <|
      .optional (exact_number.option _) <| .map <| rereads_optional (exact_number.option _))
      (.within (Stroke.rereads _)))
    rfl (fun _ => rfl) fun _ _ _ => rfl

theorem readsLineBack : ReadsKindBack "line" (readShape "line" (Line.fields (R := R)) .line) :=
  readsBack_shape .line (fun _ => .seq (.optional (exact_number.option _) <| .map <|
      rereads_optional (exact_number.option _)) (.within (Stroke.rereads _)))
    rfl (fun _ => rfl) fun _ _ _ => rfl

theorem readsPointBack : ReadsKindBack "point" (readShape "point" (Point.fields (R := R)) .point) :=
  readsBack_shape .point (fun _ => .optional (exact_text.option _) <| .map <|
      rereads_optional (exact_number.option _))
    rfl (fun _ => rfl) fun _ _ _ => rfl

theorem readsCircleBack :
    ReadsKindBack "circle" (readShape "circle" (Circle.fields (R := R)) .circle) :=
  readsBack_shape .circle (fun _ => .seq (.optional (exact_text.option _) <| .map <|
      rereads_optional (exact_number.option _)) (.within (Stroke.rereads _)))
    rfl (fun _ => rfl) fun _ _ _ => rfl

theorem readsEllipseBack :
    ReadsKindBack "ellipse" (readShape "ellipse" (Ellipse.fields (R := R)) .ellipse) :=
  readsBack_shape .ellipse (fun _ => .seq (.optional (exact_text.option _) <|
      .optional (exact_number.option _) <| .map <| rereads_optional (exact_number.option _))
      (.within (Stroke.rereads _)))
    rfl (fun _ => rfl) fun _ _ _ => rfl

theorem readsPathBack : ReadsKindBack "path" (readShape "path" (Path.fields (R := R)) .path) := by
  have hparts : (Path.fields (R := R)).Gives fun p => Path.fields.SettlesIff
      (FieldName.same "commands" :: FieldName.same "fill" :: Stroke.names) p True := by
    refine .skip <| .skip <| .map (gives_defaulted PathCommand.settles.list (by simp)) ?_
    intro commands hcommands fill stroke
    obtain ⟨commands', hread, hsame⟩ := (settles_list PathCommand.write_ne_null).mpr hcommands
    have h : Path.fields.Rereads ⟨commands, fill, stroke⟩ _ _ _ :=
      .seq (.optional (exact_text.option _) <| .map <| rereads_defaulted hread)
        (.within (Stroke.rereads _))
    exact h.settlesIff rfl (.append (.append (.single hsame) (.refl _)) (.refl _))
  refine readsBack_readAs (fun _ _ _ => rfl) .path hparts rfl fun b p e => ?_
  rw [allSteady_shape, and_true]
  rfl

/-- How an object is written depends on how its own fields are written. -/
theorem written_congr {kind : String} {f f' : Fields R α α} (h : f.write = f'.write) (b : Base R)
    (a : α) : written kind f b a = written kind f' b a := by
  rw [written, written, write_declared, write_declared, h]

theorem allSteady_reference {b : Base R} {ref : Reference R} {e : Members R} :
    AllSteady [reference b ref e] ↔
      (∀ n ∈ ref.kind.model.names, n.Settled (reference b ref e).write) ∧
        ∀ t, ref.transition = some t → t.Steady := by
  rw [allSteady_single]
  exact ⟨fun h => ⟨h.1, h.2.1⟩, fun h => ⟨h.1, h.2, allSteady_nil⟩⟩

omit [Scalar R] in
/-- The transition of an object is read back exactly if it is steady. -/
theorem exists_rereads_transition {room : Nat} {transition : Option (GroupTransition R)}
    (h : ∀ t, transition = some t → ((GroupTransition.codec room).Settles t ↔ t.Steady)) :
    ∃ back, (GroupTransition.codec room).RereadsOption transition back ∧
      ((∃ v, back = some v ∧ (GroupTransition.codec room).SameOption v transition) ↔
        ∀ t, transition = some t → t.Steady) := by
  obtain ⟨back, hread, hiff⟩ := exists_rereadsOption
    (fun t => write_record_ne_null (f := GroupTransition.fields room) t) transition
  exact ⟨back, hread, hiff.trans (forall₂_congr h)⟩

theorem readsSceneBack (room : Nat) :
    ReadsKindBack "scene" (readAs "scene" (SceneParts.fields (R := R) room) ofScene) := by
  have hparts : (SceneParts.fields (R := R) room).Gives fun s =>
      (SceneParts.fields room).SettlesIff ["source", "start", "duration", "transition"] s
        (∀ t, s.transition = some t → t.Steady) := by
    refine .seq (gives_optional (GroupTransition.settles_iff room)) <| .skip <| .skip <| .start ?_
    intro source start duration transition htransition
    obtain ⟨back, hread, hiff⟩ := exists_rereads_transition htransition
    refine ⟨_, _, .optional hread <| .optional (exact_quantity.option _) <|
      .optional (exact_quantity.option _) <| .map <| rereads_optional (exact_text.option _),
      fun hsteady => ?_, ?_⟩
    · obtain ⟨transition', rfl, hsame⟩ := hiff.mpr hsteady
      exact ⟨⟨source, start, duration, transition'⟩, rfl,
        .append (.refl _) (hsame.written rfl rfl)⟩
    · rintro s' hs' ⟨-, hsame⟩
      obtain ⟨g, transition', hg, htransition', rfl⟩ := applied_eq_some.mp hs'
      obtain rfl := Option.some.inj hg
      exact hiff.mp ⟨transition', htransition', hsame⟩
  refine readsBack_readAs (fun b s e => ?_) .sceneReference hparts rfl fun b s e =>
    allSteady_reference
  have hwrite : (SceneParts.fields (R := R) room).write = (SceneParts.fields maxLevels).write := rfl
  rw [written_congr hwrite]
  rfl

theorem readsComponentBack (room : Nat) : ReadsKindBack "component"
    (readAs "component" (ComponentParts.fields (R := R) room) ofComponent) := by
  have hparts : (ComponentParts.fields (R := R) room).Gives fun c =>
      (ComponentParts.fields room).SettlesIff
        ["source", "start", "duration", "params", "transition"] c
        (∀ t, c.transition = some t → t.Steady) := by
    refine .seq (gives_optional (GroupTransition.settles_iff room)) <| .skip <| .skip <| .skip <|
      .start ?_
    intro source start duration params transition htransition
    obtain ⟨back, hread, hiff⟩ := exists_rereads_transition htransition
    refine ⟨_, _, .optional hread <| .defaulted (exact_rawMap _) <|
      .optional (exact_quantity.option _) <| .optional (exact_quantity.option _) <| .map <|
      rereads_optional (exact_text.option _), fun hsteady => ?_, ?_⟩
    · obtain ⟨transition', rfl, hsame⟩ := hiff.mpr hsteady
      exact ⟨⟨source, start, duration, params, transition'⟩, rfl,
        .append (.refl _) (hsame.written rfl rfl)⟩
    · rintro c' hc' ⟨-, hsame⟩
      obtain ⟨g, transition', hg, htransition', rfl⟩ := applied_eq_some.mp hc'
      obtain rfl := Option.some.inj hg
      exact hiff.mp ⟨transition', htransition', hsame⟩
  refine readsBack_readAs (fun b c e => ?_) .componentReference hparts rfl fun b c e =>
    allSteady_reference
  have hwrite : (ComponentParts.fields (R := R) room).write =
      (ComponentParts.fields maxLevels).write := rfl
  rw [written_congr hwrite]
  rfl

theorem writeAll_eq_map (objects : List (Object R)) : writeAll objects = objects.map write := by
  induction objects with
  | nil => rfl
  | cons o rest ih => rw [writeAll, ih, List.map_cons]

/-- How an object is read depends on how its own fields are read. -/
theorem readAs_congr {kind : String} {f f' : Fields R α α}
    {toObject : Base R → α → Members R → Object R} (h : f.read = f'.read) :
    readAs kind f toObject = readAs kind f' toObject := by
  have hdeclared : (declared kind f).read = (declared kind f').read :=
    read_seq_congr rfl (read_within_congr h)
  have htagged : (tagged kind f).record.read = (tagged kind f').record.read :=
    read_record_congr (read_seq_congr (read_map_congr (read_within_congr hdeclared)) rfl)
  funext j
  rw [readAs, readAs, htagged]

theorem write_group {child : Json R → Checked (Object R)} (room : Nat) (b : Base R)
    (g : GroupParts R (Object R)) (e : Members R) : (group b g.children g.info e).write =
      .obj (written "group" (GroupParts.fields room ⟨child, write⟩) b g ++ Members.filled e) := by
  have hchildren : (Codec.list Codec.raw).write (writeAll g.children) =
      (Codec.list ⟨child, write⟩).write g.children := by
    rw [writeAll_eq_map]
    simp [Codec.list, Codec.raw]
  have hparts : (GroupParts.fields maxLevels Codec.raw).write ⟨writeAll g.children, g.info⟩ =
      (GroupParts.fields room ⟨child, write⟩).write g := by
    simp only [GroupParts.fields, write_seq, write_map]
    simp only [Fields.defaulted, hchildren]
    rfl
  change Json.obj (written "group" (GroupParts.fields maxLevels Codec.raw) b
    ⟨writeAll g.children, g.info⟩ ++ Members.filled e) = _
  rw [written, written, write_declared, write_declared, hparts]

theorem write_ne_null (o : Object R) : o.write ≠ .null := by
  cases o <;> simp [write]

/-- Children are read back exactly if all their parts are steady. -/
theorem exists_rereads_children {child : Json R → Checked (Object R)} {children : List (Object R)}
    (h : ∀ o ∈ children, Codec.Settles ⟨child, write⟩ o ↔ AllSteady [o]) :
    ∃ back, (Codec.list ⟨child, write⟩).Rereads children back ∧
      ((∃ v, back = some v ∧ Json.Same ((Codec.list ⟨child, write⟩).write v)
        ((Codec.list ⟨child, write⟩).write children)) ↔ AllSteady children) := by
  obtain ⟨back, hread, hiff⟩ :=
    exists_rereads (c := Codec.list ⟨child, write⟩) (a := children) (by simp [Codec.list])
  refine ⟨back, hread, hiff.trans ((settles_list write_ne_null).trans ?_)⟩
  rw [allSteady_iff]
  exact forall₂_congr h

theorem settles_groupParts {child : Json R → Checked (Object R)} (hchild : ReadsBack child)
    (room : Nat) : (GroupParts.fields room ⟨child, write⟩).Gives fun g =>
      (GroupParts.fields room ⟨child, write⟩).SettlesIff ["children", "start", "duration",
          ⟨"animationSpeed", "animation_speed"⟩, "animations", "transition",
          ⟨"expandedFrom", "expanded_from"⟩, ⟨"resolvedAnimations", "resolved_animations"⟩] g
        ((∀ t, g.info.transition = some t → t.Steady) ∧ AllSteady g.children) := by
  refine .seq (gives_defaulted (Entry.settles room).list (by simp)) <| .skip <|
    .seq (gives_optional (GroupTransition.settles_iff room)) <|
    .seq (gives_defaulted (Entry.settles room).list (by simp)) <| .skip <| .skip <| .skip <|
    .map (gives_defaulted hchild.list (by simp)) ?_
  intro children hchildren start duration speed animations hanimations transition htransition
    expandedFrom resolved hresolved
  obtain ⟨backs, hread, hiff⟩ := exists_rereads_children hchildren
  obtain ⟨animations', hread₁, hsame₁⟩ := (settles_list Entry.write_ne_null).mpr hanimations
  obtain ⟨back, hread₂, hiff'⟩ := exists_rereads_transition htransition
  obtain ⟨resolved', hread₃, hsame₃⟩ := (settles_list Entry.write_ne_null).mpr hresolved
  refine ⟨_, _, .defaulted hread₃ <| .optional (exact_text.option _) <| .optional hread₂ <|
      .defaulted hread₁ <| .optional (exact_scalar.option _) <|
      .optional (exact_quantity.option _) <| .optional (exact_quantity.option _) <| .map <|
      rereads_defaulted hread, fun hsteady => ?_, ?_⟩
  · obtain ⟨transition', rfl, hsame₂⟩ := hiff'.mpr hsteady.1
    obtain ⟨children', rfl, hsame⟩ := hiff.mpr hsteady.2
    exact ⟨GroupParts.ofParts children' start duration speed animations' transition' expandedFrom
        resolved', rfl,
      .append (.append (.append (.append (.append (.append (.append (.single hsame) (.refl _))
        (.refl _)) (.refl _)) (.single hsame₁)) (hsame₂.written rfl rfl)) (.refl _))
        (.single hsame₃)⟩
  · rintro g' hg' ⟨⟨⟨⟨⟨⟨⟨hsame, -⟩, -⟩, -⟩, -⟩, hsame₂⟩, -⟩, -⟩
    cases backs with
    | none => cases hg'
    | some children' =>
      cases back with
      | none => cases hg'
      | some transition' =>
        obtain rfl := Option.some.inj hg'
        exact ⟨hiff'.mp ⟨transition', rfl, hsame₂⟩, hiff.mp ⟨children', rfl, hsame⟩⟩

theorem readsGroupBack {child : Json R → Checked (Object R)} (hchild : ReadsBack child)
    (room : Nat) : ReadsKindBack "group" (readGroup room child) := by
  have hread : readGroup room child = readAs "group" (GroupParts.fields room ⟨child, write⟩)
      fun b g => .group b g.children g.info := by
    unfold readGroup
    exact readAs_congr <| read_seq_congr (read_seq_congr (read_seq_congr (read_seq_congr
      (read_seq_congr (read_seq_congr (read_seq_congr (read_map_congr rfl) rfl) rfl) rfl) rfl)
      rfl) rfl) rfl
  rw [hread]
  exact readsBack_readAs (write_group room) .group (settles_groupParts hchild room) rfl
    fun b g e => allSteady_single

theorem readsLeafBack {room : Nat} {kind : String} {read : Json R → Checked (Object R)}
    (h : readLeaf? room kind = some read) : ReadsKindBack kind read := by
  unfold readLeaf? at h
  split at h <;> cases h
  · exact readsTextBack
  · exact readsImageBack
  · exact readsRectBack
  · exact readsLineBack
  · exact readsPointBack
  · exact readsCircleBack
  · exact readsEllipseBack
  · exact readsPathBack
  · exact readsComponentBack room
  · exact readsSceneBack room

/-- Where there is no room for a record, none is read. -/
theorem readsNothingBack (kind : String) (issue : IssueKind) :
    ReadsKindBack kind fun _ => (Checked.fail issue : Checked (Object R)) :=
  fun _ _ _ h => nomatch h

theorem readsKindBack {nest : Nest R}
    (hnest : ∀ room child, nest.group = some (room, child) → ReadsBack child) {kind : String}
    {read : Json R → Checked (Object R)} (h : readKind? nest kind = some read) :
    ReadsKindBack kind read := by
  rw [readKind?] at h
  split at h
  · rename_i hkind
    rw [beq_iff_eq] at hkind
    subst hkind
    cases h
    cases hgroup : nest.group with
    | none => exact readsNothingBack _ _
    | some p => exact readsGroupBack (hnest p.1 p.2 hgroup) p.1
  · obtain ⟨leaf, hleaf, rfl⟩ := Option.map_eq_some_iff.mp h
    split
    · exact readsLeafBack hleaf
    · exact readsNothingBack _ _

theorem readsTaggedBack {nest : Nest R}
    (hnest : ∀ room child, nest.group = some (room, child) → ReadsBack child) :
    ReadsBack (readTagged nest) := by
  intro j hproper o h
  change readTagged nest j = .ok o at h
  unfold readTagged at h
  split at h
  · split at h
    · cases h
    · split at h
      · rename_i kind _ _ readIt hkind
        obtain ⟨htype, hsettles⟩ :=
          readsKindBack hnest hkind _ hproper o (Checked.under_eq_ok.mp h)
        have hreread : Codec.reread ⟨readTagged nest, write⟩ o =
            Codec.reread ⟨readIt, write⟩ o := by
          change (readTagged nest o.write).toOption = (readIt o.write).toOption
          cases hwritten : o.write with
          | obj members =>
            rw [hwritten] at htype
            have hget : Members.get? "type" members = some (.str kind) := htype
            simp only [readTagged, hget, hkind, Checked.toOption_under]
          | _ =>
            rw [hwritten] at htype
            cases htype
        exact (settles_congr hreread rfl).trans hsettles
      · cases h
    · cases h
  · cases h

/-- Objects are read back at every level of nesting. -/
theorem readsBack (leavesCount : Bool) (room : Nat) :
    ReadsBack (read (R := R) leavesCount room) := by
  induction room with
  | zero => exact readsTaggedBack fun _ _ h => nomatch h
  | succ room ih =>
    refine readsTaggedBack fun _ _ h => ?_
    cases h
    exact ih

end Object

end

end Storyboard
