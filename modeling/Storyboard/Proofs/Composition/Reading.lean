import Storyboard.Proofs.Address
import Storyboard.Proofs.Composition.Values
import Storyboard.Proofs.Schema

namespace Storyboard

variable {R : Type}

namespace Members

theorem ne_of_mem_erase {α : Type} {name : String} {ms : List (String × α)} {m : String × α}
    (h : m ∈ erase name ms) : m.1 ≠ name ∧ m ∈ ms := by
  induction ms with
  | nil => simp [erase] at h
  | cons first rest ih =>
    obtain ⟨n, v⟩ := first
    rw [erase] at h
    split at h
    · exact (ih h).imp_right (List.mem_cons_of_mem _)
    · rename_i hne
      rcases List.mem_cons.mp h with rfl | h
      · exact ⟨by simpa using hne, List.mem_cons_self⟩
      · exact (ih h).imp_right (List.mem_cons_of_mem _)

theorem ne_of_get?_eq_none {α : Type} {name : String} {ms : List (String × α)}
    (h : get? name ms = none) : ∀ m ∈ ms, m.1 ≠ name := by
  induction ms with
  | nil => simp
  | cons first rest ih =>
    obtain ⟨n, v⟩ := first
    rw [get?] at h
    split at h
    · cases h
    · rename_i hne
      exact List.forall_mem_cons.mpr ⟨by simpa using hne, ih h⟩

end Members

theorem FieldName.ne_of_mem_take {name : FieldName} {ms : Members R} {m : String × Json R}
    (h : m ∈ (name.take ms).2) : m.1 ≠ name.wire ∧ m ∈ ms := by
  rw [take] at h
  split at h
  · exact Members.ne_of_mem_erase h
  · rename_i hwire
    have hrest : m ∈ ms := by
      split at h
      · exact (Members.ne_of_mem_erase h).2
      · exact h
    exact ⟨Members.ne_of_get?_eq_none hwire m hrest, hrest⟩

namespace Fields

variable {ρ σ α β : Type}

/-- What fields leave of the members that they are read from are members of other names. -/
def Clears (f : Fields R ρ α) (names : List String) : Prop :=
  ∀ ms, ∀ m ∈ (f.read ms).2, m.1 ∉ names ∧ m ∈ ms

theorem Clears.seq {f : Fields R ρ (α → β)} {x : Fields R ρ α} {names more : List String}
    (hf : f.Clears names) (hx : x.Clears more) : (f <*> x).Clears (names ++ more) := by
  intro ms m hm
  obtain ⟨hmore, hm⟩ := hx _ m hm
  obtain ⟨hnames, hm⟩ := hf ms m hm
  exact ⟨by simp [hnames, hmore], hm⟩

theorem Clears.map {f : α → β} {x : Fields R ρ α} {names : List String} (h : x.Clears names) :
    (f <$> x).Clears names := h

theorem Clears.within {part : σ → ρ} {f : Fields R ρ α} {names : List String}
    (h : f.Clears names) : (f.within part).Clears names := h

theorem read_within {part : σ → ρ} {f : Fields R ρ α} : (f.within part).read = f.read := rfl

theorem clears_of_take {f : Fields R ρ α} {name : FieldName}
    (h : ∀ ms, (f.read ms).2 = (name.take ms).2) : f.Clears [name.wire] := by
  intro ms m hm
  rw [h] at hm
  simpa using FieldName.ne_of_mem_take hm

theorem left_optional (name : FieldName) (c : Codec R α) (get : ρ → Option α) (ms : Members R) :
    ((optional name c get).read ms).2 = (name.take ms).2 := by
  rw [optional]
  dsimp only
  split <;> simp_all

theorem clears_optional (name : FieldName) (c : Codec R α) (get : ρ → Option α) :
    (optional name c get).Clears [name.wire] :=
  clears_of_take (left_optional name c get)

theorem left_defaulted (name : FieldName) (c : Codec R α) (default : α) (get : ρ → α)
    (ms : Members R) : ((defaulted name c default get).read ms).2 = (name.take ms).2 := by
  rw [defaulted]
  dsimp only
  split <;> simp_all

theorem clears_defaulted (name : FieldName) (c : Codec R α) (default : α) (get : ρ → α) :
    (defaulted name c default get).Clears [name.wire] :=
  clears_of_take (left_defaulted name c default get)

theorem left_tag (name kind : String) (ms : Members R) :
    ((tag name kind : Fields R ρ Unit).read ms).2 = ((FieldName.same name).take ms).2 := by
  rw [tag]
  dsimp only
  split <;> simp_all

theorem clears_tag (name kind : String) : (tag name kind : Fields R ρ Unit).Clears [name] :=
  clears_of_take (left_tag name kind)

theorem Clears.optional {f : Fields R ρ (Option α → β)} {names : List String} (h : f.Clears names)
    {name : FieldName} {c : Codec R α} {get : ρ → Option α} :
    (f <*> Fields.optional name c get).Clears (names ++ [name.wire]) :=
  h.seq (clears_optional name c get)

theorem Clears.defaulted {f : Fields R ρ (α → β)} {names : List String} (h : f.Clears names)
    {name : FieldName} {c : Codec R α} {default : α} {get : ρ → α} :
    (f <*> Fields.defaulted name c default get).Clears (names ++ [name.wire]) :=
  h.seq (clears_defaulted name c default get)

theorem Clears.mono {f : Fields R ρ α} {names fewer : List String} (h : f.Clears names)
    (hfewer : fewer ⊆ names) : f.Clears fewer :=
  fun ms m hm => (h ms m hm).imp_left (mt (@hfewer m.1))

theorem read_optional_eq_ok {name : FieldName} {c : Codec R α} {get : ρ → Option α}
    {ms : Members R} {a : α} (h : ((optional name c get).read ms).1 = .ok (some a)) :
    ∃ j, c.read j = .ok a := by
  simp only [optional] at h
  split at h
  · cases h
  · rename_i j _ _ _
    refine ⟨j, ?_⟩
    cases hread : c.read j with
    | error issues =>
      rw [hread] at h
      cases h
    | ok found =>
      rw [hread] at h
      cases h
      rfl
  · cases h

theorem read_defaulted_eq_ok {name : FieldName} {c : Codec R α} {default a : α} {get : ρ → α}
    {ms : Members R} (h : ((defaulted name c default get).read ms).1 = .ok a) :
    a = default ∨ ∃ j, c.read j = .ok a := by
  simp only [defaulted] at h
  split at h
  · exact .inr ⟨_, Checked.under_eq_ok.mp h⟩
  · cases h
    exact .inl rfl

/-- The members that no field takes have other names than the fields. -/
theorem read_rest_eq_ok {f : Fields R ρ (Members R → α)} {get : ρ → Members R} {ms : Members R}
    {a : α} (h : ((f <*> rest get).read ms).1 = .ok a) {names : List String}
    (hf : f.Clears names) :
    ∃ g extras, (f.read ms).1 = .ok g ∧ g extras = a ∧ ∀ m ∈ extras, m.1 ∉ names := by
  obtain ⟨g, extras, hg, hextras, rfl⟩ := read_seq_eq_ok.mp h
  cases hextras
  exact ⟨g, _, hg, rfl, fun m hm => (hf ms m hm).1⟩

end Fields

variable [Scalar R]

open Fields

theorem clears_base : (Base.fields (R := R)).Clears (drawnNames ++ ["anchor", "clip"]) :=
  (clears_optional _ _ _).map.optional.optional.optional.optional.optional.optional.optional
    |>.optional.optional.optional.optional.mono (by simp [drawnNames, FieldName.same])

theorem clears_stroke : (Stroke.fields (R := R)).Clears [] :=
  (clears_optional _ _ _).map.optional.mono (by simp)

theorem clears_text : (TextShape.fields (R := R)).Clears ["size"] :=
  ((clears_optional _ _ _).map.optional.optional.optional.optional.optional.optional.optional.seq
    clears_stroke.within).mono (by simp [FieldName.same])

theorem clears_image : (Image.fields (R := R)).Clears ["width", "height"] :=
  (clears_optional _ _ _).map.optional.optional.mono (by simp [FieldName.same])

theorem clears_rect : (Rect.fields (R := R)).Clears ["width", "height"] :=
  ((clears_optional _ _ _).map.optional.optional.seq clears_stroke.within).mono
    (by simp [FieldName.same])

theorem clears_line : (Line.fields (R := R)).Clears [] :=
  ((clears_optional _ _ _).map.optional.seq clears_stroke.within).mono (by simp)

theorem clears_point : (Point.fields (R := R)).Clears [] :=
  (clears_optional _ _ _).map.optional.mono (by simp)

theorem clears_circle : (Circle.fields (R := R)).Clears ["radius"] :=
  ((clears_optional _ _ _).map.optional.seq clears_stroke.within).mono (by simp [FieldName.same])

theorem clears_ellipse : (Ellipse.fields (R := R)).Clears ["radiusX", "radiusY"] :=
  ((clears_optional _ _ _).map.optional.optional.seq clears_stroke.within).mono (by simp)

theorem clears_path : (Path.fields (R := R)).Clears [] :=
  ((clears_defaulted _ _ _ _).map.optional.seq clears_stroke.within).mono (by simp)

theorem clears_group {χ : Type} (room : Nat) (child : Codec R χ) :
    (GroupParts.fields room child).Clears [] :=
  (clears_defaulted _ _ _ _).map.optional.optional.optional.defaulted.optional.optional.defaulted
    |>.mono (by simp)

omit [Scalar R] in
theorem clears_component (room : Nat) : (ComponentParts.fields (R := R) room).Clears [] :=
  (clears_optional _ _ _).map.optional.optional.defaulted.optional.mono (by simp)

omit [Scalar R] in
theorem clears_scene (room : Nat) : (SceneParts.fields (R := R) room).Clears [] :=
  (clears_optional _ _ _).map.optional.optional.optional.mono (by simp)

omit [Scalar R] in
theorem Clip.ne_of_read {j : Json R} {c : Clip R} (h : Clip.codec.read j = .ok c) :
    ∀ m ∈ c.extras, m.1 ∉ sideNames := by
  obtain ⟨ms, h⟩ := read_record_eq_ok h
  obtain ⟨g, extras, h, he, hextras⟩ := read_rest_eq_ok h
    (clears_optional _ _ _).map.optional.optional.optional
  obtain ⟨f₃, height, h, -, he₃⟩ := read_seq_eq_ok.mp h
  obtain ⟨f₂, width, h, -, he₂⟩ := read_seq_eq_ok.mp h
  obtain ⟨f₁, y, h, -, he₁⟩ := read_seq_eq_ok.mp h
  obtain ⟨x, -, he₀⟩ := read_map_eq_ok.mp h
  subst he₀ he₁ he₂ he₃ he
  intro m hm
  have hother := hextras m hm
  simpa [FieldName.same, sideNames] using hother

/-- The clip of a record that was read was read itself. -/
theorem Base.clip_of_read {ms : Members R} {b : Base R} (h : (Base.fields.read ms).1 = .ok b)
    {c : Clip R} (hc : b.clip = some c) : ∃ j, Clip.codec.read j = .ok c := by
  rw [Base.fields] at h
  obtain ⟨f₁₁, blur, h, -, he₁₁⟩ := read_seq_eq_ok.mp h
  obtain ⟨f₁₀, clip, h, hclip, he₁₀⟩ := read_seq_eq_ok.mp h
  obtain ⟨f₉, anchor, h, -, he₉⟩ := read_seq_eq_ok.mp h
  obtain ⟨f₈, z, h, -, he₈⟩ := read_seq_eq_ok.mp h
  obtain ⟨f₇, scaleY, h, -, he₇⟩ := read_seq_eq_ok.mp h
  obtain ⟨f₆, scaleX, h, -, he₆⟩ := read_seq_eq_ok.mp h
  obtain ⟨f₅, scale, h, -, he₅⟩ := read_seq_eq_ok.mp h
  obtain ⟨f₄, opacity, h, -, he₄⟩ := read_seq_eq_ok.mp h
  obtain ⟨f₃, rotation, h, -, he₃⟩ := read_seq_eq_ok.mp h
  obtain ⟨f₂, y, h, -, he₂⟩ := read_seq_eq_ok.mp h
  obtain ⟨f₁, x, h, -, he₁⟩ := read_seq_eq_ok.mp h
  obtain ⟨id, -, he₀⟩ := read_map_eq_ok.mp h
  subst he₀ he₁ he₂ he₃ he₄ he₅ he₆ he₇ he₈ he₉ he₁₀ he₁₁
  cases hc
  exact read_optional_eq_ok hclip

theorem GroupParts.children_of_read {χ : Type} {room : Nat} {child : Codec R χ}
    {ms : Members R} {g : GroupParts R χ} (h : ((GroupParts.fields room child).read ms).1 = .ok g) :
    g.children = [] ∨ ∃ j, (Codec.list child).read j = .ok g.children := by
  rw [GroupParts.fields] at h
  obtain ⟨f₇, resolved, h₇, -, he₇⟩ := read_seq_eq_ok.mp h
  obtain ⟨f₆, expandedFrom, h₆, -, he₆⟩ := read_seq_eq_ok.mp h₇
  obtain ⟨f₅, transition, h₅, -, he₅⟩ := read_seq_eq_ok.mp h₆
  obtain ⟨f₄, animations, h₄, -, he₄⟩ := read_seq_eq_ok.mp h₅
  obtain ⟨f₃, speed, h₃, -, he₃⟩ := read_seq_eq_ok.mp h₄
  obtain ⟨f₂, duration, h₂, -, he₂⟩ := read_seq_eq_ok.mp h₃
  obtain ⟨f₁, start, h₁, -, he₁⟩ := read_seq_eq_ok.mp h₂
  obtain ⟨children, hchildren, he₀⟩ := read_map_eq_ok.mp h₁
  subst he₀ he₁ he₂ he₃ he₄ he₅ he₆ he₇
  exact read_defaulted_eq_ok hchildren

namespace Object

theorem readAs_eq_ok {α : Type} {kind : String} {f : Fields R α α}
    {toObject : Base R → α → Members R → Object R} {j : Json R} {o : Object R}
    (h : readAs kind f toObject j = .ok o) {names : List String} (hf : f.Clears names) :
    ∃ b a extras, toObject b a extras = o ∧ (∃ ms, (f.read ms).1 = .ok a) ∧
      (∀ m ∈ extras, m.1 ∉ drawnNames ++ ["anchor", "clip"] ∧ m.1 ∉ names) ∧
      ∀ c, b.clip = some c → ∀ m ∈ c.extras, m.1 ∉ sideNames := by
  rw [readAs] at h
  cases hread : (tagged kind f).record.read j with
  | error issues =>
    rw [hread] at h
    cases h
  | ok p =>
    rw [hread] at h
    cases h
    rw [tagged, declared] at hread
    obtain ⟨ms, hread⟩ := read_record_eq_ok hread
    obtain ⟨withExtras, extras, hdeclared, rfl, hextras⟩ := read_rest_eq_ok hread
      ((clears_base.within.map.seq (clears_tag "type" kind)).seq hf.within).within.map
    obtain ⟨d, hparts, rfl⟩ := read_map_eq_ok.mp hdeclared
    rw [read_within] at hparts
    obtain ⟨withParts, a, htagged, ha, rfl⟩ := read_seq_eq_ok.mp hparts
    obtain ⟨withTag, u, huntagged, -, rfl⟩ := read_seq_eq_ok.mp htagged
    obtain ⟨b, hbase, rfl⟩ := read_map_eq_ok.mp huntagged
    rw [read_within] at hbase
    refine ⟨b, a, extras, rfl, ⟨_, ha⟩, fun m hm => ?_, fun c hc => ?_⟩
    · have hother := hextras m hm
      exact ⟨fun hname => hother (List.mem_append_left _ (List.mem_append_left _ hname)),
        fun hname => hother (List.mem_append_right _ hname)⟩
    · obtain ⟨j, hj⟩ := Base.clip_of_read hbase hc
      exact Clip.ne_of_read hj

/-- A record that was read as an object is plain, and its own fields have been read. -/
theorem plain_of_readAs {α : Type} {kind : String} {f : Fields R α α}
    {toObject : Base R → α → Members R → Object R} {j : Json R} {o : Object R}
    (h : readAs kind f toObject j = .ok o) (hf : f.Clears (lengthNames kind))
    (hbase : ∀ b a e, (toObject b a e).base = b) (hextras : ∀ b a e, (toObject b a e).extras = e)
    (hkind : ∀ b a e, (toObject b a e).kind = kind) :
    o.Plain ∧ ∃ b a e ms, o = toObject b a e ∧ (f.read ms).1 = .ok a := by
  obtain ⟨b, a, extras, rfl, ⟨ms, ha⟩, hother, hclip⟩ := readAs_eq_ok h hf
  refine ⟨⟨fun m hm => ?_, fun c hc => hclip c (by rw [← hbase b a extras, hc])⟩, b, a, extras, ms,
    rfl, ha⟩
  rw [hextras] at hm
  obtain ⟨hbase, hlength⟩ := hother m hm
  rw [hkind]
  simp only [List.mem_append, List.mem_cons, List.not_mem_nil, or_false, not_or] at hbase ⊢
  exact ⟨⟨hbase.1, hlength⟩, hbase.2⟩

theorem plain_of_readShape {α : Type} {kind : String} {f : Fields R α α} {toShape : α → Shape R}
    {j : Json R} {o : Object R} (h : readShape kind f toShape j = .ok o)
    (hf : f.Clears (lengthNames kind)) (hkind : ∀ a, (toShape a).kind = kind) :
    o.Plain ∧ o.children = [] := by
  obtain ⟨hplain, b, a, e, -, rfl, -⟩ := plain_of_readAs h hf (fun _ _ _ => rfl)
    (fun _ _ _ => rfl) (fun _ a _ => hkind a)
  exact ⟨hplain, rfl⟩

theorem plain_of_readLeaf {room : Nat} {kind : String} {read : Json R → Checked (Object R)}
    (hread : readLeaf? room kind = some read) {j : Json R} {o : Object R} (h : read j = .ok o) :
    o.Plain ∧ o.children = [] := by
  unfold readLeaf? at hread
  split at hread <;> cases hread
  · exact plain_of_readShape h clears_text fun _ => rfl
  · exact plain_of_readShape h clears_image fun _ => rfl
  · exact plain_of_readShape h clears_rect fun _ => rfl
  · exact plain_of_readShape h clears_line fun _ => rfl
  · exact plain_of_readShape h clears_point fun _ => rfl
  · exact plain_of_readShape h clears_circle fun _ => rfl
  · exact plain_of_readShape h clears_ellipse fun _ => rfl
  · exact plain_of_readShape h clears_path fun _ => rfl
  · obtain ⟨hplain, b, a, e, -, rfl, -⟩ := plain_of_readAs h (clears_component room)
      (fun _ _ _ => rfl) (fun _ _ _ => rfl) (fun _ _ _ => rfl)
    exact ⟨hplain, rfl⟩
  · obtain ⟨hplain, b, a, e, -, rfl, -⟩ := plain_of_readAs h (clears_scene room)
      (fun _ _ _ => rfl) (fun _ _ _ => rfl) (fun _ _ _ => rfl)
    exact ⟨hplain, rfl⟩

/-- Lists of objects whose parts are all plain. -/
def AllPlain (objects : List (Object R)) : Prop := ∀ o ∈ Address.walk objects, o.Plain

omit [Scalar R] in
@[simp] theorem allPlain_nil : AllPlain ([] : List (Object R)) := fun o ho => by
  simp [Address.walk] at ho

omit [Scalar R] in
@[simp] theorem allPlain_cons {o : Object R} {rest : List (Object R)} :
    AllPlain (o :: rest) ↔ o.Plain ∧ AllPlain o.children ∧ AllPlain rest := by
  rw [AllPlain, Address.walk_cons, List.forall_mem_append, List.forall_mem_cons, and_assoc]
  rfl

/-- A way to read objects all of whose parts are plain. -/
def ReadsPlain (read : Json R → Checked (Object R)) : Prop := ∀ j o, read j = .ok o → AllPlain [o]

omit [Scalar R] in
theorem ReadsPlain.list {read : Json R → Checked (Object R)} (hread : ReadsPlain read)
    {write : Object R → Json R} {j : Json R} {objects : List (Object R)}
    (h : (Codec.list ⟨read, write⟩).read j = .ok objects) : AllPlain objects := by
  have hitems (n : Nat) (items : List (Json R)) {objects : List (Object R)}
      (h : Checked.indexed read n items = .ok objects) : AllPlain objects := by
    induction items generalizing n objects with
    | nil =>
      cases h
      exact allPlain_nil
    | cons j rest ih =>
      obtain ⟨o, others, ho, hothers, rfl⟩ := Checked.both_eq_ok.mp h
      obtain ⟨hplain, hchildren, -⟩ :=
        allPlain_cons.mp (hread j o (Checked.under_eq_ok.mp ho))
      exact allPlain_cons.mpr ⟨hplain, hchildren, ih _ hothers⟩
  cases j with
  | arr items => exact hitems 0 items h
  | _ => cases h

theorem ReadsPlain.group {child : Json R → Checked (Object R)} (hchild : ReadsPlain child)
    (room : Nat) : ReadsPlain (readGroup room child) := by
  intro j o h
  obtain ⟨hplain, b, a, e, ms, rfl, ha⟩ := plain_of_readAs h (clears_group room _)
    (fun _ _ _ => rfl) (fun _ _ _ => rfl) (fun _ _ _ => rfl)
  refine allPlain_cons.mpr ⟨hplain, ?_, allPlain_nil⟩
  change AllPlain a.children
  rcases GroupParts.children_of_read ha with hnone | ⟨j, hj⟩
  · rw [hnone]
    exact allPlain_nil
  · exact hchild.list hj

theorem readsPlain_tagged {nest : Nest R}
    (hnest : ∀ room child, nest.group = some (room, child) → ReadsPlain child) :
    ReadsPlain (readTagged nest) := by
  intro j o h
  unfold readTagged at h
  split at h
  · split at h
    · cases h
    · split at h
      · rename_i kind _ readIt hkind
        have hread := Checked.under_eq_ok.mp h
        rw [readKind?] at hkind
        split at hkind
        · cases hkind
          cases hgroup : nest.group with
          | none =>
            rw [hgroup] at hread
            cases hread
          | some p =>
            rw [hgroup] at hread
            exact (hnest p.1 p.2 hgroup).group p.1 _ _ hread
        · obtain ⟨leaf, hleaf, rfl⟩ := Option.map_eq_some_iff.mp hkind
          split at hread
          · obtain ⟨hplain, hchildren⟩ := plain_of_readLeaf hleaf hread
            rw [allPlain_cons, hchildren]
            exact ⟨hplain, allPlain_nil, allPlain_nil⟩
          · cases hread
      · cases h
    · cases h
  · cases h

theorem readsPlain_read (leavesCount : Bool) (room : Nat) :
    ReadsPlain (read (R := R) leavesCount room) := by
  induction room with
  | zero => exact readsPlain_tagged fun _ _ h => by cases h
  | succ room ih =>
    refine readsPlain_tagged fun _ _ h => ?_
    cases h
    exact ih

theorem allPlain_of_objectsField {ρ : Type} {get : ρ → List (Object R)} {ms : Members R}
    {objects : List (Object R)} (h : ((objectsField get).read ms).1 = .ok objects) :
    AllPlain objects := by
  rcases read_defaulted_eq_ok h with rfl | ⟨j, hj⟩
  · exact allPlain_nil
  · exact (readsPlain_read true maxLevels).list hj

end Object

theorem Document.allPlain {j : Json R} {doc : Document R}
    (h : readDocument Document.codec j = .ok doc) : Object.AllPlain doc.objects := by
  have hread : Document.codec.read j = .ok doc := by
    rw [readDocument] at h
    cases hc : Document.codec.read j with
    | error issues => rw [hc] at h; cases h
    | ok found => rw [hc] at h; cases h; rfl
  obtain ⟨ms, h⟩ := read_record_eq_ok hread
  rw [fields] at h
  obtain ⟨f₄, extras, h₄, -, he₄⟩ := read_seq_eq_ok.mp h
  obtain ⟨f₃, animations, h₃, -, he₃⟩ := read_seq_eq_ok.mp h₄
  obtain ⟨f₂, objects, h₂, hobjects, he₂⟩ := read_seq_eq_ok.mp h₃
  obtain ⟨f₁, speed, h₁, -, he₁⟩ := read_seq_eq_ok.mp h₂
  obtain ⟨project, -, he₀⟩ := read_map_eq_ok.mp h₁
  subst he₀ he₁ he₂ he₃ he₄
  exact Object.allPlain_of_objectsField hobjects

theorem Component.allPlain {j : Json R} {c : Component R} (h : Component.codec.read j = .ok c) :
    Object.AllPlain c.objects := by
  obtain ⟨ms, h⟩ := read_record_eq_ok h
  rw [fields] at h
  obtain ⟨f₅, extras, h₅, -, he₅⟩ := read_seq_eq_ok.mp h
  obtain ⟨f₄, height, h₄, -, he₄⟩ := read_seq_eq_ok.mp h₅
  obtain ⟨f₃, width, h₃, -, he₃⟩ := read_seq_eq_ok.mp h₄
  obtain ⟨f₂, animations, h₂, -, he₂⟩ := read_seq_eq_ok.mp h₃
  obtain ⟨f₁, objects, h₁, hobjects, he₁⟩ := read_seq_eq_ok.mp h₂
  obtain ⟨parameters, -, he₀⟩ := read_map_eq_ok.mp h₁
  subst he₀ he₁ he₂ he₃ he₄ he₅
  exact Object.allPlain_of_objectsField hobjects

theorem Scene.allPlain {j : Json R} {s : Scene R} (h : Scene.codec.read j = .ok s) :
    Object.AllPlain s.objects := by
  obtain ⟨ms, h⟩ := read_record_eq_ok h
  rw [fields] at h
  obtain ⟨f₃, extras, h₃, -, he₃⟩ := read_seq_eq_ok.mp h
  obtain ⟨f₂, animations, h₂, -, he₂⟩ := read_seq_eq_ok.mp h₃
  obtain ⟨f₁, objects, h₁, hobjects, he₁⟩ := read_seq_eq_ok.mp h₂
  obtain ⟨duration, -, he₀⟩ := read_map_eq_ok.mp h₁
  subst he₀ he₁ he₂ he₃
  exact Object.allPlain_of_objectsField hobjects

end Storyboard
