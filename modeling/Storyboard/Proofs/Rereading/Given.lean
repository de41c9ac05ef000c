import Storyboard.Proofs.Composition.Reading

namespace Storyboard

variable {R ρ σ α β : Type}

/-- Values in whose objects a name stands for one value only. -/
inductive Json.Proper : Json R → Prop
  | null : Json.Proper .null
  | bool (b : Bool) : Json.Proper (.bool b)
  | num (n : Number R) : Json.Proper (.num n)
  | str (s : String) : Json.Proper (.str s)
  | arr {items : List (Json R)} (h : ∀ j ∈ items, Json.Proper j) : Json.Proper (.arr items)
  | obj {ms : Members R} (h : ∀ m ∈ ms, Json.Proper m.2)
      (hnames : ∀ m ∈ ms, ∀ m' ∈ ms, m.1 = m'.1 → m.2 = m'.2) : Json.Proper (.obj ms)

/-- What the codec reads has the property. -/
def Codec.Gives (c : Codec R α) (P : α → Prop) : Prop :=
  ∀ j, j.Proper → ∀ a, c.read j = .ok a → P a

theorem Codec.Gives.list {c : Codec R α} {P : α → Prop} (h : c.Gives P) :
    (Codec.list c).Gives fun as => ∀ a ∈ as, P a := by
  have hitems (n : Nat) (items : List (Json R)) (hproper : ∀ j ∈ items, j.Proper) {as : List α}
      (hread : Checked.indexed c.read n items = .ok as) : ∀ a ∈ as, P a := by
    induction items generalizing n as with
    | nil =>
      cases hread
      simp
    | cons j rest ih =>
      obtain ⟨a, others, ha, hothers, rfl⟩ := Checked.both_eq_ok.mp hread
      obtain ⟨hj, hrest⟩ := List.forall_mem_cons.mp hproper
      exact List.forall_mem_cons.mpr
        ⟨h j hj a (Checked.under_eq_ok.mp ha), ih (n + 1) hrest hothers⟩
  intro j hproper as hread
  cases hproper with
  | arr hitem => exact hitems 0 _ hitem hread
  | _ => cases hread

theorem Codec.Gives.map {c : Codec R α} {P : α → Prop} (h : c.Gives P) :
    (Codec.map c).Gives fun ms => ∀ m ∈ ms, P m.2 := by
  have hmembers (given : Members R) (hproper : ∀ m ∈ given, m.2.Proper)
      {ms : List (String × α)} (hread : Checked.all (fun m => ((c.read m.2).under
        (.key (Text.withoutHalves m.1))).map (m.1, ·)) given = .ok ms) : ∀ m ∈ ms, P m.2 := by
    induction given generalizing ms with
    | nil =>
      cases hread
      simp
    | cons first rest ih =>
      obtain ⟨m, others, hm, hothers, rfl⟩ := Checked.both_eq_ok.mp hread
      obtain ⟨hfirst, hrest⟩ := List.forall_mem_cons.mp hproper
      refine List.forall_mem_cons.mpr ⟨?_, ih hrest hothers⟩
      dsimp only at hm
      cases hvalue : (c.read first.2).under (.key (Text.withoutHalves first.1)) with
      | error issues =>
        rw [hvalue] at hm
        cases hm
      | ok a =>
        rw [hvalue] at hm
        cases hm
        exact h _ hfirst a (Checked.under_eq_ok.mp hvalue)
  intro j hproper ms hread
  cases hproper with
  | obj hvalues => exact hmembers _ hvalues hread
  | _ => cases hread

theorem Codec.Gives.within {c : Codec R α} {P : α → Prop} (h : c.Gives P) (room : Nat) :
    (c.within room).Gives fun a => room ≠ 0 ∧ P a := by
  intro j hproper a hread
  simp only [Codec.within] at hread
  split at hread
  · cases hread
  · rename_i hroom
    exact ⟨by simpa using hroom, h j hproper a hread⟩

/-- The value of a field is one of those that were given. -/
theorem FieldName.proper_of_take {name : FieldName} {ms rest : Members R} {given : String}
    {j : Json R} (hproper : (Json.obj ms).Proper) (h : name.take ms = (some (given, j), rest)) :
    j.Proper := by
  obtain ⟨n, hn⟩ : ∃ n, Members.get? n ms = some j := by
    rw [take] at h
    split at h
    · rename_i hwire
      cases h
      exact ⟨_, hwire⟩
    · split at h
      · rename_i hplain
        cases h
        exact ⟨_, hplain⟩
      · cases h
  cases hproper with
  | obj hvalues => exact hvalues _ (Members.mem_of_get? hn)

namespace Fields

/-- Fields that add nothing to the members that they leave. -/
class Trims (f : Fields R ρ α) : Prop where
  mem_of_mem_left : ∀ ms, ∀ m ∈ (f.read ms).2, m ∈ ms

theorem Clears.trims {f : Fields R ρ α} {names : List String} (h : f.Clears names) : f.Trims :=
  ⟨fun ms m hm => (h ms m hm).2⟩

theorem left_required (name : FieldName) (c : Codec R α) (get : ρ → α) (ms : Members R) :
    ((required name c get).read ms).2 = (name.take ms).2 := by
  rw [required]
  dsimp only
  split <;> simp_all

theorem clears_required (name : FieldName) (c : Codec R α) (get : ρ → α) :
    (required name c get).Clears [name.wire] :=
  clears_of_take (left_required name c get)

theorem left_anything (name : FieldName) (get : ρ → Json R) (ms : Members R) :
    ((anything name get).read ms).2 = (name.take ms).2 := by
  rw [anything]
  dsimp only
  split <;> simp_all

theorem clears_anything (name : FieldName) (get : ρ → Json R) :
    (anything name get).Clears [name.wire] :=
  clears_of_take (left_anything name get)

instance (a : α) : (const a : Fields R ρ α).Trims := ⟨fun _ _ hm => hm⟩

instance {f : Fields R ρ (α → β)} {x : Fields R ρ α} [hf : f.Trims] [hx : x.Trims] :
    (f <*> x).Trims := ⟨fun ms m hm => hf.mem_of_mem_left ms m (hx.mem_of_mem_left _ m hm)⟩

instance {f : α → β} {x : Fields R ρ α} [hx : x.Trims] : (f <$> x).Trims :=
  ⟨hx.mem_of_mem_left⟩

instance {part : σ → ρ} {f : Fields R ρ α} [hf : f.Trims] : (f.within part).Trims :=
  ⟨hf.mem_of_mem_left⟩

instance (name : FieldName) (c : Codec R α) (get : ρ → α) : (required name c get).Trims :=
  (clears_required name c get).trims

instance (name : FieldName) (c : Codec R α) (get : ρ → Option α) : (optional name c get).Trims :=
  (clears_optional name c get).trims

instance (name : FieldName) (c : Codec R α) (default : α) (get : ρ → α) :
    (defaulted name c default get).Trims := (clears_defaulted name c default get).trims

instance (name : FieldName) (get : ρ → Json R) : (anything name get).Trims :=
  (clears_anything name get).trims

instance (name kind : String) : (tag name kind : Fields R ρ Unit).Trims :=
  (clears_tag name kind).trims

section

variable {f f' : Fields R ρ (α → β)} {x x' : Fields R ρ α}

theorem read_seq_congr (hf : f.read = f'.read) (hx : x.read = x'.read) :
    (f <*> x).read = (f' <*> x').read := by
  change (combine f x).read = (combine f' x').read
  simp only [combine, hf, hx]

theorem read_map_congr {g : α → β} (hx : x.read = x'.read) : (g <$> x).read = (g <$> x').read :=
  read_seq_congr rfl hx

end

theorem read_within_congr {part : σ → ρ} {f f' : Fields R ρ α} (h : f.read = f'.read) :
    (f.within part).read = (f'.within part).read := h

theorem read_record_congr {f f' : Fields R ρ ρ} (h : f.read = f'.read) :
    f.record.read = f'.record.read := by
  simp only [record, h]

/-- What the fields read has the property. -/
def Gives (f : Fields R ρ α) (P : α → Prop) : Prop :=
  ∀ ms, (Json.obj ms).Proper → ∀ a, (f.read ms).1 = .ok a → P a

/-- What the fields read has the property, whatever they are read from. -/
def Reads (f : Fields R ρ α) (P : α → Prop) : Prop := ∀ ms a, (f.read ms).1 = .ok a → P a

theorem Reads.skip {f : Fields R ρ (α → β)} {x : Fields R ρ α} {Q : β → Prop}
    (h : f.Reads fun g => ∀ a, Q (g a)) : (f <*> x).Reads Q := by
  intro ms b hread
  obtain ⟨g, a, hg, -, rfl⟩ := read_seq_eq_ok.mp hread
  exact h ms g hg a

theorem Reads.start {x : Fields R ρ α} {g : α → β} {Q : β → Prop} (h : ∀ a, Q (g a)) :
    (g <$> x).Reads Q := by
  intro ms b hread
  obtain ⟨a, -, rfl⟩ := read_map_eq_ok.mp hread
  exact h a

/-- What the fields leave of some members whose names hold no half of a character. -/
def Leaves (f : Fields R ρ α) (extras : Members R) : Prop :=
  ∃ ms, (∀ m ∈ ms, Text.hasHalf m.1 = false) ∧ (f.read ms).2 = extras

variable {P : α → Prop} {Q : β → Prop}

theorem Gives.map {x : Fields R ρ α} {g : α → β} (hx : x.Gives P) (h : ∀ a, P a → Q (g a)) :
    (g <$> x).Gives Q := by
  intro ms hproper b hread
  obtain ⟨a, ha, rfl⟩ := read_map_eq_ok.mp hread
  exact h a (hx ms hproper a ha)

theorem Gives.seq {f : Fields R ρ (α → β)} [hf : f.Trims] {x : Fields R ρ α} (hx : x.Gives P)
    (h : f.Gives fun g => ∀ a, P a → Q (g a)) : (f <*> x).Gives Q := by
  intro ms hproper b hread
  obtain ⟨g, a, hg, ha, rfl⟩ := read_seq_eq_ok.mp hread
  refine h ms hproper g hg a (hx _ ?_ a ha)
  cases hproper with
  | obj hvalues hnames =>
    have hsub := hf.mem_of_mem_left ms
    exact .obj (fun m hm => hvalues m (hsub m hm))
      fun m hm m' hm' => hnames m (hsub m hm) m' (hsub m' hm')

/-- A field of which nothing has to be known. -/
theorem Gives.skip {f : Fields R ρ (α → β)} [f.Trims] {x : Fields R ρ α}
    (h : f.Gives fun g => ∀ a, Q (g a)) : (f <*> x).Gives Q :=
  .seq (P := fun _ => True) (fun _ _ _ _ => trivial) fun _ hms g hg a _ => h _ hms g hg a

theorem Gives.start {x : Fields R ρ α} {g : α → β} (h : ∀ a, Q (g a)) : (g <$> x).Gives Q :=
  .map (P := fun _ => True) (fun _ _ _ _ => trivial) fun a _ => h a

theorem Gives.within {part : σ → ρ} {f : Fields R ρ α} (h : f.Gives P) : (f.within part).Gives P :=
  h

theorem gives_required {name : FieldName} {c : Codec R α} {get : ρ → α} (h : c.Gives P) :
    (required name c get).Gives P := by
  intro ms hproper a hread
  simp only [required] at hread
  split at hread
  · rename_i htake
    exact h _ (FieldName.proper_of_take hproper htake) a (Checked.under_eq_ok.mp hread)
  · cases hread

theorem gives_optional {name : FieldName} {c : Codec R α} {get : ρ → Option α} (h : c.Gives P) :
    (optional name c get).Gives fun v => ∀ a, v = some a → P a := by
  rintro ms hproper v hread a rfl
  simp only [optional] at hread
  split at hread
  · cases hread
  · rename_i j _ _ htake
    cases hvalue : c.read j with
    | error issues =>
      rw [hvalue] at hread
      cases hread
    | ok found =>
      rw [hvalue] at hread
      cases hread
      exact h j (FieldName.proper_of_take hproper htake) a hvalue
  · cases hread

theorem gives_defaulted {name : FieldName} {c : Codec R α} {default : α} {get : ρ → α}
    (h : c.Gives P) (hdefault : P default) : (defaulted name c default get).Gives P := by
  intro ms hproper a hread
  simp only [defaulted] at hread
  split at hread
  · rename_i htake
    exact h _ (FieldName.proper_of_take hproper htake) a (Checked.under_eq_ok.mp hread)
  · cases hread
    exact hdefault

/-- What a record has beside its fields is what these leave. -/
theorem gives_record {f : Fields R ρ (Members R → ρ)} {get : ρ → Members R} {P : ρ → Prop}
    (h : f.Gives fun g => ∀ extras, f.Leaves extras → P (g extras)) :
    (f <*> rest get).record.Gives P := by
  intro j hproper r hread
  cases hproper with
  | @obj ms hvalues hdistinct =>
    simp only [record] at hread
    split at hread
    · cases hread
    · rename_i hnames
      obtain ⟨g, extras, hg, hextras, rfl⟩ := read_seq_eq_ok.mp hread
      cases hextras
      exact h ms (.obj hvalues hdistinct) g hg _ ⟨ms, by simpa using hnames, rfl⟩
  | _ => cases hread

end Fields

end Storyboard
