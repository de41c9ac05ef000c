import Storyboard.Proofs.Rereading.Sameness

namespace Storyboard

variable {R ρ σ α β : Type}

namespace Checked

variable {γ : Type}

@[simp] theorem toOption_both {f : α → β → γ} {a : Checked α} {b : Checked β} :
    (both f a b).toOption = a.toOption.bind fun x => b.toOption.map (f x) := by
  cases a <;> cases b <;> rfl

@[simp] theorem toOption_under {step : Step} {a : Checked α} :
    (a.under step).toOption = a.toOption := by
  cases a <;> rfl

@[simp] theorem toOption_map {f : α → β} {a : Checked α} :
    (Except.map f a).toOption = a.toOption.map f := by
  cases a <;> rfl

end Checked

namespace Codec

/-- What is read from what is written for a value, if anything is. -/
def reread (c : Codec R α) (a : α) : Option α := (c.read (c.write a)).toOption

theorem reread_eq_some {c : Codec R α} {a a' : α} :
    c.reread a = some a' ↔ c.read (c.write a) = .ok a' := toOption_eq_some

/-- What is written for a value is not null, and this is what is read from it. -/
def Rereads (c : Codec R α) (a : α) (back : Option α) : Prop :=
  c.write a ≠ .null ∧ c.reread a = back

/-- What is written for a value is read back as one for which the same is written. -/
def Settles (c : Codec R α) (a : α) : Prop :=
  ∃ a', c.Rereads a (some a') ∧ Json.Same (c.write a') (c.write a)

theorem settles_congr {c c' : Codec R α} {a : α} (hread : c.reread a = c'.reread a)
    (hwrite : c.write = c'.write) : c.Settles a ↔ c'.Settles a := by
  simp only [Settles, Rereads, hwrite, hread]

theorem exists_rereads {c : Codec R α} {a : α} (hnull : c.write a ≠ .null) :
    ∃ back, c.Rereads a back ∧
      ((∃ a', back = some a' ∧ Json.Same (c.write a') (c.write a)) ↔ c.Settles a) :=
  ⟨_, ⟨hnull, rfl⟩, fun ⟨a', hread, hsame⟩ => ⟨a', ⟨hnull, hread⟩, hsame⟩,
    fun ⟨a', hread, hsame⟩ => ⟨a', hread.2, hsame⟩⟩

theorem reread_within {c : Codec R α} {room : Nat} (hroom : room ≠ 0) (a : α) :
    (c.within room).reread a = c.reread a := by
  simp [reread, Codec.within, hroom]

theorem Settles.within {c : Codec R α} {room : Nat} {a : α} (hroom : room ≠ 0)
    (h : c.Settles a) : (c.within room).Settles a := by
  obtain ⟨a', ⟨hnull, hread⟩, hsame⟩ := h
  exact ⟨a', ⟨hnull, (reread_within hroom a).trans hread⟩, hsame⟩

/-- Lists are read back item by item. -/
theorem reread_list {c : Codec R α} {as as' : List α} :
    (list c).reread as = some as' ↔ List.Forall₂ (fun a a' => c.reread a = some a') as as' := by
  have hitems (n : Nat) : Checked.indexed c.read n (as.map c.write) = .ok as' ↔
      List.Forall₂ (fun a a' => c.reread a = some a') as as' := by
    induction as generalizing n as' with
    | nil =>
      rw [List.forall₂_nil_left_iff]
      exact ⟨fun h => (Except.ok.inj h).symm, fun h => congrArg Except.ok h.symm⟩
    | cons a rest ih =>
      rw [List.forall₂_cons_left_iff]
      refine Checked.both_eq_ok.trans ⟨?_, ?_⟩
      · rintro ⟨a', rest', ha, hrest, rfl⟩
        exact ⟨a', rest', reread_eq_some.mpr (Checked.under_eq_ok.mp ha),
          (ih (n + 1)).mp hrest, rfl⟩
      · rintro ⟨a', rest', ha, hrest, rfl⟩
        exact ⟨a', rest', Checked.under_eq_ok.mpr (reread_eq_some.mp ha),
          (ih (n + 1)).mpr hrest, rfl⟩
  exact reread_eq_some.trans (hitems 0)

theorem isSome_reread_of_list {c : Codec R α} {as as' : List α}
    (h : (list c).reread as = some as') : ∀ a ∈ as, (c.reread a).isSome := by
  rw [reread_list] at h
  induction h with
  | nil => simp
  | cons ha _ ih => exact List.forall_mem_cons.mpr ⟨ha ▸ rfl, ih⟩

theorem settles_list {c : Codec R α} (hnull : ∀ a, c.write a ≠ .null) {as : List α} :
    (list c).Settles as ↔ ∀ a ∈ as, c.Settles a := by
  constructor
  · rintro ⟨as', ⟨-, hread⟩, hsame⟩
    have hsames := Json.same_items hsame
    rw [reread_list] at hread
    induction hread with
    | nil => simp
    | cons ha _ ih =>
      cases hsames with
      | cons hfirst hrest =>
        exact List.forall_mem_cons.mpr ⟨⟨_, ⟨hnull _, ha⟩, hfirst⟩, ih (.arr hrest) hrest⟩
  · intro h
    have hitems : ∃ as', List.Forall₂ (fun a a' => c.reread a = some a') as as' ∧
        List.Forall₂ Json.Same (as'.map c.write) (as.map c.write) := by
      induction as with
      | nil => exact ⟨[], .nil, .nil⟩
      | cons a rest ih =>
        obtain ⟨a', ⟨-, hread⟩, hsame⟩ := h a List.mem_cons_self
        obtain ⟨rest', hrest, hsames⟩ := ih fun b hb => h b (List.mem_cons_of_mem a hb)
        exact ⟨a' :: rest', .cons hread hrest, .cons hsame hsames⟩
    obtain ⟨as', hread, hsame⟩ := hitems
    exact ⟨as', ⟨by simp [Codec.list], reread_list.mpr hread⟩, .arr hsame⟩

/-- The members of a map are read back one by one. -/
theorem reread_map {c : Codec R α} {ms ms' : List (String × α)} :
    (Codec.map c).reread ms = some ms' ↔
      List.Forall₂ (fun m m' => m'.1 = m.1 ∧ c.reread m.2 = some m'.2) ms ms' := by
  refine reread_eq_some.trans ?_
  induction ms generalizing ms' with
  | nil =>
    rw [List.forall₂_nil_left_iff]
    exact ⟨fun h => (Except.ok.inj h).symm, fun h => congrArg Except.ok h.symm⟩
  | cons m rest ih =>
    rw [List.forall₂_cons_left_iff]
    have hfirst (m' : String × α) :
        ((c.read (c.write m.2)).under (.key (Text.withoutHalves m.1))).map (m.1, ·) = .ok m' ↔
          m'.1 = m.1 ∧ c.reread m.2 = some m'.2 := by
      rw [reread_eq_some]
      cases c.read (c.write m.2) with
      | error issues => exact ⟨nofun, nofun⟩
      | ok a =>
        refine ⟨fun h => ?_, fun ⟨hname, ha⟩ => ?_⟩
        · cases h
          exact ⟨rfl, rfl⟩
        · cases ha
          exact congrArg Except.ok (Prod.ext hname.symm rfl)
    refine Checked.both_eq_ok.trans ⟨?_, ?_⟩
    · rintro ⟨m', rest', hm, hrest, rfl⟩
      exact ⟨m', rest', (hfirst m').mp hm, ih.mp hrest, rfl⟩
    · rintro ⟨m', rest', hm, hrest, rfl⟩
      exact ⟨m', rest', (hfirst m').mpr hm, ih.mpr hrest, rfl⟩

theorem isSome_reread_of_map {c : Codec R α} {ms ms' : List (String × α)}
    (h : (Codec.map c).reread ms = some ms') : ∀ m ∈ ms, (c.reread m.2).isSome := by
  rw [reread_map] at h
  induction h with
  | nil => simp
  | cons hm _ ih => exact List.forall_mem_cons.mpr ⟨hm.2 ▸ rfl, ih⟩

theorem Settles.map {c : Codec R α} {ms : List (String × α)} (h : ∀ m ∈ ms, c.Settles m.2) :
    (Codec.map c).Settles ms := by
  have hmembers : ∃ ms', List.Forall₂
      (fun (m m' : String × α) => m'.1 = m.1 ∧ c.reread m.2 = some m'.2) ms ms' ∧
      Members.Same (ms'.map fun m => (m.1, c.write m.2)) (ms.map fun m => (m.1, c.write m.2)) := by
    induction ms with
    | nil => exact ⟨[], .nil, .refl _⟩
    | cons m rest ih =>
      obtain ⟨a', ⟨-, hread⟩, hsame⟩ := h m List.mem_cons_self
      obtain ⟨rest', hrest, hsames⟩ := ih fun b hb => h b (List.mem_cons_of_mem m hb)
      exact ⟨(m.1, a') :: rest', .cons ⟨rfl, hread⟩ hrest,
        (Members.Same.single hsame).append hsames⟩
  obtain ⟨ms', hread, hsame⟩ := hmembers
  exact ⟨ms', ⟨by simp [Codec.map], reread_map.mpr hread⟩, .obj hsame⟩

/-- What is read back of a value that may be absent. -/
inductive RereadsOption (c : Codec R α) : Option α → Option (Option α) → Prop
  | absent : RereadsOption c none (some none)
  | given {a : α} {back : Option α} (h : c.Rereads a back) :
    RereadsOption c (some a) (back.map some)

/-- Values that may be absent and for which the same is written. -/
def SameOption (c : Codec R α) : Option α → Option α → Prop :=
  Option.Rel fun a' a => Json.Same (c.write a') (c.write a)

/-- An optional field writes the same for such values. -/
theorem SameOption.written {c : Codec R α} {v v' : Option α} (h : c.SameOption v' v)
    {name : FieldName} {get : ρ → Option α} {r r' : ρ} (hv' : get r' = v') (hv : get r = v) :
    Members.Same ((Fields.optional name c get).write r')
      ((Fields.optional name c get).write r) := by
  simp only [Fields.optional, hv, hv']
  cases h with
  | none => exact .refl _
  | some hsame => exact .single hsame

theorem Settles.option {c : Codec R α} {v : Option α} (h : ∀ a, v = some a → c.Settles a) :
    ∃ v', c.RereadsOption v (some v') ∧ c.SameOption v' v := by
  cases v with
  | none => exact ⟨none, .absent, .none⟩
  | some a =>
    obtain ⟨a', hread, hsame⟩ := h a rfl
    exact ⟨some a', .given hread, .some hsame⟩

theorem exists_rereadsOption {c : Codec R α} (hnull : ∀ a, c.write a ≠ .null) (v : Option α) :
    ∃ back, c.RereadsOption v back ∧
      ((∃ v', back = some v' ∧ c.SameOption v' v) ↔ ∀ a, v = some a → c.Settles a) := by
  cases v with
  | none => exact ⟨_, .absent, fun _ => nofun, fun _ => ⟨none, rfl, .none⟩⟩
  | some a =>
    obtain ⟨back, hread, hiff⟩ := exists_rereads (hnull a)
    refine ⟨_, .given hread, ?_, fun h => ?_⟩
    · rintro ⟨v', hback, hsame⟩ b hb
      cases hb
      obtain ⟨a', rfl, rfl⟩ := Option.map_eq_some_iff.mp hback
      cases hsame with
      | some hsame => exact hiff.mp ⟨a', rfl, hsame⟩
    · obtain ⟨a', rfl, hsame⟩ := hiff.mpr (h a rfl)
      exact ⟨some a', rfl, .some hsame⟩

end Codec

deriving instance DecidableEq for FieldName

namespace FieldName

/-- The written name of one field is no name of the other. -/
def Apart (n n' : FieldName) : Prop := n'.wire ≠ n.wire ∧ n'.wire ≠ n.plain ∧ n.wire ≠ n'.plain

instance : DecidableRel Apart := fun _ _ => inferInstanceAs (Decidable (_ ∧ _))

instance : Std.Symm Apart := ⟨fun _ _ h => ⟨h.1.symm, h.2.2, h.2.1⟩⟩

/-- In a written record nothing stands under the other spelling of a field that is not written. -/
def Settled (name : FieldName) (j : Json R) : Prop :=
  (j.member? name.plain).isSome → (j.member? name.wire).isSome

instance (name : FieldName) (j : Json R) : Decidable (name.Settled j) :=
  inferInstanceAs (Decidable (_ → _))

@[simp] theorem settled_same (name : String) (j : Json R) : (same name).Settled j := id

theorem settled_iff {name : FieldName} {ms : Members R} : name.Settled (.obj ms) ↔
    (Members.Lacks name.wire ms → Members.Lacks name.plain ms) := by
  rw [Members.lacks_iff_get?, Members.lacks_iff_get?, ← Option.isNone_iff_eq_none,
    ← Option.isNone_iff_eq_none]
  change ((Members.get? name.plain ms).isSome → (Members.get? name.wire ms).isSome) ↔ _
  cases Members.get? name.plain ms <;> cases Members.get? name.wire ms <;> simp

/-- Members behind those that were written do not stand in the way of a field. -/
def Free (name : FieldName) (written behind : Members R) : Prop :=
  Members.Lacks name.wire behind ∧
    (Members.Lacks name.wire written → Members.Lacks name.plain behind)

theorem take_wire {name : FieldName} {j : Json R} {behind : Members R}
    (h : Members.Lacks name.wire behind) :
    name.take ((name.wire, j) :: behind) = (some (name.wire, j), behind) := by
  simp [take, Members.get?, Members.erase, h.erase_eq]

theorem take_none {name : FieldName} {behind : Members R} (h : Members.Lacks name.wire behind)
    (hplain : Members.Lacks name.plain behind) : name.take behind = (none, behind) := by
  rw [Members.lacks_iff_get?] at h hplain
  simp [take, h, hplain]

/-- Where nothing stands under the written name, nothing is left under the other one. -/
theorem lacks_of_take {name : FieldName} {ms : Members R} (h : Members.Lacks name.wire ms) :
    Members.Lacks name.plain (name.take ms).2 := by
  rw [Members.lacks_iff_get?] at h
  rw [take, h]
  cases hplain : Members.get? name.plain ms with
  | none => exact Members.lacks_iff_get?.mpr hplain
  | some j => exact Members.lacks_erase name.plain ms

end FieldName

namespace Fields

theorem write_record_ne_null {f : Fields R ρ ρ} (r : ρ) : f.record.write r ≠ .null := by
  simp [record]

/-- What a function gives for a value, where there are both. -/
def applied (g : Option (α → β)) (a : Option α) : Option β := g.bind fun g => a.map g

theorem applied_eq_some {g : Option (α → β)} {a : Option α} {b : β} :
    applied g a = some b ↔ ∃ g' a', g = some g' ∧ a = some a' ∧ g' a' = b := by
  cases g <;> cases a <;> simp [applied]

/-- Nothing is left under the other spelling of a field that was not given under its written
name. -/
def Takes (f : Fields R ρ α) (names : List FieldName) : Prop :=
  ∀ n ∈ names, ∀ ms, Members.Lacks n.wire ms → Members.Lacks n.plain (f.read ms).2

/-- Fields under such names, of which one record writes what is read back as `back`, leaving what
stands behind it. For another record the same is written only if `same` holds of it. -/
structure Rereads (f : Fields R ρ α) (r : ρ) (names : List FieldName) (back : Option α)
    (same : ρ → Prop) : Prop where
  clears : f.Clears (names.map FieldName.wire)
  takes : f.Takes names
  names_written : ∀ r', ∀ m ∈ f.write r', m.1 ∈ names.map FieldName.wire
  same_written : names.Pairwise FieldName.Apart → ∀ r',
    Members.Same (f.write r') (f.write r) → same r'
  read_written : names.Pairwise FieldName.Apart → ∀ behind,
    (∀ n ∈ names, n.Free (f.write r) behind) →
      (f.read (f.write r ++ behind)).1.toOption = back ∧ (f.read (f.write r ++ behind)).2 = behind

section

variable {r : ρ} {names more : List FieldName} {same : ρ → Prop}

theorem write_seq {f : Fields R ρ (α → β)} {x : Fields R ρ α} :
    (f <*> x).write r = f.write r ++ x.write r := rfl

theorem write_map {f : α → β} {x : Fields R ρ α} : (f <$> x).write r = x.write r := rfl

theorem write_tag {name kind : String} :
    (tag name kind : Fields R ρ Unit).write r = [(name, .str kind)] := rfl

theorem write_within {s : σ} {part : σ → ρ} {f : Fields R ρ α} :
    (f.within part).write s = f.write (part s) := rfl

theorem rereads_const (a : α) :
    (const a : Fields R ρ α).Rereads r [] (some a) fun _ => True where
  clears ms m hm := ⟨by simp, hm⟩
  takes _ hn := nomatch hn
  names_written _ m hm := nomatch hm
  same_written _ _ _ := trivial
  read_written _ _ _ := ⟨rfl, rfl⟩

theorem Rereads.seq {f : Fields R ρ (α → β)} {x : Fields R ρ α} {g : Option (α → β)}
    {a : Option α} {same' : ρ → Prop} (hf : f.Rereads r names g same)
    (hx : x.Rereads r more a same') :
    (f <*> x).Rereads r (names ++ more) (applied g a) fun r' => same r' ∧ same' r' where
  clears := by
    rw [List.map_append]
    exact hf.clears.seq hx.clears
  takes n hn ms hwire := by
    rcases List.mem_append.mp hn with hn | hn
    · exact fun m hm => hf.takes n hn ms hwire m (hx.clears _ m hm).2
    · exact hx.takes n hn _ fun m hm => hwire m (hf.clears ms m hm).2
  names_written r' m hm := by
    rw [List.map_append]
    exact List.mem_append.mpr
      ((List.mem_append.mp hm).imp (hf.names_written r' m) (hx.names_written r' m))
  same_written hapart r' hsame := by
    obtain ⟨hnames, hmore, hacross⟩ := List.pairwise_append.mp hapart
    have hother (r' : ρ) : ∀ m ∈ x.write r', m.1 ∉ names.map FieldName.wire := by
      intro m hm hwire
      obtain ⟨n', hn', heq⟩ := List.mem_map.mp (hx.names_written r' m hm)
      obtain ⟨n, hn, heq'⟩ := List.mem_map.mp hwire
      exact (hacross n hn n' hn').1 (heq.trans heq'.symm)
    obtain ⟨hfirst, hsecond⟩ := Members.Same.parts hsame (hf.names_written r') (hf.names_written r)
      (hother r') (hother r)
    exact ⟨hf.same_written hnames r' hfirst, hx.same_written hmore r' hsecond⟩
  read_written hapart behind hfree := by
    obtain ⟨hnames, hmore, hacross⟩ := List.pairwise_append.mp hapart
    have hother (n : FieldName) (hn : n ∈ names) :
        Members.Lacks n.wire (x.write r) ∧ Members.Lacks n.plain (x.write r) := by
      refine ⟨fun m hm => ?_, fun m hm => ?_⟩ <;>
      · obtain ⟨n', hn', heq⟩ := List.mem_map.mp (hx.names_written r m hm)
        rw [← heq]
        first | exact (hacross n hn n' hn').1 | exact (hacross n hn n' hn').2.1
    have hfirst := hf.read_written hnames (x.write r ++ behind) fun n hn => by
      obtain ⟨hwire, hplain⟩ := hfree n (List.mem_append_left _ hn)
      obtain ⟨hwire', hplain'⟩ := hother n hn
      exact ⟨Members.lacks_append.mpr ⟨hwire', hwire⟩, fun hnone =>
        Members.lacks_append.mpr ⟨hplain', hplain (Members.lacks_append.mpr ⟨hnone, hwire'⟩)⟩⟩
    have hsecond := hx.read_written hmore behind fun n hn => by
      obtain ⟨hwire, hplain⟩ := hfree n (List.mem_append_right _ hn)
      refine ⟨hwire, fun hnone => hplain (Members.lacks_append.mpr ⟨fun m hm heq => ?_, hnone⟩)⟩
      obtain ⟨n', hn', hname⟩ := List.mem_map.mp (hf.names_written r m hm)
      exact (hacross n' hn' n hn).1 (by rw [hname, heq])
    rw [write_seq, List.append_assoc]
    change (Checked.both _ _ _).toOption = _ ∧ (x.read (f.read _).2).2 = _
    rw [Checked.toOption_both, hfirst.1, hfirst.2, hsecond.1]
    exact ⟨rfl, hsecond.2⟩

theorem Rereads.map {x : Fields R ρ α} {a : Option α} {f : α → β} (h : x.Rereads r names a same) :
    (f <$> x).Rereads r names (a.map f) same := by
  have h' := (rereads_const f).seq h
  exact ⟨h'.clears, h'.takes, h'.names_written, fun ha r' hsame => (h'.same_written ha r' hsame).2,
    h'.read_written⟩

theorem Rereads.within {s : σ} {part : σ → ρ} {f : Fields R ρ α} {a : Option α}
    (h : f.Rereads (part s) names a same) :
    (f.within part).Rereads s names a fun s' => same (part s') :=
  ⟨h.clears, h.takes, fun s' => h.names_written (part s'),
    fun hapart s' => h.same_written hapart (part s'), h.read_written⟩

/-- Where it does not matter for which records the same is written. -/
theorem Rereads.anyway {f : Fields R ρ α} {a : Option α} (h : f.Rereads r names a same) :
    f.Rereads r names a fun _ => True :=
  ⟨h.clears, h.takes, h.names_written, fun _ _ _ => trivial, h.read_written⟩

variable {name : FieldName}

theorem takes_of_take {f : Fields R ρ α} (h : ∀ ms, (f.read ms).2 = (name.take ms).2) :
    f.Takes [name] := by
  intro n hn ms hwire
  rw [List.mem_singleton.mp hn, h]
  exact FieldName.lacks_of_take (List.mem_singleton.mp hn ▸ hwire)

theorem rereads_required {c : Codec R α} {get : ρ → α} {a : Option α}
    (h : c.Rereads (get r) a) : (required name c get).Rereads r [name] a
      fun r' => Json.Same (c.write (get r')) (c.write (get r)) where
  clears := clears_required name c get
  takes := takes_of_take (left_required name c get)
  names_written _ m hm := by
    rw [List.mem_singleton.mp hm]
    exact List.mem_singleton_self _
  same_written _ _ hsame := Members.same_of_single hsame
  read_written _ behind hfree := by
    obtain ⟨hwire, -⟩ := hfree name (List.mem_singleton_self name)
    change ((required name c get).read ((name.wire, c.write (get r)) :: behind)).1.toOption = _ ∧ _
    simp [required, FieldName.take_wire hwire, ← h.2, Codec.reread]

theorem rereads_defaulted {c : Codec R α} {default : α} {get : ρ → α} {a : Option α}
    (h : c.Rereads (get r) a) : (defaulted name c default get).Rereads r [name] a
      fun r' => Json.Same (c.write (get r')) (c.write (get r)) where
  clears := clears_defaulted name c default get
  takes := takes_of_take (left_defaulted name c default get)
  names_written _ m hm := by
    rw [List.mem_singleton.mp hm]
    exact List.mem_singleton_self _
  same_written _ _ hsame := Members.same_of_single hsame
  read_written _ behind hfree := by
    obtain ⟨hwire, -⟩ := hfree name (List.mem_singleton_self name)
    change ((defaulted name c default get).read ((name.wire, c.write (get r)) :: behind)).1.toOption
      = _ ∧ _
    simp [defaulted, FieldName.take_wire hwire, ← h.2, Codec.reread]

theorem rereads_optional {c : Codec R α} {get : ρ → Option α} {a : Option (Option α)}
    (h : c.RereadsOption (get r) a) : (optional name c get).Rereads r [name] a
      fun r' => c.SameOption (get r') (get r) where
  clears := clears_optional name c get
  takes := takes_of_take (left_optional name c get)
  names_written _ m hm := by
    simp only [optional] at hm
    split at hm
    · rw [List.mem_singleton.mp hm]
      exact List.mem_singleton_self _
    · cases hm
  same_written _ r' hsame := by
    have hname := hsame name.wire
    simp only [optional] at hname
    cases hv : get r <;> cases hv' : get r' <;>
      simp only [hv, hv', Members.get?_cons, if_pos, Members.get?] at hname
    · exact .none
    · cases hname
    · cases hname
    · cases hname with
      | some hsame => exact .some hsame
  read_written _ behind hfree := by
    obtain ⟨hwire, hplain⟩ := hfree name (List.mem_singleton_self name)
    simp only [optional] at hplain ⊢
    generalize get r = v at h hplain ⊢
    cases h with
    | absent =>
      have htake := FieldName.take_none hwire (hplain (Members.lacks_nil _))
      simp [htake, Except.toOption]
    | given hv =>
      obtain ⟨hnull, hread⟩ := hv
      rw [List.singleton_append, FieldName.take_wire hwire]
      simp [← hread, Codec.reread]

/-- A null value of a field that has to be there is not written, and then missing. -/
theorem rereads_anything {get : ρ → Json R} {a : Option (Json R)}
    (h : (some (get r)).filter (fun j => !j.isNull) = a) :
    (anything name get).Rereads r [name] a fun _ => True where
  clears := clears_anything name get
  takes := takes_of_take (left_anything name get)
  names_written r' m hm := by
    simp only [anything] at hm
    split at hm
    · cases hm
    · rw [List.mem_singleton.mp hm]
      exact List.mem_singleton_self _
  same_written _ _ _ := trivial
  read_written _ behind hfree := by
    obtain ⟨hwire, hplain⟩ := hfree name (List.mem_singleton_self name)
    rw [← h]
    cases hvalue : get r with
    | null =>
      have hwritten : (anything name get).write r = [] := by
        simp [anything, hvalue]
      rw [hwritten] at hplain ⊢
      rw [List.nil_append]
      simp only [anything, FieldName.take_none hwire (hplain (Members.lacks_nil _))]
      exact ⟨rfl, trivial⟩
    | _ =>
      have hwritten : (anything name get).write r = [(name.wire, get r)] := by
        simp [anything, hvalue]
      rw [hwritten, hvalue, List.singleton_append]
      simp only [anything, FieldName.take_wire hwire]
      exact ⟨rfl, trivial⟩

theorem rereads_tag (name kind : String) :
    (tag name kind : Fields R ρ Unit).Rereads r [name] (some ()) fun _ => True where
  clears := clears_tag name kind
  takes := takes_of_take (left_tag name kind)
  names_written _ m hm := by
    rw [List.mem_singleton.mp hm]
    exact List.mem_singleton_self _
  same_written _ _ _ := trivial
  read_written _ behind hfree := by
    obtain ⟨hwire, -⟩ := hfree name (List.mem_singleton_self _)
    have htake : (FieldName.same name).take ((name, .str kind) :: behind) =
        (some (name, .str kind), behind) := FieldName.take_wire hwire
    simp [tag, htake, Except.toOption]

variable {c : Codec R α}

theorem Rereads.required {f : Fields R ρ (α → β)} {g : Option (α → β)} {get : ρ → α}
    {a : Option α} (h : c.Rereads (get r) a) (hf : f.Rereads r names g same) :
    (f <*> Fields.required name c get).Rereads r (names ++ [name]) (applied g a)
      fun r' => same r' ∧ Json.Same (c.write (get r')) (c.write (get r)) :=
  hf.seq (rereads_required h)

theorem Rereads.defaulted {f : Fields R ρ (α → β)} {g : Option (α → β)} {default : α}
    {get : ρ → α} {a : Option α} (h : c.Rereads (get r) a) (hf : f.Rereads r names g same) :
    (f <*> Fields.defaulted name c default get).Rereads r (names ++ [name]) (applied g a)
      fun r' => same r' ∧ Json.Same (c.write (get r')) (c.write (get r)) :=
  hf.seq (rereads_defaulted h)

theorem Rereads.optional {f : Fields R ρ (Option α → β)} {g : Option (Option α → β)}
    {get : ρ → Option α} {a : Option (Option α)} (h : c.RereadsOption (get r) a)
    (hf : f.Rereads r names g same) :
    (f <*> Fields.optional name c get).Rereads r (names ++ [name]) (applied g a)
      fun r' => same r' ∧ c.SameOption (get r') (get r) :=
  hf.seq (rereads_optional h)

end

variable {r : ρ} {names : List FieldName} {same : ρ → Prop}

/-- Names under which a record can be written and read back: each is written under a name of its
own, and no written name holds half of a character. -/
structure Usable (names : List FieldName) : Prop where
  apart : names.Pairwise FieldName.Apart
  whole : ∀ n ∈ names, Text.hasHalf n.wire = false

instance (names : List FieldName) : Decidable (Usable names) :=
  decidable_of_iff (names.Pairwise FieldName.Apart ∧ ∀ n ∈ names, Text.hasHalf n.wire = false)
    ⟨fun h => ⟨h.1, h.2⟩, fun h => ⟨h.apart, h.whole⟩⟩

/-- The written name of a field with two spellings is no other spelling. -/
theorem Usable.plain_ne (h : Usable names) {n n' : FieldName} (hn : n ∈ names) (hn' : n' ∈ names)
    (hspelled : n.plain ≠ n.wire) : n'.wire ≠ n.plain := by
  by_cases heq : n = n'
  · subst heq
    exact hspelled.symm
  · exact (h.apart.forall hn hn' heq).2.1

section

variable {f : Fields R ρ (Members R → ρ)} {get : ρ → Members R} {back : Option (Members R → ρ)}

/-- What stands beside the fields of a record stands under names of its own. -/
theorem Leaves.apart {extras : Members R} (hextras : f.Leaves extras)
    (hclears : f.Clears (names.map FieldName.wire)) : ∀ m ∈ Members.filled extras,
      m.1 ∉ names.map FieldName.wire ∧ Text.hasHalf m.1 = false := by
  obtain ⟨ms, hhalf, hleft⟩ := hextras
  intro m hm
  have hleft' := Members.mem_of_mem_filled hm
  rw [← hleft] at hleft'
  exact (hclears ms m hleft').imp_right (hhalf m)

theorem read_record_written (hwhole : ∀ m ∈ f.write r, Text.hasHalf m.1 = false)
    (hextras : ∀ m ∈ Members.filled (get r), Text.hasHalf m.1 = false) :
    (f <*> rest get).record.reread r =
      applied (f.read (f.write r ++ Members.filled (get r))).1.toOption
        (some (f.read (f.write r ++ Members.filled (get r))).2) := by
  have hnames : ((f.write r ++ Members.filled (get r)).any fun m => Text.hasHalf m.1) = false := by
    rw [List.any_eq_false]
    intro m hm
    rw [Bool.not_eq_true]
    exact (List.mem_append.mp hm).elim (hwhole m) (hextras m)
  change (if (f.write r ++ Members.filled (get r)).any fun m => Text.hasHalf m.1 then
    Checked.fail .halfInText else (Checked.both _ _ _ : Checked ρ)).toOption = _
  rw [hnames, if_neg Bool.false_ne_true, Checked.toOption_both]
  rfl

variable (h : f.Rereads r names back same) (husable : Usable names) (hextras : f.Leaves (get r))

include h husable hextras

theorem reread_record : (f <*> rest get).record.reread r =
    applied (f.read (f.write r ++ Members.filled (get r))).1.toOption
      (some (f.read (f.write r ++ Members.filled (get r))).2) := by
  refine read_record_written (fun m hm => ?_) fun m hm => (hextras.apart h.clears m hm).2
  obtain ⟨n, hn, heq⟩ := List.mem_map.mp (h.names_written r m hm)
  rw [← heq]
  exact husable.whole n hn

omit husable in
theorem free_of_settled (hsettled : ∀ n ∈ names, n.Settled ((f <*> rest get).record.write r)) :
    ∀ n ∈ names, n.Free (f.write r) (Members.filled (get r)) := by
  intro n hn
  have hwire : Members.Lacks n.wire (Members.filled (get r)) := fun m hm heq =>
    (hextras.apart h.clears m hm).1 (heq ▸ List.mem_map_of_mem hn)
  refine ⟨hwire, fun hnone => ?_⟩
  have hplain := FieldName.settled_iff.mp (hsettled n hn)
    (Members.lacks_append.mpr ⟨hnone, hwire⟩)
  exact (Members.lacks_append.mp hplain).2

/-- A record is read back with those members beside its fields that were not null, unless one of
them stands under the other spelling of a field that is not written. -/
theorem rereads_record (hsettled : ∀ n ∈ names, n.Settled ((f <*> rest get).record.write r)) :
    (f <*> rest get).record.Rereads r (back.map fun g => g (Members.filled (get r))) := by
  obtain ⟨hread, hleft⟩ := h.read_written husable.apart (Members.filled (get r))
    (free_of_settled h hextras hsettled)
  refine ⟨write_record_ne_null r, ?_⟩
  rw [reread_record h husable hextras, hread, hleft]
  cases back <;> rfl

/-- What stands under the other spelling of a field that is not written becomes the field. -/
theorem settled_of_settles (hget : f.Reads fun g => ∀ extras, get (g extras) = extras)
    (hsettles : (f <*> rest get).record.Settles r) :
    ∀ n ∈ names, n.Settled ((f <*> rest get).record.write r) := by
  intro n hn
  obtain ⟨r', ⟨-, hread⟩, hsame⟩ := hsettles
  rw [reread_record h husable hextras, applied_eq_some] at hread
  obtain ⟨g, extras, hg, hleft, rfl⟩ := hread
  cases hleft
  refine FieldName.settled_iff.mpr fun hwire => ?_
  change Members.Lacks n.plain (f.write r ++ Members.filled (get r))
  change Members.Lacks n.wire (f.write r ++ Members.filled (get r)) at hwire
  by_cases hspelled : n.plain = n.wire
  · rw [hspelled]
    exact hwire
  · have hlacks : Members.Lacks n.plain ((f <*> rest get).write (g (f.read
        (f.write r ++ Members.filled (get r))).2)) := by
      refine Members.lacks_append.mpr ⟨fun m hm heq => ?_, fun m hm => ?_⟩
      · obtain ⟨n', hn', hname⟩ := List.mem_map.mp (h.names_written _ m hm)
        exact husable.plain_ne hn hn' hspelled (hname.trans heq)
      · have hm := Members.mem_of_mem_filled hm
        rw [hget _ g (toOption_eq_some.mp hg)] at hm
        exact h.takes n hn _ hwire m hm
    have hname := Json.same_members hsame n.plain
    rw [Members.lacks_iff_get?.mp hlacks] at hname
    refine Members.lacks_iff_get?.mpr ?_
    change Option.Rel _ none (Members.get? n.plain (f.write r ++ Members.filled (get r))) at hname
    revert hname
    cases Members.get? n.plain (f.write r ++ Members.filled (get r)) with
    | none => exact fun _ => rfl
    | some j => exact nofun

omit h husable hextras in
/-- A record that is read back settles if its fields write the same for what was read back. -/
theorem settles_record {g : Members R → ρ} (h : f.Rereads r names back same)
    (husable : Usable names) (hextras : f.Leaves (get r))
    (hsettled : ∀ n ∈ names, n.Settled ((f <*> rest get).record.write r)) (hback : back = some g)
    (hsame : Members.Same (f.write (g (Members.filled (get r)))) (f.write r))
    (hget : get (g (Members.filled (get r))) = Members.filled (get r)) :
    (f <*> rest get).record.Settles r := by
  subst hback
  refine ⟨_, rereads_record h husable hextras hsettled, .obj (hsame.append ?_)⟩
  change Members.Same (Members.filled (get _)) (Members.filled (get r))
  rw [hget, Members.filled_filled]
  exact .refl _

/-- A record settles exactly if no member stands under the other spelling of a field that is not
written, and the fields are read back and then write the same. -/
theorem settles_record_iff {P : Prop} (hget : f.Reads fun g => ∀ extras, get (g extras) = extras)
    (hto : P → ∃ g, back = some g ∧
      Members.Same (f.write (g (Members.filled (get r)))) (f.write r))
    (hof : ∀ g, back = some g → same (g (Members.filled (get r))) → P) :
    (f <*> rest get).record.Settles r ↔
      (∀ n ∈ names, n.Settled ((f <*> rest get).record.write r)) ∧ P := by
  have hkept (hsettled : ∀ n ∈ names, n.Settled ((f <*> rest get).record.write r))
      {g : Members R → ρ} (hg : back = some g) :
      get (g (Members.filled (get r))) = Members.filled (get r) := by
    obtain ⟨hread, -⟩ := h.read_written husable.apart (Members.filled (get r))
      (free_of_settled h hextras hsettled)
    exact hget _ g (toOption_eq_some.mp (hread.trans hg)) _
  constructor
  · intro hsettles
    have hsettled := settled_of_settles h husable hextras hget hsettles
    obtain ⟨r', ⟨-, hread⟩, hsame⟩ := hsettles
    rw [(rereads_record h husable hextras hsettled).2, Option.map_eq_some_iff] at hread
    obtain ⟨g, hg, rfl⟩ := hread
    have hother : ∀ m ∈ Members.filled (get r), m.1 ∉ names.map FieldName.wire := fun m hm =>
      (hextras.apart h.clears m hm).1
    have hrest : ∀ m ∈ Members.filled (get (g (Members.filled (get r)))),
        m.1 ∉ names.map FieldName.wire := by
      rw [hkept hsettled hg, Members.filled_filled]
      exact hother
    have hfields := (Members.Same.parts (Json.same_members hsame) (h.names_written _)
      (h.names_written r) hrest hother).1
    exact ⟨hsettled, hof g hg (h.same_written husable.apart _ hfields)⟩
  · rintro ⟨hsettled, hP⟩
    obtain ⟨g, hg, hsame⟩ := hto hP
    exact settles_record h husable hextras hsettled hg hsame (hkept hsettled hg)

end

end Fields

end Storyboard
