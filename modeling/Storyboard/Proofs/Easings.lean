import Mathlib.Algebra.Group.Int.Defs
import Storyboard.Binary64
import Storyboard.Easing
import Storyboard.Proofs.Numerals
import Storyboard.Proofs.Run

namespace Storyboard.Easing

open Outcome

/-- A curve as it is written as a text: four fields between the brackets, of which the first three
end at a comma and the last at the bracket. -/
structure CurveText where
  x1 : List Char
  y1 : List Char
  x2 : List Char
  y2 : List Char
  x1_ne_nil : x1 ≠ []
  y1_ne_nil : y1 ≠ []
  x2_ne_nil : x2 ≠ []
  y2_ne_nil : y2 ≠ []
  x1_ends : ',' ∉ x1
  y1_ends : ',' ∉ y1
  x2_ends : ',' ∉ x2
  y2_ends : ')' ∉ y2

namespace CurveText

def chars (w : CurveText) : List Char :=
  bezierLead ++ (w.x1 ++ ',' :: (w.y1 ++ ',' :: (w.x2 ++ ',' :: (w.y2 ++ [')']))))

def text (w : CurveText) : String := String.ofList w.chars

end CurveText

section

/-- The text in front of a character that does not stand in it. -/
theorem takeWhile_ne {c : Char} {front rest : List Char} (h : c ∉ front) :
    (front ++ c :: rest).takeWhile (· != c) = front := by
  refine Text.takeWhile_append (fun d hd => bne_iff_ne.mpr fun heq => h (heq ▸ hd)) ?_
  simp

theorem dropWhile_ne {c : Char} {front rest : List Char} (h : c ∉ front) :
    (front ++ c :: rest).dropWhile (· != c) = c :: rest := by
  refine Text.dropWhile_append (fun d hd => bne_iff_ne.mpr fun heq => h (heq ▸ hd)) ?_
  simp

/-- What stands in front of the first of the characters, if there is one. -/
theorem eq_of_dropWhile_ne {c d : Char} {cs rest : List Char}
    (h : cs.dropWhile (· != c) = d :: rest) :
    c ∉ cs.takeWhile (· != c) ∧ cs = cs.takeWhile (· != c) ++ c :: rest := by
  have hfirst : d = c := by
    have hnot := List.head?_dropWhile_not (· != c) cs
    rw [h] at hnot
    simpa using hnot
  subst hfirst
  constructor
  · intro hmem
    have htrue := List.all_eq_true.mp List.all_takeWhile d hmem
    simp at htrue
  · rw [← h]
    exact List.takeWhile_append_dropWhile.symm

theorem field?_eq_some {cs f rest : List Char} :
    field? cs = some (f, rest) ↔ f ≠ [] ∧ ',' ∉ f ∧ cs = f ++ ',' :: rest := by
  constructor
  · intro h
    unfold field? at h
    split at h
    · cases h
    · cases h
    · rename_i d behind hdrop hne
      obtain ⟨rfl, rfl⟩ := Prod.mk.inj (Option.some_inj.mp h)
      obtain ⟨hnot, heq⟩ := eq_of_dropWhile_ne hdrop
      exact ⟨fun hnil => hne hnil, hnot, heq⟩
  · rintro ⟨hne, hnot, rfl⟩
    rw [field?, takeWhile_ne hnot, dropWhile_ne hnot]
    cases f with
    | nil => exact absurd rfl hne
    | cons d ds => rfl

theorem lastField?_eq_some {cs f : List Char} :
    lastField? cs = some f ↔ f ≠ [] ∧ ')' ∉ f ∧ cs = f ++ [')'] := by
  constructor
  · intro h
    unfold lastField? at h
    split at h
    · cases h
    · rename_i d hdrop hne
      obtain rfl := Option.some_inj.mp h
      obtain ⟨hnot, heq⟩ := eq_of_dropWhile_ne hdrop
      exact ⟨fun hnil => hne hnil, hnot, heq⟩
    · cases h
  · rintro ⟨hne, hnot, rfl⟩
    rw [lastField?, takeWhile_ne hnot, dropWhile_ne hnot]
    cases f with
    | nil => exact absurd rfl hne
    | cons d ds => rfl

/-- The texts with four fields are the texts of curves. -/
theorem fields?_eq_some {cs : List Char} {fields : List (List Char)} :
    fields? cs = some fields ↔
      ∃ w : CurveText, w.chars = cs ∧ fields = [w.x1, w.y1, w.x2, w.y2] := by
  constructor
  · intro h
    unfold fields? at h
    split at h
    · rename_i hlead
      obtain ⟨rest, hrest⟩ := List.isPrefixOf_iff_prefix.mp hlead
      rw [← hrest, List.drop_left] at h
      obtain ⟨⟨x1, r1⟩, h1, hrest1⟩ := Option.bind_eq_some_iff.mp h
      obtain ⟨⟨y1, r2⟩, h2, hrest2⟩ := Option.bind_eq_some_iff.mp hrest1
      obtain ⟨⟨x2, r3⟩, h3, hrest3⟩ := Option.bind_eq_some_iff.mp hrest2
      obtain ⟨y2, h4, hfields⟩ := Option.bind_eq_some_iff.mp hrest3
      obtain ⟨hx1, hends1, rfl⟩ := field?_eq_some.mp h1
      obtain ⟨hy1, hends2, rfl⟩ := field?_eq_some.mp h2
      obtain ⟨hx2, hends3, rfl⟩ := field?_eq_some.mp h3
      obtain ⟨hy2, hends4, rfl⟩ := lastField?_eq_some.mp h4
      exact ⟨⟨x1, y1, x2, y2, hx1, hy1, hx2, hy2, hends1, hends2, hends3, hends4⟩, hrest,
        (Option.some_inj.mp hfields).symm⟩
    · cases h
  · rintro ⟨w, rfl, rfl⟩
    have hlead : bezierLead.isPrefixOf w.chars = true :=
      List.isPrefixOf_iff_prefix.mpr (List.prefix_append _ _)
    rw [fields?, if_pos hlead, CurveText.chars, List.drop_left]
    refine Option.bind_eq_some_iff.mpr
      ⟨_, field?_eq_some.mpr ⟨w.x1_ne_nil, w.x1_ends, rfl⟩, ?_⟩
    refine Option.bind_eq_some_iff.mpr
      ⟨_, field?_eq_some.mpr ⟨w.y1_ne_nil, w.y1_ends, rfl⟩, ?_⟩
    refine Option.bind_eq_some_iff.mpr
      ⟨_, field?_eq_some.mpr ⟨w.x2_ne_nil, w.x2_ends, rfl⟩, ?_⟩
    exact Option.bind_eq_some_iff.mpr
      ⟨_, lastField?_eq_some.mpr ⟨w.y2_ne_nil, w.y2_ends, rfl⟩, rfl⟩

/-- Nothing stands around the text of a curve. -/
theorem CurveText.trim_chars (w : CurveText) : Text.trim w.chars = w.chars := by
  refine Text.trimWhere_eq_self (fun c hc => ?_) fun c hc => ?_
  · have hhead : w.chars.head? = some 'c' := rfl
    rw [hhead] at hc
    obtain rfl := Option.some_inj.mp hc
    decide
  · have hend : w.chars = (bezierLead ++ (w.x1 ++ ',' :: (w.y1 ++ ',' :: (w.x2 ++ ',' :: w.y2)))) ++
        [')'] := by
      simp [chars]
    rw [hend, List.getLast?_concat] at hc
    obtain rfl := Option.some_inj.mp hc
    decide

end

section

variable {R : Type} [Scalar R]

omit [Scalar R] in
/-- The easings without parameters are those that have a name. -/
theorem ofName?_isSome {s : String} : (ofName? s : Option (Easing R)).isSome ↔ s ∈ easingNames := by
  constructor
  · intro h
    unfold ofName? at h
    split at h
    · decide
    · decide
    · decide
    · decide
    · decide
    · decide
    · cases h
  · intro h
    simp only [easingNames, List.mem_cons, List.not_mem_nil, or_false] at h
    rcases h with rfl | rfl | rfl | rfl | rfl | rfl <;> rfl

theorem numbers?_eq_some {f1 f2 f3 f4 : List Char} {x1 y1 x2 y2 : R} :
    numbers? [f1, f2, f3, f4] = some (x1, y1, x2, y2) ↔
      readReal? (Text.trim f1) = some x1 ∧ readReal? (Text.trim f2) = some y1 ∧
        readReal? (Text.trim f3) = some x2 ∧ readReal? (Text.trim f4) = some y2 := by
  rw [numbers?]
  simp only [List.mapM_cons, List.mapM_nil]
  cases readReal? (R := R) (Text.trim f1) <;> cases readReal? (R := R) (Text.trim f2) <;>
    cases readReal? (R := R) (Text.trim f3) <;> cases readReal? (R := R) (Text.trim f4) <;> simp

/-- An object that is written as a curve with four numbers. -/
def PointsAre (members : Members R) (a b c d : Number R) : Prop :=
  Members.get? "type" members = some (.str "cubic-bezier") ∧
    Members.get? "points" members = some (.arr [.num a, .num b, .num c, .num d])

/-- What values mean as easings. -/
inductive Means : Json R → Easing R → Prop where
  | null : Means .null linear
  | empty : Means (.str "") linear
  | named {name : String} {e : Easing R} (h : ofName? name = some e) : Means (.str name) e
  | text (w : CurveText) {x1 y1 x2 y2 : R} (hx1 : readReal? (Text.trim w.x1) = some x1)
    (hy1 : readReal? (Text.trim w.y1) = some y1) (hx2 : readReal? (Text.trim w.x2) = some x2)
    (hy2 : readReal? (Text.trim w.y2) = some y2) (h1 : inUnit (.real x1) = true)
    (h2 : inUnit (.real x2) = true) : Means (.str w.text) (bezier x1 y1 x2 y2)
  | object {members : Members R} {a b c d : Number R} {x1 y1 x2 y2 : R}
    (h : PointsAre members a b c d) (ha : a.toReal = .ok x1) (hb : b.toReal = .ok y1)
    (hc : c.toReal = .ok x2) (hd : d.toReal = .ok y2) (h1 : inUnit a = true)
    (h2 : inUnit c = true) : Means (.obj members) (bezier x1 y1 x2 y2)

/-- An object with four numbers of which those across are in place, but not all are within the range
of scalars. -/
def Oversized (j : Json R) : Prop :=
  ∃ members a b c d, j = .obj members ∧ PointsAre members a b c d ∧ inUnit a = true ∧
    inUnit c = true ∧ ¬ (Returns a.toReal ∧ Returns b.toReal ∧ Returns c.toReal ∧ Returns d.toReal)

/-- An object with four numbers of which one across is out of place, and one even beyond the range
of scalars. -/
def Faraway (j : Json R) : Prop :=
  ∃ members a b c d, j = .obj members ∧ PointsAre members a b c d ∧
    ¬ (inUnit a = true ∧ inUnit c = true) ∧ ¬ (Returns a.toReal ∧ Returns c.toReal)

/-- A value in whose place the conversion takes the linear easing, as it is none. -/
def Unknown (j : Json R) : Prop :=
  j ≠ .null ∧ j ≠ .str "" ∧ (∀ name, j = .str name → (ofName? name : Option (Easing R)) = none) ∧
    curve? j = .ok none

theorem toReal_cases (n : Number R) : Returns n.toReal ∨ n.toReal = numericFault .overflow := by
  cases n with
  | real x => exact .inl ⟨x, rfl⟩
  | int m =>
    rw [Number.toReal]
    split
    · exact .inl (returns_ok _)
    · exact .inr rfl

/-- The check of the numbers across, and what it takes to say that they are out of place. -/
theorem checkRange_cases (context : String) (a c : Number R) :
    (inUnit a = true ∧ inUnit c = true) ∧ checkRange context a c = .ok () ∨
    ¬ (inUnit a = true ∧ inUnit c = true) ∧
      ((Returns a.toReal ∧ Returns c.toReal) ∧
          (∃ cause, checkRange context a c = .error (.easing context cause)) ∨
        ¬ (Returns a.toReal ∧ Returns c.toReal) ∧
          checkRange context a c = numericFault .overflow) := by
  by_cases hunit : inUnit a = true ∧ inUnit c = true
  · refine .inl ⟨hunit, ?_⟩
    rw [checkRange, hunit.1, hunit.2]
    rfl
  · refine .inr ⟨hunit, ?_⟩
    have hnot : ¬ (inUnit a && inUnit c) = true := by simpa using hunit
    rw [checkRange, if_neg hnot]
    rcases toReal_cases a with ⟨x, ha⟩ | ha
    · rcases toReal_cases c with ⟨y, hc⟩ | hc
      · refine .inl ⟨⟨⟨x, ha⟩, ⟨y, hc⟩⟩, .outOfRange (Scalar.briefText x) (Scalar.briefText y), ?_⟩
        rw [brief, brief, ha, hc]
        rfl
      · refine .inr ⟨fun h => ?_, ?_⟩
        · rw [hc] at h
          exact (returns_numericFault _).mp h.2
        · rw [brief, brief, ha, hc]
          rfl
    · refine .inr ⟨fun h => ?_, ?_⟩
      · rw [ha] at h
        exact (returns_numericFault _).mp h.1
      · rw [brief, ha]
        rfl

theorem isPrefixOf_text (w : CurveText) : bezierLead.isPrefixOf w.text.toList = true := by
  rw [CurveText.text, String.toList_ofList]
  exact List.isPrefixOf_iff_prefix.mpr (List.prefix_append _ _)

theorem fields?_text (w : CurveText) :
    fields? w.text.toList = some [w.x1, w.y1, w.x2, w.y2] := by
  rw [CurveText.text, String.toList_ofList]
  exact fields?_eq_some.mpr ⟨w, rfl, rfl⟩

omit [Scalar R] in
/-- The text of a curve is no name of an easing. -/
theorem ofName?_text (w : CurveText) : (ofName? w.text : Option (Easing R)) = none := by
  have hnames : ∀ s ∈ easingNames, bezierLead.isPrefixOf s.toList = false := by decide
  refine Option.not_isSome_iff_eq_none.mp fun hsome => ?_
  have hother := hnames _ (ofName?_isSome.mp hsome)
  rw [isPrefixOf_text w] at hother
  cases hother

theorem text_ne_empty (w : CurveText) : w.text ≠ "" := by
  intro h
  have hlead := isPrefixOf_text w
  rw [h] at hlead
  cases hlead

theorem curve?_text (w : CurveText) :
    curve? (R := R) (.str w.text) = .ok (numbers? [w.x1, w.y1, w.x2, w.y2]) := by
  have hfields := fields?_text w
  rw [CurveText.text, String.toList_ofList] at hfields
  rw [curve?, CurveText.text, String.toList_ofList, w.trim_chars, hfields]
  rfl

theorem curve?_object {members : Members R} {a b c d : Number R} (h : PointsAre members a b c d) :
    curve? (.obj members) = (do
      let x1 ← a.toReal
      let y1 ← b.toReal
      let x2 ← c.toReal
      let y2 ← d.toReal
      return some (x1, y1, x2, y2)) := by
  have hpoints : points? members = some [a, b, c, d] := by
    rw [points?, h.1, h.2]
    rfl
  simp only [curve?, hpoints]

theorem check_object (context : String) {members : Members R} {a b c d : Number R}
    (h : PointsAre members a b c d) : check context (.obj members) = checkRange context a c := by
  rw [check, checkMembers, h.1, h.2]
  rfl

theorem check_of_means {context : String} {j : Json R} {e : Easing R} (h : Means j e) :
    check context j = .ok () := by
  cases h with
  | null => rfl
  | empty => rfl
  | named h =>
    rename_i name
    have hname : easingNames.contains name = true := by
      simpa using ofName?_isSome.mp (Option.isSome_of_eq_some h)
    rw [check, checkText, hname, Bool.or_true]
    rfl
  | text w hx1 hy1 hx2 hy2 h1 h2 =>
    have hnames : ¬ (w.text == "" || easingNames.contains w.text) = true := by
      have hnone : w.text ∉ easingNames := by
        rw [← ofName?_isSome (R := R), ofName?_text]
        exact Bool.false_ne_true
      simpa [text_ne_empty w] using hnone
    have hnumbers := numbers?_eq_some.mpr ⟨hx1, hy1, hx2, hy2⟩
    rw [check, checkText, if_neg hnames, if_pos (isPrefixOf_text w), fields?_text]
    simp only [hnumbers, checkRange, h1, h2]
    rfl
  | object h ha hb hc hd h1 h2 =>
    rw [check_object context h, checkRange, h1, h2]
    rfl

theorem ofJson_of_means {j : Json R} {e : Easing R} (h : Means j e) : ofJson j = .ok e := by
  cases h with
  | null => rfl
  | empty => rfl
  | named h =>
    rename_i name
    have hfilled : ¬ (name == "") = true := by
      rintro hempty
      rw [eq_of_beq hempty] at h
      cases h
    rw [ofJson, if_neg hfilled, h]
  | text w hx1 hy1 hx2 hy2 h1 h2 =>
    have hfilled : ¬ (w.text == "") = true := by simpa using text_ne_empty w
    rw [ofJson, if_neg hfilled, ofName?_text, curve?_text,
      numbers?_eq_some.mpr ⟨hx1, hy1, hx2, hy2⟩]
    rfl
  | object h ha hb hc hd h1 h2 =>
    change (curve? _).map _ = _
    rw [curve?_object h, ha, hb, hc, hd]
    rfl

theorem not_unknown_of_means {j : Json R} {e : Easing R} (h : Means j e) : ¬ Unknown j := by
  rintro ⟨hnull, hempty, hname, hcurve⟩
  cases h with
  | null => exact hnull rfl
  | empty => exact hempty rfl
  | named h => rw [hname _ rfl] at h; cases h
  | text w hx1 hy1 hx2 hy2 h1 h2 =>
    rw [curve?_text, numbers?_eq_some.mpr ⟨hx1, hy1, hx2, hy2⟩] at hcurve
    cases hcurve
  | object h ha hb hc hd h1 h2 =>
    rw [curve?_object h, ha, hb, hc, hd] at hcurve
    cases hcurve

theorem check_of_oversized {context : String} {j : Json R} (h : Oversized j) :
    check context j = .ok () := by
  obtain ⟨members, a, b, c, d, rfl, hpoints, h1, h2, -⟩ := h
  rw [check_object context hpoints, checkRange, h1, h2]
  rfl

/-- A number beyond the range is noticed only when the value is converted. -/
theorem ofJson_of_oversized {j : Json R} (h : Oversized j) : ofJson j = numericFault .overflow := by
  obtain ⟨members, a, b, c, d, rfl, hpoints, -, -, hbeyond⟩ := h
  change (curve? _).map _ = _
  rw [curve?_object hpoints]
  rcases toReal_cases a with ⟨x1, ha⟩ | ha
  · rcases toReal_cases b with ⟨y1, hb⟩ | hb
    · rcases toReal_cases c with ⟨x2, hc⟩ | hc
      · rcases toReal_cases d with ⟨y2, hd⟩ | hd
        · exact absurd ⟨⟨x1, ha⟩, ⟨y1, hb⟩, ⟨x2, hc⟩, ⟨y2, hd⟩⟩ hbeyond
        · rw [ha, hb, hc, hd]
          rfl
      · rw [ha, hb, hc]
        rfl
    · rw [ha, hb]
      rfl
  · rw [ha]
    rfl

theorem check_of_faraway {context : String} {j : Json R} (h : Faraway j) :
    check context j = numericFault .overflow := by
  obtain ⟨members, a, b, c, d, rfl, hpoints, hunit, hbeyond⟩ := h
  rw [check_object context hpoints]
  rcases checkRange_cases context a c with ⟨h, -⟩ | ⟨-, ⟨h, -⟩ | ⟨-, h⟩⟩
  · exact absurd h hunit
  · exact absurd h hbeyond
  · exact h

/-- What the check answers for a text. -/
theorem checkText_cases (context text : String) :
    (∃ e : Easing R, Means (.str text) e) ∨
      ∃ cause, checkText (R := R) context text = .error (.easing context cause) := by
  by_cases hname : (ofName? text : Option (Easing R)).isSome
  · obtain ⟨e, he⟩ := Option.isSome_iff_exists.mp hname
    exact .inl ⟨e, .named he⟩
  by_cases hempty : text = ""
  · exact .inl ⟨linear, hempty ▸ .empty⟩
  have hnames : ¬ (text == "" || easingNames.contains text) = true := by
    rw [ofName?_isSome] at hname
    simpa [hempty] using hname
  rw [checkText, if_neg hnames]
  split
  · cases hfields : fields? text.toList with
    | none => exact .inr ⟨_, rfl⟩
    | some fields =>
      obtain ⟨w, hw, rfl⟩ := fields?_eq_some.mp hfields
      obtain rfl : w.text = text := by rw [CurveText.text, hw, String.ofList_toList]
      dsimp only
      cases hnumbers : numbers? (R := R) [w.x1, w.y1, w.x2, w.y2] with
      | none => exact .inr ⟨_, rfl⟩
      | some found =>
        dsimp only
        obtain ⟨x1, y1, x2, y2⟩ := found
        obtain ⟨hx1, hy1, hx2, hy2⟩ := numbers?_eq_some.mp hnumbers
        rcases checkRange_cases context (.real x1) (.real x2) with
          ⟨⟨h1, h2⟩, -⟩ | ⟨-, ⟨-, h⟩ | ⟨h, -⟩⟩
        · exact .inl ⟨_, .text w hx1 hy1 hx2 hy2 h1 h2⟩
        · exact .inr h
        · exact absurd ⟨returns_ok x1, returns_ok x2⟩ h
  · exact .inr ⟨_, rfl⟩

/-- What the check answers for an object. -/
theorem checkMembers_cases (context : String) (members : Members R) :
    (∃ e : Easing R, Means (.obj members) e) ∨ Oversized (.obj members) ∨
      Faraway (.obj members) ∨
        ∃ cause, checkMembers context members = .error (.easing context cause) := by
  by_cases hpoints : ∃ a b c d, PointsAre members a b c d
  · obtain ⟨a, b, c, d, hpoints⟩ := hpoints
    have hcheck : checkMembers context members = checkRange context a c :=
      check_object context hpoints
    rw [hcheck]
    rcases checkRange_cases context a c with ⟨⟨h1, h2⟩, -⟩ | ⟨hunit, ⟨-, h⟩ | ⟨h, -⟩⟩
    · by_cases hrange : Returns a.toReal ∧ Returns b.toReal ∧ Returns c.toReal ∧ Returns d.toReal
      · obtain ⟨⟨x1, ha⟩, ⟨y1, hb⟩, ⟨x2, hc⟩, ⟨y2, hd⟩⟩ := hrange
        exact .inl ⟨_, .object hpoints ha hb hc hd h1 h2⟩
      · exact .inr (.inl ⟨members, a, b, c, d, rfl, hpoints, h1, h2, hrange⟩)
    · exact .inr (.inr (.inr h))
    · exact .inr (.inr (.inl ⟨members, a, b, c, d, rfl, hpoints, hunit, h⟩))
  · refine .inr (.inr (.inr ?_))
    rw [checkMembers]
    split
    · rename_i htype
      split
      · rename_i a b c d hitems
        split
        · exact absurd ⟨_, _, _, _, htype, hitems⟩ hpoints
        · exact ⟨_, rfl⟩
      · exact ⟨_, rfl⟩
    · exact ⟨_, rfl⟩

/-- What the check answers for any value. -/
theorem check_cases (context : String) (j : Json R) :
    (∃ e, Means j e) ∨ Oversized j ∨ Faraway j ∨
      ∃ cause, check context j = .error (.easing context cause) := by
  cases j with
  | null => exact .inl ⟨linear, .null⟩
  | str text => exact (checkText_cases context text).imp_right fun h => .inr (.inr h)
  | obj members => exact checkMembers_cases context members
  | bool b => exact .inr (.inr (.inr ⟨_, rfl⟩))
  | num n => exact .inr (.inr (.inr ⟨_, rfl⟩))
  | arr items => exact .inr (.inr (.inr ⟨_, rfl⟩))

/-- Only three values mean the linear easing. -/
theorem means_linear {j : Json R} :
    Means j linear ↔ j = .null ∨ j = .str "" ∨ j = .str "linear" := by
  constructor
  · intro h
    cases h with
    | null => exact .inl rfl
    | empty => exact .inr (.inl rfl)
    | named h =>
      unfold ofName? at h
      split at h
      · exact .inr (.inr rfl)
      all_goals cases h
  · rintro (rfl | rfl | rfl)
    · exact .null
    · exact .empty
    · exact .named rfl

/-- A value that is accepted means an easing, and this is the easing that is sampled with, or it has
numbers beyond the range of scalars, with which it cannot be converted. Every other value is refused
as an easing, unless the range of scalars is in the way already of saying why. -/
theorem check_agrees (context : String) (j : Json R) :
    (check context j = .ok () ↔ (∃ e, Means j e) ∨ Oversized j) ∧
    (∀ e, Means j e → ofJson j = .ok e ∧ ¬ Unknown j) ∧
    (Means j linear ↔ j = .null ∨ j = .str "" ∨ j = .str "linear") ∧
    (Oversized j → ofJson j = numericFault .overflow) ∧
    (Faraway j → check context j = numericFault .overflow) ∧
    (¬ (∃ e, Means j e) → ¬ Oversized j → ¬ Faraway j →
      ∃ cause, check context j = .error (.easing context cause)) := by
  refine ⟨⟨fun h => ?_, fun h => ?_⟩, fun e h => ⟨ofJson_of_means h, not_unknown_of_means h⟩,
    means_linear, ofJson_of_oversized, check_of_faraway, fun hmeans hover hfar => ?_⟩
  · rcases check_cases context j with hmeans | hover | hfar | ⟨cause, herror⟩
    · exact .inl hmeans
    · exact .inr hover
    · rw [check_of_faraway hfar] at h
      cases h
    · rw [herror] at h
      cases h
  · rcases h with ⟨e, h⟩ | h
    · exact check_of_means h
    · exact check_of_oversized h
  · rcases check_cases context j with h | h | h | h
    · exact absurd h hmeans
    · exact absurd h hover
    · exact absurd h hfar
    · exact h

end

/-- A curve that is written as an object. -/
def pointsObject (a b c d : Number Float) : Json Float :=
  .obj [("type", .str "cubic-bezier"), ("points", .arr [.num a, .num b, .num c, .num d])]

/-- A curve with heights beyond the range, which make up for each other in its middle. -/
def steepCurve : Json Float :=
  pointsObject (.int 0) (.int (10 ^ 400)) (.int 1) (.int (-10 ^ 400))

/-- Heights beyond the range are accepted but cannot be converted, and a number across that is
beyond the range is refused, but not as an easing. -/
theorem oversized_points_accepted :
    check "k" steepCurve = .ok () ∧ ofJson steepCurve = numericFault .overflow ∧
    check "k" (pointsObject (.int (10 ^ 400)) (.int 0) (.int 1) (.int 1)) =
      numericFault .overflow := by
  have hbeyond : (Number.toReal (R := Float) (.int (10 ^ 400))).toOption.isSome = false := by
    decide +kernel
  have hover : Oversized steepCurve := by
    refine ⟨_, _, _, _, _, rfl, ⟨rfl, rfl⟩, by decide +kernel, by decide +kernel, ?_⟩
    rintro ⟨-, ⟨y1, hy1⟩, -, -⟩
    rw [hy1] at hbeyond
    cases hbeyond
  exact ⟨check_of_oversized hover, ofJson_of_oversized hover, by decide +kernel⟩

end Storyboard.Easing
