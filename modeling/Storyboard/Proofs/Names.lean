import Storyboard.Expansion
import Storyboard.Flattening

namespace Storyboard

namespace Flattening

/-- A prefix that is nothing or ends in a dot. -/
def Dotted (lead : String) : Prop := lead = "" ∨ ∃ t, lead = t ++ "."

/-- A text without a dot. -/
def Undotted (s : String) : Prop := '.' ∉ s.toList

instance : DecidablePred Undotted := fun s => inferInstanceAs (Decidable ('.' ∉ s.toList))

theorem dotted_append (s : String) : Dotted (s ++ ".") := .inr ⟨s, rfl⟩

theorem localId_eq (lead id : String) :
    localId lead id = if lead ≠ "" ∧ lead.toList <+: id.toList then
      String.ofList (id.toList.drop lead.toList.length) else id := by
  have hempty : (!lead.toList.isEmpty) = decide (lead ≠ "") := by
    by_cases h : lead = ""
    · subst h
      rfl
    · have : lead.toList ≠ [] := by
        intro hnil
        exact h (String.toList_injective hnil)
      simp [h, this]
  rw [localId]
  simp only [hempty, Bool.and_eq_true, decide_eq_true_eq, List.isPrefixOf_iff_prefix]

theorem localId_append (lead id : String) : localId lead (lead ++ id) = id := by
  rw [localId_eq]
  by_cases h : lead = ""
  · subst h
    simp
  · have hprefix : lead.toList <+: (lead ++ id).toList := by
      rw [String.toList_append]
      exact List.prefix_append _ _
    rw [if_pos ⟨h, hprefix⟩, String.toList_append, List.drop_left, String.ofList_toList]

theorem localId_of_unprefixed {lead id : String} (h : ¬ (lead ≠ "" ∧ lead.toList <+: id.toList)) :
    localId lead id = id := by
  rw [localId_eq, if_neg h]

theorem not_prefix_of_dotted {lead id : String} (hlead : Dotted lead) (hid : Undotted id) :
    ¬ (lead ≠ "" ∧ lead.toList <+: id.toList) := by
  intro h
  obtain ⟨hne, tail, htail⟩ := h
  rcases hlead with rfl | ⟨t, rfl⟩
  · exact hne rfl
  · apply hid
    rw [← htail, String.toList_append]
    simp

/-- A name without dots has no dotted prefix to lose. -/
theorem localId_of_undotted {lead id : String} (hlead : Dotted lead) (hid : Undotted id) :
    localId lead id = id := localId_of_unprefixed (not_prefix_of_dotted hlead hid)

/-- Behind the prefix that is taken away, or behind none, a name stays what it is. -/
theorem localId_put {lead put id : String} (hlead : Dotted lead) (hput : put = lead ∨ put = "")
    (hid : Undotted id) : localId lead (put ++ id) = id := by
  rcases hput with rfl | rfl
  · exact localId_append put id
  · rw [String.empty_append, localId_of_undotted hlead hid]

theorem innerPath_of_ne {parent path : String} (h : path ≠ "") :
    innerPath parent (some path) = path := by
  have : (path == "") = false := by simpa using h
  simp [innerPath, this]

theorem innerPath_ne {parent : String} (h : parent ≠ "") (id : Option String) :
    innerPath parent id ≠ "" := by
  cases id with
  | none => exact h
  | some path =>
    by_cases hpath : path = ""
    · subst hpath
      exact h
    · rwa [innerPath_of_ne hpath]

theorem innerNamespace_eq {R : Type} (outer : String) (b : Base R) (info : GroupInfo R) :
    innerNamespace outer b info =
      if Expansion.isGiven info.expandedFrom && Expansion.isGiven b.id then b.id.getD "" ++ "."
      else outer := rfl

end Flattening

namespace Address

theorem join_of_ne {scope : String} (h : scope ≠ "") (id : String) :
    join scope id = scope ++ "." ++ id := by
  have : (scope == "") = false := by simpa using h
  simp [join, this]

theorem join_empty (id : String) : join "" id = id := rfl

theorem append_dot_ne_empty (s t : String) : s ++ "." ++ t ≠ "" := by
  intro h
  have := congrArg String.toList h
  simp at this

theorem join_ne_empty {scope : String} (h : scope ≠ "") (id : String) : join scope id ≠ "" := by
  rw [join_of_ne h]
  exact append_dot_ne_empty scope id

theorem innerPath_join (scope id : String) :
    Flattening.innerPath scope (some (join scope id)) = join scope id := by
  by_cases h : scope = ""
  · subst h
    rw [join_empty]
    by_cases hid : id = ""
    · subst hid
      rfl
    · exact Flattening.innerPath_of_ne hid
  · exact Flattening.innerPath_of_ne (join_ne_empty h id)

theorem intercalate_ne_empty {names : List String} (hne : names ≠ [])
    (hall : ∀ x ∈ names, x ≠ "") : ".".intercalate names ≠ "" := by
  cases names with
  | nil => exact absurd rfl hne
  | cons x rest =>
    cases rest with
    | nil => simpa using hall x List.mem_cons_self
    | cons y rest =>
      rw [String.intercalate_cons_cons]
      exact append_dot_ne_empty _ _

theorem join_intercalate {above : List String} (hall : ∀ x ∈ above, x ≠ "") (id : String) :
    join (".".intercalate above) id = ".".intercalate (above ++ [id]) := by
  by_cases h : above = []
  · subst h
    rw [String.intercalate_nil, join_empty, List.nil_append, String.intercalate_singleton]
  · rw [join_of_ne (intercalate_ne_empty h hall),
      String.intercalate_append_of_ne_nil h (List.cons_ne_nil id []), String.intercalate_singleton]

theorem split_ne_nil (acc cs : List Char) : segments.split acc cs ≠ [] := by
  induction cs generalizing acc with
  | nil => simp [segments.split]
  | cons c cs ih =>
    rw [segments.split]
    split
    · simp
    · exact ih _

theorem segments_ne_nil (path : String) : segments path ≠ [] := split_ne_nil _ _

theorem undotted_of_mem_split {acc cs : List Char} {s : String} (hacc : '.' ∉ acc)
    (hs : s ∈ segments.split acc cs) : Flattening.Undotted s := by
  induction cs generalizing acc with
  | nil =>
    obtain rfl := List.mem_singleton.mp hs
    simpa [Flattening.Undotted] using hacc
  | cons c cs ih =>
    rw [segments.split] at hs
    split at hs
    · rcases List.mem_cons.mp hs with rfl | hs
      · simpa [Flattening.Undotted] using hacc
      · exact ih (List.not_mem_nil) hs
    · rename_i hc
      refine ih ?_ hs
      intro hmem
      rcases List.mem_cons.mp hmem with rfl | hmem
      · exact hc rfl
      · exact hacc hmem

theorem undotted_of_mem_segments {path s : String} (hs : s ∈ segments path) :
    Flattening.Undotted s := undotted_of_mem_split List.not_mem_nil hs

theorem intercalate_split (acc cs : List Char) :
    ".".intercalate (segments.split acc cs) = String.ofList (acc.reverse ++ cs) := by
  induction cs generalizing acc with
  | nil => simp [segments.split]
  | cons c cs ih =>
    rw [segments.split]
    split
    · rename_i hc
      obtain rfl : c = '.' := eq_of_beq hc
      rw [String.intercalate_cons_of_ne_nil (split_ne_nil _ _), ih]
      apply String.toList_injective
      simp
    · rw [ih]
      simp

theorem intercalate_segments (path : String) : ".".intercalate (segments path) = path := by
  rw [segments, intercalate_split]
  simp

theorem foldl_join {scope : String} (hscope : scope ≠ "") {names : List String}
    (hnames : names ≠ []) :
    names.foldl join scope = scope ++ "." ++ ".".intercalate names := by
  induction names generalizing scope with
  | nil => exact absurd rfl hnames
  | cons name rest ih =>
    rw [List.foldl_cons, join_of_ne hscope]
    by_cases hrest : rest = []
    · subst hrest
      simp
    · rw [ih (append_dot_ne_empty scope name) hrest, String.intercalate_cons_of_ne_nil hrest]
      simp [String.append_assoc]

/-- An object that a path leads to has the path behind its scope as its id. -/
theorem foldl_segments {scope : String} (hscope : scope ≠ "") (path : String) :
    (segments path).foldl join scope = scope ++ "." ++ path := by
  rw [foldl_join hscope (segments_ne_nil path), intercalate_segments]

end Address

theorem Place.isGiven_text (p : Place) : Expansion.isGiven (some p.text) = true := by
  have hne : p.text ≠ "" := by
    intro h
    have := congrArg String.toList h
    simp [text, Route.text, Route.ofPlace, Route.lead] at this
  simpa [Expansion.isGiven] using hne

end Storyboard
