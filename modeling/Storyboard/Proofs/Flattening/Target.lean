import Mathlib.Data.List.ReduceOption
import Storyboard.Proofs.Address
import Storyboard.Proofs.Expansion.Passage
import Storyboard.Proofs.Flattening.Emission

namespace Storyboard.Flattening

variable {R : Type}

/-- A target that is looked up from a scope leads to the object with an id, if it leads anywhere. -/
def Reaches (objects : List (Object R)) (scope target id : String) : Prop :=
  match (Address.find objects target scope).map Object.id with
  | some found => found = some id
  | none => Address.endsIn id target = true

/-- A target that begins with a prefix, and without it leads to an object as well. -/
def Misleads (objects : List (Object R)) (scope lead target : String) : Prop :=
  lead ≠ "" ∧ ∃ rest, target = lead ++ rest ∧ (Address.find objects rest scope).isSome

theorem mem_descendants {objects : List (Object R)} {o : Object R} {id target : String}
    (ho : o ∈ Address.walk objects) (hid : o.id = some id) :
    o ∈ Address.descendants objects target ↔ Address.endsIn id target = true := by
  rw [Address.descendants, List.mem_filter, hid]
  exact and_iff_right ho

theorem resolveTarget_eq_ok {objects : List (Object R)} {scope target : String} {o : Object R}
    (h : resolveTarget target objects scope = .ok o) :
    Address.find objects target scope = some o ∨
      Address.find objects target scope = none ∧ Address.descendants objects target = [o] := by
  rw [resolveTarget] at h
  split at h
  · rename_i found hfound
    cases h
    exact .inl hfound
  · rename_i hnone
    split at h
    · rename_i found hfound
      cases h
      exact .inr ⟨hnone, hfound⟩
    · cases h
    · cases h

theorem id_of_resolveTarget {objects : List (Object R)} {scope target : String} {o : Object R}
    (h : resolveTarget target objects scope = .ok o) : ∃ id, o.id = some id := by
  rcases resolveTarget_eq_ok h with hfind | ⟨-, hall⟩
  · exact ⟨_, (Address.id_of_follow hfind).1⟩
  · have hmem : o ∈ Address.descendants objects target := by simp [hall]
    have hid := (List.mem_filter.mp hmem).2
    cases ho : o.id with
    | none => simp [ho] at hid
    | some id => exact ⟨id, rfl⟩

theorem resolveTarget_reaches {objects : List (Object R)} {scope target id : String}
    {o c : Object R} (h : resolveTarget target objects scope = .ok o)
    (hc : c ∈ Address.walk objects) (hid : c.id = some id) :
    o.id = some id ↔ Reaches objects scope target id := by
  rcases resolveTarget_eq_ok h with hfind | ⟨hfind, hall⟩
  · rw [Reaches, hfind]
    rfl
  · rw [Reaches, hfind]
    change o.id = some id ↔ Address.endsIn id target = true
    constructor
    · intro ho
      have hmem : o ∈ Address.descendants objects target := by simp [hall]
      exact (mem_descendants (List.mem_filter.mp hmem).1 ho).mp hmem
    · intro hends
      have hmem := (mem_descendants hc hid).mpr hends
      rw [hall] at hmem
      rw [← List.mem_singleton.mp hmem, hid]

theorem reaches_congr {objects others : List (Object R)} {scope target id : String}
    (h : (Address.find others target scope).map Object.id =
      (Address.find objects target scope).map Object.id) :
    Reaches others scope target id ↔ Reaches objects scope target id := by
  rw [Reaches, Reaches, h]

theorem misleads_congr {objects others : List (Object R)} {scope lead target : String}
    (h : ∀ rest, (Address.find others rest scope).map Object.id =
      (Address.find objects rest scope).map Object.id) :
    Misleads others scope lead target ↔ Misleads objects scope lead target := by
  have hsome (rest : String) : (Address.find others rest scope).isSome =
      (Address.find objects rest scope).isSome := by
    rw [← Option.isSome_map (f := Object.id), h rest, Option.isSome_map]
  simp only [Misleads, hsome]

theorem endsIn_of_dotted {scope lead rest : String} (hlead : Dotted lead) (hne : lead ≠ "") :
    Address.endsIn (scope ++ "." ++ (lead ++ rest)) rest = true := by
  obtain ⟨t, rfl⟩ : ∃ t, lead = t ++ "." := by
    rcases hlead with rfl | h
    · exact absurd rfl hne
    · exact h
  rw [Address.endsIn, Bool.or_eq_true, List.isSuffixOf_iff_suffix]
  refine .inr ⟨(scope ++ "." ++ t).toList, ?_⟩
  simp

/-- A path that leads to an object does so as a target, unless flattening takes something away from
it and what stays leads elsewhere. -/
theorem reaches_localId {objects : List (Object R)} {scope lead target : String} {c : Object R}
    (hlead : Dotted lead) (hscope : lead ≠ "" → scope ≠ "")
    (hc : Address.find objects target scope = some c) {id : String} (hid : c.id = some id) :
    Reaches objects scope (localId lead target) id ↔ ¬ Misleads objects scope lead target := by
  by_cases hprefix : lead ≠ "" ∧ lead.toList <+: target.toList
  · obtain ⟨hne, tail, htail⟩ := hprefix
    have htarget : target = lead ++ String.ofList tail := by
      apply String.toList_injective
      simp [htail]
    subst htarget
    have hpath : id = scope ++ "." ++ (lead ++ String.ofList tail) := by
      have := (Address.id_of_follow hc).1
      rw [Address.foldl_segments (hscope hne), hid] at this
      exact Option.some.inj this
    rw [localId_append, Reaches]
    cases hfind : Address.find objects (String.ofList tail) scope with
    | none =>
      have hnot : ¬ Misleads objects scope lead (lead ++ String.ofList tail) := by
        intro h
        obtain ⟨-, rest, hrest, hsome⟩ := h
        rw [← (String.append_right_inj lead).mp hrest, hfind] at hsome
        cases hsome
      rw [hpath]
      exact iff_of_true (endsIn_of_dotted hlead hne) hnot
    | some o =>
      have hmisleads : Misleads objects scope lead (lead ++ String.ofList tail) :=
        ⟨hne, _, rfl, by rw [hfind]; rfl⟩
      have ho : o.id ≠ some id := by
        intro ho
        have := (Address.id_of_follow hfind).1
        rw [Address.foldl_segments (hscope hne), ho, hpath, Option.some.injEq] at this
        have hsame := congrArg String.toList ((String.append_right_inj _).mp this)
        have hempty : lead.toList = [] := by simpa using hsame
        exact hne (String.toList_injective hempty)
      exact iff_of_false ho (not_not_intro hmisleads)
  · have hnot : ¬ Misleads objects scope lead target := by
      intro h
      obtain ⟨hne, rest, rfl, -⟩ := h
      exact hprefix ⟨hne, by simp⟩
    rw [localId_of_unprefixed hprefix, Reaches, hc]
    exact iff_of_true hid hnot

/-- A level whose prefix, if it has one, ends in a dot and stands below some path. -/
structure Level.Regular (l : Level) : Prop where
  dotted : Dotted l.lead
  placed : l.lead ≠ "" → l.path ≠ ""

namespace Level.Regular

variable {l : Level}

theorem root : Level.root.Regular := ⟨.inl rfl, fun h => absurd rfl h⟩

theorem inside (h : l.Regular) (o : Object R) : (l.inside o).Regular := by
  cases o with
  | shape b s e => exact h
  | reference b r e => exact h
  | group b cs info e =>
    rw [Level.inside, innerNamespace_eq]
    split
    · rename_i hgiven
      refine ⟨dotted_append _, fun _ => ?_⟩
      cases hid : b.id with
      | none => simp [hid, Expansion.isGiven] at hgiven
      | some raw =>
        rw [fullId_some]
        change innerPath l.path (some (Address.join l.path (localId l.lead raw))) ≠ ""
        by_cases hpath : l.path = ""
        · have hlead : l.lead = "" := not_not.mp fun hne => h.placed hne hpath
          have hraw : localId l.lead raw = raw :=
            localId_of_unprefixed fun hprefix => hprefix.1 hlead
          rw [hraw, hpath, Address.innerPath_join, Address.join_empty]
          simpa [hid, Expansion.isGiven] using (Bool.and_eq_true_iff.mp hgiven).2
        · exact innerPath_ne hpath _
    · exact ⟨h.dotted, fun hne => innerPath_ne (h.placed hne) _⟩

theorem foldl (h : l.Regular) (way : List (Object R)) : (way.foldl Level.inside l).Regular := by
  induction way generalizing l with
  | nil => exact h
  | cons o rest ih => exact ih (h.inside o)

end Level.Regular

theorem reduceOption_trail {l : Level} {put : String} {b : Base R} {ids : List (Option String)}
    {names : List String} (hdotted : Dotted l.lead) (hput : put = l.lead ∨ put = "")
    (hb : ∀ s ∈ b.id.toList, Undotted s)
    (hids : ids.reduceOption =
      Address.trail (innerPath l.path (l.fullId (Instance.behind put b).id)) names) :
    (l.fullId (Instance.behind put b).id :: ids).reduceOption =
      Address.trail l.path (b.id.toList ++ names) := by
  cases hid : b.id with
  | none =>
    have hnone : (Instance.behind put b).id = none := by simp [hid]
    rw [hnone, Level.fullId_none] at hids ⊢
    rw [List.reduceOption_cons_of_none, hids]
    rfl
  | some raw =>
    have hsome : l.fullId (Instance.behind put b).id = some (Address.join l.path raw) := by
      rw [Instance.behind_id, hid, Option.map_some, Level.fullId_some,
        localId_put hdotted hput (hb raw (by simp [hid]))]
    rw [hsome, Address.innerPath_join] at hids
    rw [hsome, List.reduceOption_cons_of_some, hids]
    rfl

/-- Groups that are not marked as a file's keep the prefixes, so below them an object gets the names
on the way down to it, joined to the scope one after another. -/
theorem idsAlong_trail {x : Instance.Prefixes} {l : Level} {front : List (Instance R)}
    {way : List (Object R)} {i : Instance R} {o : Object R} (h : Instance.Passes x front way)
    (hl : l.lead = x.taken) (hdotted : Dotted l.lead) (hput : x.put = l.lead ∨ x.put = "")
    (hown : ∀ j ∈ front, j.declared.children ≠ [] ∧
      Expansion.isGiven j.declared.groupInfo.expandedFrom = false)
    (ho : o.id = (Instance.behind (front.foldl Instance.Prefixes.inside x).put i.base).id)
    (hplain : ∀ s ∈ Instance.names (front ++ [i]), Undotted s) :
    (l.idsAlong (way ++ [o])).reduceOption =
      Address.trail l.path (Instance.names (front ++ [i])) := by
  induction h generalizing l with
  | nil x =>
    rw [List.nil_append, Level.idsAlong, ho]
    have hname : ∀ s ∈ i.base.id.toList, Undotted s := fun s hs =>
      hplain s (by simpa [Instance.names] using hs)
    exact reduceOption_trail hdotted hput hname rfl
  | @group x b cs info e front way children h ih =>
    have hinfo : Expansion.isGiven info.expandedFrom = false := (hown _ List.mem_cons_self).2
    have hx : x.inside (.group b cs info e) = x := by
      simp [Instance.Prefixes.inside, innerNamespace_eq, hinfo]
    have hlead : (l.inside (.group (Instance.behind x.put b) children info e)).lead = l.lead := by
      rw [Level.inside, innerNamespace_eq, hinfo]
      rfl
    rw [hx] at ih
    refine reduceOption_trail hdotted hput (fun s hs => hplain s (List.mem_append_left _ hs)) ?_
    refine ih (l := l.inside (.group (Instance.behind x.put b) children info e))
      (hlead.trans hl) (hlead ▸ hdotted) (hlead ▸ hput)
      (fun j hj => hown j (List.mem_cons_of_mem _ hj)) (hx ▸ ho) ?_
    exact fun s hs => hplain s (List.mem_append_right _ hs)
  | @opened x b r e place file cs front way children resolved h ih =>
    exact absurd rfl (hown _ List.mem_cons_self).1

end Storyboard.Flattening
