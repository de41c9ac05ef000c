import Mathlib.Data.Finset.Card
import Mathlib.Data.Nat.Digits.Lemmas
import Storyboard.Proofs.Stores

namespace Storyboard

namespace Text

theorem length_le_points (cs : List Char) : cs.length ≤ 2 * (points cs).length + 1 := by
  induction cs using points.induct with
  | case1 => simp
  | case2 c h => simp [points, h]
  | case3 c h d rest ih =>
    rw [points, if_pos h]
    simp only [List.length_cons]
    omega
  | case4 c rest h ih =>
    rw [points.eq_def]
    simp only [h, Bool.false_eq_true, if_false, List.length_cons]
    omega

end Text

namespace FileName

theorem ne_nil_of_pointBytes? {n : Nat} {bs : List UInt8} (h : pointBytes? n = some bs) :
    bs ≠ [] := by
  rw [pointBytes?] at h
  split at h
  · split at h
    · cases h
      simp
    · cases h
  · cases h
    exact String.utf8EncodeChar_ne_nil

theorem length_le_bytes {ns : List Nat} {parts : List (List UInt8)}
    (h : ns.mapM pointBytes? = some parts) : ns.length ≤ parts.flatten.length := by
  induction ns generalizing parts with
  | nil => simp
  | cons n rest ih =>
    rw [List.mapM_cons] at h
    obtain ⟨bs, hbs, h⟩ := Option.bind_eq_some_iff.mp h
    obtain ⟨others, hothers, h⟩ := Option.bind_eq_some_iff.mp h
    cases h
    have hpos := List.length_pos_iff.mpr (ne_nil_of_pointBytes? hbs)
    have hrest := ih hothers
    simp only [List.length_cons, List.flatten_cons, List.length_append]
    omega

/-- A name is kept as at most two characters for each of its bytes, apart from a mark at its end. -/
theorem length_le_size {name : String} (h : isEncodable name = true) :
    name.toList.length ≤ 2 * size name + 1 := by
  obtain ⟨bytes, hbytes⟩ := Option.isSome_iff_exists.mp h
  obtain ⟨parts, hparts, rfl⟩ := Option.map_eq_some_iff.mp hbytes
  have hsize : size name = parts.flatten.length := by
    rw [size, hbytes]
    rfl
  have hpoints := length_le_bytes hparts
  have hchars := Text.length_le_points name.toList
  rw [Text.pointsOf] at hpoints
  omega

end FileName

namespace Place

/-- The characters of a name as digits that are not one. -/
def nameDigits (name : String) : List Nat := name.toList.map (·.toNat + 2)

/-- The names of a place as digits, with a one in front of each of them. -/
def digits (names : List String) : List Nat := names.flatMap fun n => 1 :: nameDigits n

theorem nameDigits_injective : Function.Injective nameDigits := by
  intro a b h
  refine String.toList_injective (List.map_injective_iff.mpr ?_ h)
  intro c d hcd
  exact Char.toNat_inj.mp (Nat.add_right_cancel hcd)

/-- Digits that are not one end where a one comes, or nothing. -/
theorem takeWhile_nameDigits (name : String) (rest : List String) :
    (nameDigits name ++ digits rest).takeWhile (· ≠ 1) = nameDigits name := by
  have hname : ∀ n ∈ nameDigits name, decide (n ≠ 1) = true := by
    intro n hn
    obtain ⟨c, -, rfl⟩ := List.mem_map.mp hn
    simp
  rw [List.takeWhile_append_of_pos hname]
  cases rest with
  | nil => simp [digits]
  | cons m rest => simp [digits]

theorem digits_injective : Function.Injective digits := by
  intro names others h
  induction names generalizing others with
  | nil => cases others with
    | nil => rfl
    | cons m others => simp [digits] at h
  | cons n names ih => cases others with
    | nil => simp [digits] at h
    | cons m others =>
      have hrest : nameDigits n ++ digits names = nameDigits m ++ digits others := by
        simpa [digits] using h
      have hname : nameDigits n = nameDigits m := by
        rw [← takeWhile_nameDigits n names, hrest, takeWhile_nameDigits]
      rw [hname] at hrest
      rw [nameDigits_injective hname, ih (List.append_cancel_left hrest)]

theorem mem_digits {names : List String} {n : Nat} (h : n ∈ digits names) :
    1 ≤ n ∧ n < 0x110000 + 2 := by
  obtain ⟨name, -, h⟩ := List.mem_flatMap.mp h
  rcases List.mem_cons.mp h with rfl | h
  · omega
  · obtain ⟨c, -, rfl⟩ := List.mem_map.mp h
    have hc : c.toNat < 0x110000 := by
      rcases c.valid with hc | hc
      · exact Nat.lt_trans hc (by decide)
      · exact hc.2
    omega

theorem length_digits (names : List String) :
    (digits names).length ≤ (Place.text ⟨names⟩).toList.length := by
  have hjoined : (digits names).length ≤ ("/".intercalate names).toList.length + 1 := by
    induction names with
    | nil => simp [digits]
    | cons n rest ih =>
      by_cases hrest : rest = []
      · subst hrest
        simp [digits, nameDigits]
      · have hslash : "/".toList.length = 1 := rfl
        rw [String.intercalate_cons_of_ne_nil hrest]
        simp only [digits, nameDigits, List.flatMap_cons, List.length_append, List.length_cons,
          List.length_map, String.toList_append] at ih ⊢
        omega
  simpa [text, Route.text, Route.lead, Route.ofPlace, Nat.add_comm] using hjoined

/-- The digits of a place as one number. -/
def code (p : Place) : Nat := Nat.ofDigits (0x110000 + 2) (digits p.names)

theorem code_injective : Function.Injective code := by
  intro p q h
  have hdigits (names : List String) :
      Nat.digits (0x110000 + 2) (Nat.ofDigits (0x110000 + 2) (digits names)) = digits names := by
    refine Nat.digits_ofDigits _ (by decide) _ (fun n hn => (mem_digits hn).2) ?_
    intro hne
    have := (mem_digits (List.getLast_mem hne)).1
    omega
  have hnames : digits p.names = digits q.names := by
    rw [← hdigits p.names, ← hdigits q.names]
    exact congrArg _ h
  cases p
  cases q
  exact congrArg mk (digits_injective hnames)

end Place

theorem Route.check_eq_ok {path : String} (h : Route.check path = .ok ()) :
    FileName.isEncodable path = true ∧ FileName.size path ≤ maxPathSize := by
  rw [check] at h
  split at h
  · cases h
  · rename_i hnone
    rw [fault?] at hnone
    split at hnone
    · cases hnone
    · rename_i hencodable
      split at h
      · cases h
      · rename_i hsize
        exact ⟨by simpa using hencodable, Nat.not_lt.mp hsize⟩

section

variable {R : Type} [Scalar R] {d : Disk}

theorem Disk.check_of_readMembers {path : String} {route : Route} {members : Members R}
    (h : d.readMembers path route = .ok members) : Route.check path = .ok () := by
  cases hcheck : Route.check path with
  | ok u => rfl
  | error f =>
    have hbytes : d.bytes path route = .error f := by
      rw [bytes, hcheck]
      rfl
    have hjson : d.readJson (R := R) path route = .error f := by
      rw [readJson, hbytes]
      rfl
    rw [readMembers, hjson] at h
    cases h

namespace Place

theorem lt_limit {n m : Nat} (hm : m ≤ 2 * Route.maxPathSize + 1) (h : n < (0x110000 + 2) ^ m) :
    n < limit := by
  unfold limit
  -- The exponent is generalized so that the power is never computed.
  generalize 2 * Route.maxPathSize + 1 = bound at *
  exact Nat.lt_of_lt_of_le h (Nat.pow_le_pow_right (by decide) hm)

theorem code_lt_limit {p : Place} {members : Members R}
    (h : d.readMembers p.text (Route.ofPlace p) = .ok members) : p.code < limit := by
  obtain ⟨hencodable, hsize⟩ := Route.check_eq_ok (Disk.check_of_readMembers h)
  have hchars := FileName.length_le_size hencodable
  have hdigits := length_digits p.names
  have hlength : (digits p.names).length ≤ 2 * Route.maxPathSize + 1 := by
    change _ ≤ p.text.toList.length at hdigits
    omega
  refine lt_limit hlength ?_
  exact Nat.ofDigits_lt_base_pow_length (by decide) fun n hn => (mem_digits hn).2

end Place

namespace DefinitionStore

omit [Scalar R] in
theorem mem_cache {s : DefinitionStore R} {p : Place} (h : (s.get? p).isSome) :
    p ∈ s.cache.map Prod.fst := by
  rw [get?, Option.isSome_map] at h
  obtain ⟨e, he⟩ := Option.isSome_iff_exists.mp h
  have hp := List.find?_some he
  obtain rfl : e.1 = p := eq_of_beq hp
  exact List.mem_map_of_mem (List.mem_of_find?_eq_some he)

/-- Distinct places for which a store gives definitions are no more than those it has read and those
that can be read at all. -/
theorem length_le_limit {s : DefinitionStore R} {places : List Place} (hnodup : places.Nodup)
    (hgives : ∀ p ∈ places, ∃ members, s.Gives d p members) :
    places.length ≤ Place.limit + s.size := by
  have hcached : (places.filter fun p => (s.get? p).isSome).length ≤ s.size := by
    have hsub : (places.filter fun p => (s.get? p).isSome) ⊆ s.cache.map Prod.fst :=
      fun p hp => mem_cache (List.mem_filter.mp hp).2
    simpa [size] using ((hnodup.filter _).subperm hsub).length_le
  have hread : (places.filter fun p => !(s.get? p).isSome).length ≤ Place.limit := by
    have hsub : (places.filter fun p => !(s.get? p).isSome).map Place.code ⊆
        List.range Place.limit := by
      intro n hn
      obtain ⟨p, hp, rfl⟩ := List.mem_map.mp hn
      obtain ⟨hp, hnew⟩ := List.mem_filter.mp hp
      obtain ⟨members, hget | ⟨-, hfile⟩⟩ := hgives p hp
      · simp [hget] at hnew
      · exact List.mem_range.mpr (Place.code_lt_limit hfile)
    have hcodes := (hnodup.filter fun p => !(s.get? p).isSome).map Place.code_injective
    simpa using (hcodes.subperm hsub).length_le
  have := List.length_eq_length_filter_add (l := places) fun p => (s.get? p).isSome
  omega

end DefinitionStore

end

end Storyboard
