import Storyboard.Proofs.Exact
import Storyboard.Proofs.Flattening.Source
import Storyboard.Proofs.Keyframes
import Storyboard.Proofs.Pace.Objects

namespace Storyboard

open Flattening

namespace TimeScope

/-- A group starts where it does at any speed. -/
theorem enter_eq (s : TimeScope Rat) (info : GroupInfo Rat) (fps : Number Rat) :
    ∃ speed, s.enter info fps =
      (Time.frameOrZero fps info.start).map fun n => ⟨s.start + n, speed⟩ := by
  obtain ⟨speed, hspeed⟩ := Number.mul_ok s.speed (.real (info.speed.getD (Scalar.const 1 0)))
  refine ⟨speed, ?_⟩
  rw [enter, hspeed]
  cases Time.frameOrZero fps info.start <;> rfl

theorem toAbsolute_ok {s : TimeScope Rat} (h : 0 < s.speed.value) (n : Int) :
    ∃ frame, s.toAbsolute (.int n) = .ok frame := by
  obtain ⟨scaled, hscaled⟩ := Number.div_ok (a := .int n) h.ne'
  exact ⟨_, Outcome.bind_eq_ok.mpr ⟨scaled, hscaled,
    Outcome.bind_eq_ok.mpr ⟨_, Number.roundFrame_eq scaled, rfl⟩⟩⟩

/-- On ways down that differ in speeds only, scopes start together. -/
theorem along_steady {fps : Number Rat} {s s' own : TimeScope Rat} {way way' : List (Object Rat)}
    (hway : way'.map Object.steady = way.map Object.steady) (hstart : s'.start = s.start)
    (hspeed : 0 < s'.speed.value)
    (hforward : ∀ o ∈ way', ∀ v, o.groupInfo.speed = some v → 0 < v)
    (h : along fps s way = .ok own) :
    ∃ own', along fps s' way' = .ok own' ∧ own'.start = own.start ∧ 0 < own'.speed.value := by
  induction way generalizing s s' way' with
  | nil =>
    obtain rfl := List.map_eq_nil_iff.mp hway
    cases h
    exact ⟨s', rfl, hstart, hspeed⟩
  | cons o way ih =>
    obtain ⟨o', rest, rfl, ho, hrest⟩ := List.map_eq_cons_iff.mp hway
    obtain ⟨t, ht, h⟩ := along_cons_eq_ok.mp h
    obtain ⟨n, hn, htstart, -⟩ := enter_eq_ok.mp ht
    have hinfo : o'.groupInfo.steady = o.groupInfo.steady := by
      rw [← Object.steady_groupInfo, ho, Object.steady_groupInfo]
    have hn' : Time.frameOrZero fps o'.groupInfo.start = .ok n := by
      have hsame : o'.groupInfo.steady.start = o.groupInfo.steady.start := by rw [hinfo]
      exact (congrArg (Time.frameOrZero fps) hsame).trans hn
    obtain ⟨product, hproduct⟩ :=
      Number.mul_ok s'.speed (.real (o'.groupInfo.speed.getD (Scalar.const 1 0)))
    have hpositive : 0 < product.value := by
      rw [Number.mul_eq_ok hproduct]
      refine mul_pos hspeed ?_
      cases hv : o'.groupInfo.speed with
      | none => exact Scalar.const_one ▸ one_pos
      | some v => exact hforward o' List.mem_cons_self v hv
    have henter : s'.enter o'.groupInfo fps = .ok ⟨s'.start + n, product⟩ :=
      enter_eq_ok.mpr ⟨n, hn', rfl, hproduct⟩
    have hsame : s'.start + n = t.start := by rw [htstart, hstart]
    obtain ⟨own', hown', hstart', hspeed'⟩ := @ih t ⟨s'.start + n, product⟩ _ hrest hsame hpositive
      (fun x hx => hforward x (List.mem_cons_of_mem _ hx)) h
    exact ⟨own', along_cons_eq_ok.mpr ⟨_, henter, hown'⟩, hstart', hspeed'⟩

end TimeScope

namespace Flattening

theorem inside_steady (l : Level) (o : Object Rat) : l.inside o.steady = l.inside o := by
  cases o <;> rfl

theorem along_map_steady (way : List (Object Rat)) :
    Level.along (way.map Object.steady) = Level.along way := by
  have hfrom (l : Level) : (way.map Object.steady).foldl Level.inside l =
      way.foldl Level.inside l := by
    induction way generalizing l with
    | nil => rfl
    | cons o rest ih => rw [List.map_cons, List.foldl_cons, inside_steady, ih, List.foldl_cons]
  exact hfrom _

theorem absolute_steady_of (fps : Number Rat) (l : Level) {s s' : TimeScope Rat}
    (hstart : s'.start = s.start) {o : Object Rat}
    (hchildren : ∀ (t t' : TimeScope Rat), t'.start = t.start →
      absoluteAll fps (l.inside o) t' (Object.steadyAll o.children) =
        (absoluteAll fps (l.inside o) t o.children).map Object.steadyAll) :
    absolute fps l s' o.steady = (absolute fps l s o).map Object.steady := by
  cases o with
  | shape b sh e | reference b r e => rfl
  | group b cs info e =>
    obtain ⟨speed, henter⟩ := TimeScope.enter_eq s info fps
    obtain ⟨speed', henter'⟩ := TimeScope.enter_eq s' info.steady fps
    have hinside : l.inside (.group b (Object.steadyAll cs) info.steady e) =
        l.inside (.group b cs info e) := rfl
    rw [Object.steady, absolute, absolute, henter, henter', hinside, Outcome.bind_map,
      Outcome.bind_map, Outcome.map_bind]
    refine bind_congr fun n => ?_
    have hn := hchildren ⟨s.start + n, speed⟩ ⟨s'.start + n, speed'⟩ (congrArg (· + n) hstart)
    rw [show absoluteAll fps _ _ (Object.steadyAll cs) = _ from hn, Outcome.bind_map,
      Outcome.map_bind]
    refine bind_congr fun children => ?_
    rw [Outcome.map_bind]
    refine bind_congr fun duration => ?_
    rw [hstart]
    rfl

/-- The absolute form of a tree has the speeds of the tree and depends on them no further. -/
theorem absoluteAll_steadyAll (fps : Number Rat) (l : Level) {s s' : TimeScope Rat}
    (hstart : s'.start = s.start) (objects : List (Object Rat)) :
    absoluteAll fps l s' (Object.steadyAll objects) =
      (absoluteAll fps l s objects).map Object.steadyAll := by
  induction objects using Object.descent generalizing l s s' with
  | nil => rfl
  | cons o rest ihChildren ihRest =>
    have ho := absolute_steady_of fps l hstart fun t t' ht => ihChildren _ ht
    rw [Object.steadyAll, absoluteAll, absoluteAll, ho, ihRest l hstart]
    cases absolute fps l s o with
    | error f => rfl
    | ok c => cases absoluteAll fps l s rest <;> rfl

theorem absolute_repaced {fps : Number Rat} {l : Level} {s s' : TimeScope Rat}
    {o o' c : Object Rat} (hstart : s'.start = s.start) (ho : o'.steady = o.steady)
    (h : absolute fps l s o = .ok c) :
    ∃ c', absolute fps l s' o' = .ok c' ∧ c'.steady = c.steady := by
  have hsteady := absolute_steady_of fps l (rfl : s'.start = s'.start) (o := o')
    fun t t' ht => absoluteAll_steadyAll fps _ ht o'.children
  rw [ho, absolute_steady_of fps l hstart fun t t' ht => absoluteAll_steadyAll fps _ ht o.children,
    h] at hsteady
  obtain ⟨c', hc', hsame⟩ := Outcome.map_eq_ok.mp hsteady.symm
  exact ⟨c', hc', hsame⟩

theorem absoluteAll_repaced {fps : Number Rat} {l : Level} {s s' : TimeScope Rat}
    {objects objects' compiled : List (Object Rat)} (hstart : s'.start = s.start)
    (hobjects : Object.steadyAll objects' = Object.steadyAll objects)
    (h : absoluteAll fps l s objects = .ok compiled) :
    ∃ compiled', absoluteAll fps l s' objects' = .ok compiled' ∧
      Object.steadyAll compiled' = Object.steadyAll compiled := by
  have hsteady := absoluteAll_steadyAll fps l (rfl : s'.start = s'.start) objects'
  rw [hobjects, absoluteAll_steadyAll fps l hstart, h] at hsteady
  obtain ⟨compiled', hcompiled', hsame⟩ := Outcome.map_eq_ok.mp hsteady.symm
  exact ⟨compiled', hcompiled', hsame⟩

theorem opened_repaced {objects objects' way way' : List (Object Rat)}
    (hobjects : Object.steadyAll objects' = Object.steadyAll objects)
    (hway : way'.map Object.steady = way.map Object.steady) :
    Object.steadyAll (opened Object.children objects' way') =
      Object.steadyAll (opened Object.children objects way) := by
  have hlast := congrArg List.getLast? hway
  rw [List.getLast?_map, List.getLast?_map] at hlast
  rw [opened, opened]
  cases ho : way.getLast? with
  | none =>
    rw [ho] at hlast
    rw [Option.map_eq_none_iff.mp hlast]
    exact hobjects
  | some o =>
    rw [ho] at hlast
    obtain ⟨o', ho', hsame⟩ := Option.map_eq_some_iff.mp hlast
    rw [ho']
    simp only [← Object.steady_children, hsame]

/-- A source in a tree in which every speed is one. -/
def Source.steady (src : Source Rat) : Source Rat :=
  ⟨src.position, src.way.map Object.steady, src.cause⟩

theorem sourcesFrom_steadyAll (position : List Nat) (way : List (Object Rat)) (i : Nat)
    (objects : List (Object Rat)) :
    sourcesFrom position (way.map Object.steady) i (Object.steadyAll objects) =
      (sourcesFrom position way i objects).map Source.steady := by
  induction objects using Object.descent generalizing position way i with
  | nil => rfl
  | cons o rest ihChildren ihRest =>
    have hcauses : ownCauses o.steady.base o.steady.groupInfo = ownCauses o.base o.groupInfo := by
      rw [Object.steady_base, Object.steady_groupInfo]
      rfl
    have hway : way.map Object.steady ++ [o.steady] = (way ++ [o]).map Object.steady := by simp
    rw [Object.steadyAll, sourcesFrom, sourcesFrom, sources_eq, sources_eq, hcauses,
      Object.steady_children, hway, ihChildren, ihRest]
    simp [Source.steady, Function.comp_def]

theorem sourcesOfAll_steadyAll (objects : List (Object Rat)) (entries : List (Entry Rat)) :
    sourcesOfAll (Object.steadyAll objects) entries =
      (sourcesOfAll objects entries).map Source.steady := by
  have hfrom := sourcesFrom_steadyAll [] [] 0 objects
  rw [List.map_nil] at hfrom
  rw [sourcesOfAll, hfrom, sourcesOfAll]
  simp [Source.steady, Function.comp_def]

end Flattening

end Storyboard
