import Storyboard.Proofs.Address
import Storyboard.Proofs.Expansion.Failure
import Storyboard.Rational

namespace Storyboard

namespace Expansion

variable {R : Type} [Scalar R]

variable {d : Disk} {fps : Number R}

/-- Files that references name one inside the other, beginning with one among some objects. -/
inductive Linked (d : Disk) (s : DefinitionStore R) : Place → List (Object R) → List Place → Prop
  | last {folder objects b r e src place} (hmem : .reference b r e ∈ Address.walk objects)
      (hsrc : source b r = .ok src) (hlocate : Place.locate folder src = .ok place) :
      Linked d s folder objects [place]
  | more {folder objects b r e src place payload file places}
      (hmem : .reference b r e ∈ Address.walk objects) (hsrc : source b r = .ok src)
      (hlocate : Place.locate folder src = .ok place) (hgives : s.Gives d place payload)
      (hfile : define r.kind place.text payload = .ok file)
      (h : Linked d s place.folder (prefixedAll (lead b) file.objects) places) :
      Linked d s folder objects (place :: places)

/-- Files of which none comes twice or is open around them. -/
def Fresh (chain places : List Place) : Prop := places.Nodup ∧ ∀ p ∈ places, p ∉ chain

theorem Linked.mono {s t : DefinitionStore R} (hst : s.Within d t) {folder : Place}
    {objects : List (Object R)} {places : List Place} (h : Linked d s folder objects places) :
    Linked d t folder objects places := by
  induction h with
  | last hmem hsrc hlocate => exact .last hmem hsrc hlocate
  | more hmem hsrc hlocate hgives hfile h ih =>
    exact .more hmem hsrc hlocate (hst _ _ hgives) hfile ih

theorem Comes.mem {x : Expander R} {c : Context} {objects : List (Object R)}
    {s : DefinitionStore R} {k : Call R} (h : Comes x fps c objects s k) :
    ∃ e, .reference k.base k.ref e ∈ Address.walk objects := by
  induction h with
  | here c b r e rest s => exact ⟨e, by simp [Address.walk_cons]⟩
  | inside hstart h ih =>
    obtain ⟨e, he⟩ := ih
    refine ⟨e, ?_⟩
    rw [Address.walk_cons]
    exact List.mem_append_left _ (List.mem_cons_of_mem _ he)
  | beside hfirst h ih =>
    obtain ⟨e, he⟩ := ih
    refine ⟨e, ?_⟩
    rw [Address.walk_cons]
    exact List.mem_append_right _ he

/-- The files that are open at a call are linked, and so is the file that it names. -/
theorem Comes.linked {c : Context} {objects : List (Object R)} {s : DefinitionStore R}
    {k₀ k : Call R} {src : String} {place : Place}
    (hcomes : Comes (expandFully d fps) fps c objects s k₀) (hreaches : k₀.Reaches d fps k)
    (hsrc : source k.base k.ref = .ok src)
    (hlocate : Place.locate k.context.folder src = .ok place) :
    ∃ opened, k.context.chain = c.chain ++ opened ∧
      Linked d s c.folder objects (opened ++ [place]) := by
  induction hreaches using Relation.ReflTransGen.head_induction_on generalizing c objects s with
  | refl =>
    obtain ⟨e, hmem⟩ := hcomes.mem
    obtain ⟨hfolder, hchain⟩ := hcomes.context
    rw [hfolder] at hlocate
    exact ⟨[], by rw [hchain, List.append_nil], .last hmem hsrc hlocate⟩
  | @head k₀ k₁ hnests _ ih =>
    obtain ⟨o, s₁, hopening, hinner⟩ := hnests
    obtain ⟨opened, hopened, hlinked⟩ := ih hinner
    obtain ⟨src₀, payload, hsrc₀, hlocate₀, -, hload, hfile, -⟩ := opening_yields.mp hopening
    obtain ⟨hgives, hwithin⟩ := DefinitionStore.load_yields hload
    obtain ⟨e, hmem⟩ := hcomes.mem
    obtain ⟨hfolder, hchain⟩ := hcomes.context
    have hstore := hcomes.within (keeps_expandFully d fps)
    rw [hfolder] at hlocate₀
    refine ⟨o.place :: opened, ?_, ?_⟩
    · rw [hopened, Opening.context, hchain, List.append_assoc]
      rfl
    · exact .more hmem hsrc₀ hlocate₀ (hstore _ _ hgives) hfile
        (hlinked.mono (hwithin.trans hstore))

/-- References among instances have been opened in the folder of the instances. -/
theorem opened_of_mem {folder : Place} {chain : List Place} {lead : String}
    {instances : List (Instance R)} {s : DefinitionStore R} {b : Base R} {r : Reference R}
    {e : Members R} (hvalid : Instance.ValidAll d s folder chain instances)
    (hmem : .reference b r e ∈ Address.walk (prefixedAll lead (Instance.declaredAll instances))) :
    ∃ b' place file cs, b = Instance.behind lead b' ∧
      (Instance.opened b' r e place file cs).Valid d s folder chain := by
  induction instances using Instance.forest with
  | nil => simp [Instance.declaredAll, prefixedAll, Address.walk] at hmem
  | shape b' sh e' rest ih =>
    rw [Instance.declaredAll, prefixedAll, Address.walk_cons] at hmem
    have hmem : .reference b r e ∈ Address.walk (prefixedAll lead (Instance.declaredAll rest)) := by
      simpa [Instance.declared, prefixed, Object.children, Address.walk] using hmem
    exact ih hvalid.2 hmem
  | group b' cs info e' rest ihChildren ihRest =>
    rw [Instance.declaredAll, prefixedAll, Address.walk_cons] at hmem
    have hmem : .reference b r e ∈ Address.walk (prefixedAll lead (Instance.declaredAll cs)) ∨
        .reference b r e ∈ Address.walk (prefixedAll lead (Instance.declaredAll rest)) := by
      simpa [Instance.declared, prefixed, Object.children] using hmem
    rcases hmem with hmem | hmem
    · exact ihChildren hvalid.1 hmem
    · exact ihRest hvalid.2 hmem
  | opened b' r' e' place file cs rest ihChildren ihRest =>
    rw [Instance.declaredAll, prefixedAll, Address.walk_cons] at hmem
    have hmem : (b = Instance.behind lead b' ∧ r = r' ∧ e = e') ∨
        .reference b r e ∈ Address.walk (prefixedAll lead (Instance.declaredAll rest)) := by
      simpa [Instance.declared, prefixed, Object.children, Address.walk, Instance.behind] using hmem
    rcases hmem with ⟨rfl, rfl, rfl⟩ | hmem
    · exact ⟨b', place, file, cs, rfl, hvalid.1⟩
    · exact ihRest hvalid.2 hmem

/-- Linked files among instances are fresh. -/
theorem Linked.fresh {s : DefinitionStore R} {folder : Place} {objects : List (Object R)}
    {places chain : List Place} {lead : String} {instances : List (Instance R)}
    (h : Linked d s folder objects places)
    (hobjects : objects = prefixedAll lead (Instance.declaredAll instances))
    (hvalid : Instance.ValidAll d s folder chain instances) : Fresh chain places := by
  induction h generalizing chain lead instances with
  | @last folder objects b r e src place hmem hsrc hlocate =>
    subst hobjects
    obtain ⟨b', place', file, cs, rfl, ⟨src', hsrc', hlocate'⟩, hnew, -⟩ :=
      opened_of_mem hvalid hmem
    obtain rfl : src = src' := Option.some.inj ((source_eq_ok hsrc).symm.trans hsrc')
    obtain rfl : place = place' := Except.ok.inj (hlocate.symm.trans hlocate')
    exact ⟨List.nodup_singleton place, by simpa using hnew⟩
  | @more folder objects b r e src place payload file places hmem hsrc hlocate hgives hfile h ih =>
    subst hobjects
    obtain ⟨b', place', file', cs, rfl, ⟨src', hsrc', hlocate'⟩, hnew, ⟨payload', hgives', hfile'⟩,
      hdeclared, hcs⟩ := opened_of_mem hvalid hmem
    obtain rfl : src = src' := Option.some.inj ((source_eq_ok hsrc).symm.trans hsrc')
    obtain rfl : place = place' := Except.ok.inj (hlocate.symm.trans hlocate')
    obtain rfl : payload = payload' := hgives.unique hgives'
    obtain rfl : file = file' := Except.ok.inj (hfile.symm.trans hfile')
    obtain ⟨hnodup, hapart⟩ := ih (by rw [hdeclared]) hcs
    refine ⟨List.nodup_cons.mpr ⟨fun hmem => ?_, hnodup⟩, ?_⟩
    · exact hapart place hmem (by simp)
    · intro p hp
      rcases List.mem_cons.mp hp with rfl | hp
      · exact hnew
      · exact fun hopen => hapart p hp (List.mem_append_left _ hopen)

theorem follows_expandFully (d : Disk) (fps : Number R) : Follows d fps (expandFully d fps) := by
  intro c lead b r e s o s' h
  refine follows_expandReference (Place.limit + s.size + 1) c lead b r e s o s' ?_
  exact (answer_expandFully_self ⟨c, Instance.behind lead b, r, s⟩).symm.trans h

/-- Calls stand in files that were opened one inside the other, all of them given by the store. -/
theorem Calls.opened {c : Context} {objects : List (Object R)} {s : DefinitionStore R} {k : Call R}
    (h : Calls d fps c objects s k) :
    ∃ opened, k.context.chain = c.chain ++ opened ∧ Fresh c.chain opened ∧
      ∀ p ∈ opened, ∃ payload, s.Gives d p payload := by
  obtain ⟨k₀, hcomes, hreaches⟩ := h
  have hopened : ∃ opened, Call.Opened d k₀ opened k := by
    induction hreaches with
    | refl => exact ⟨[], .refl d k₀⟩
    | tail _ hnests ih =>
      obtain ⟨opened, h⟩ := ih
      obtain ⟨place, h'⟩ := h.nests (keeps_expandFully d fps) hnests
      exact ⟨opened ++ [place], h'⟩
  obtain ⟨opened, h⟩ := hopened
  have hchain := hcomes.context.2
  refine ⟨opened, by rw [h.chain, hchain], ⟨h.nodup, fun p hp => ?_⟩, fun p hp => ?_⟩
  · rw [← hchain]
    exact (h.given p hp).1
  · obtain ⟨payload, hgives⟩ := (h.given p hp).2
    exact ⟨payload, hcomes.within (keeps_expandFully d fps) _ _ hgives⟩

theorem expandObjects_circular {c : Context} {objects : List (Object R)} {s : DefinitionStore R}
    {files : List String} :
    (expandObjects d fps c objects).Fails s (.circularReference files) ↔
      ∃ k place, Calls d fps c objects s k ∧ k.Revisits place ∧ files = k.circle place := by
  have hf : ¬ (Fault.circularReference files).Mild R := fun h => Bool.noConfusion h.1
  rw [expandObjects_fails hf]
  constructor
  · rintro ⟨k, hk, ⟨place, hplace, hfiles⟩ | hstrays⟩
    · exact ⟨k, place, hk, hplace, Fault.circularReference.inj hfiles⟩
    · cases hstrays
  · rintro ⟨k, place, hk, hplace, rfl⟩
    exact ⟨k, hk, .inl ⟨place, hplace, rfl⟩⟩

/-- Expansion is the one solution of its recursion. The calls that it comes to are nested in files
that are all distinct. It is refused for a circle exactly if one of the calls leads back to an open
file, with the files that are open and that file; then some linked files are not fresh, and if some
are not, it never gives a tree. -/
theorem expandObjects_ends (d : Disk) (fps : Number R) :
    ∃ x : Expander R, (∀ y, y = expandOne y d fps ↔ y = x) ∧
      ∀ c objects, expandObjects d fps c objects = expandTrees x fps c objects ∧
        ∀ s,
          (∀ k, Calls d fps c objects s k →
            ∃ opened, k.context.chain = c.chain ++ opened ∧ Fresh c.chain opened ∧
              (∀ p ∈ opened, ∃ payload, s.Gives d p payload) ∧
              ∀ files : List Place, (∀ p payload, s.Gives d p payload → p ∈ files) →
                opened.length ≤ files.length) ∧
          (∀ files : List String,
            (expandObjects d fps c objects).Fails s (.circularReference files) ↔
              ∃ k place, Calls d fps c objects s k ∧ k.Revisits place ∧ files = k.circle place) ∧
          ((∀ places, Linked d s c.folder objects places → Fresh c.chain places) →
            ∀ files : List String,
              ¬ (expandObjects d fps c objects).Fails s (.circularReference files)) ∧
          ∀ places, Linked d s c.folder objects places → ¬ Fresh c.chain places →
            ∀ expanded s', ¬ (expandObjects d fps c objects).Yields s expanded s' := by
  refine ⟨expandFully d fps, fun y => ⟨eq_expandFully, ?_⟩, fun c objects => ⟨expandObjects_eq d fps
    c objects, fun s => ⟨?_, fun files => expandObjects_circular, ?_, ?_⟩⟩⟩
  · rintro rfl
    exact expandFully_eq d fps
  · intro k hk
    obtain ⟨opened, hchain, hfresh, hgiven⟩ := hk.opened
    refine ⟨opened, hchain, hfresh, hgiven, fun files hfiles => ?_⟩
    refine (hfresh.1.subperm fun p hp => ?_).length_le
    obtain ⟨payload, hgives⟩ := hgiven p hp
    exact hfiles p payload hgives
  · intro hall files hfails
    obtain ⟨k, place, ⟨k₀, hcomes, hreaches⟩, ⟨src, hsrc, hlocate, hopen⟩, -⟩ :=
      expandObjects_circular.mp hfails
    obtain ⟨opened, hchain, hlinked⟩ := hcomes.linked hreaches hsrc hlocate
    obtain ⟨hnodup, hapart⟩ := hall _ hlinked
    rw [hchain] at hopen
    rcases List.mem_append.mp hopen with hopen | hopen
    · exact hapart place (by simp) hopen
    · exact (List.nodup_append.mp hnodup).2.2 place hopen place (by simp) rfl
  · intro places hlinked hstale expanded s' h
    rw [expandObjects_eq, ← prefixedAll_empty objects] at h
    obtain ⟨instances, hdeclared, hvalid, -⟩ :=
      expandTrees_yields (follows_expandFully d fps) h
    have hobjects : objects = prefixedAll "" (Instance.declaredAll instances) := by
      rw [hdeclared, prefixedAll_empty]
    exact hstale (hlinked.fresh hobjects hvalid)

/-- A component in a file of its own. -/
def componentOf (id source : String) : Json Rat :=
  .obj [("type", .str "component"), ("id", .str id), ("source", .str source)]

/-- A file that holds components. -/
def fileOf (name : String) (components : List (Json Rat)) : Place × Members Rat :=
  (⟨[name]⟩, [("objects", .arr components)])

/-- A reference to a file. -/
def referenceTo (source : String) : Object Rat :=
  .reference (.ofId (some "root")) ⟨.component [], some source, none, none, none⟩ []

example :
    ((expandObjects Disk.empty (.real 30) ⟨⟨[]⟩, 0, []⟩ [referenceTo "a.json"]).exec
      ⟨[fileOf "a.json" [componentOf "b" "b.json"],
        fileOf "b.json" [componentOf "a" "a.json"]]⟩).1.map List.length =
      (.error (.circularReference ["/a.json", "/b.json", "/a.json"]) : Outcome Nat) := by
  decide +kernel

/-- Two files that hold the same third one make no circle. -/
example :
    ((expandObjects Disk.empty (.real 30) ⟨⟨[]⟩, 0, []⟩ [referenceTo "a.json"]).exec
      ⟨[fileOf "a.json" [componentOf "b" "b.json", componentOf "c" "c.json"],
        fileOf "b.json" [componentOf "d" "d.json"], fileOf "c.json" [componentOf "d" "d.json"],
        fileOf "d.json" []]⟩).1.map List.length = (.ok 1 : Outcome Nat) := by
  decide +kernel

end Expansion

end Storyboard
