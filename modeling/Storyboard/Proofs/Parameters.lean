import Storyboard.Proofs.Templates

namespace Storyboard

namespace Json

variable {R : Type}

/-- What stands directly in a value. -/
def children : Json R → List (Json R)
  | .arr items => items
  | .obj members => members.map Prod.snd
  | _ => []

/-- The value at the end of a way down, which is given by the place to take in each value. -/
def follow : List Nat → Json R → Option (Json R)
  | [], j => some j
  | i :: way, j => j.children[i]?.bind (follow way)

theorem follow_cons_eq_some {i : Nat} {way : List Nat} {j here : Json R} :
    j.follow (i :: way) = some here ↔ ∃ c, j.children[i]? = some c ∧ c.follow way = some here :=
  Option.bind_eq_some_iff

theorem sizeOf_lt_of_mem_children {c j : Json R} (h : c ∈ j.children) : sizeOf c < sizeOf j := by
  cases j with
  | arr items =>
    have := List.sizeOf_lt_of_mem (show c ∈ items from h)
    simp only [arr.sizeOf_spec]
    omega
  | obj members =>
    obtain ⟨⟨name, value⟩, hm, rfl⟩ := List.mem_map.mp h
    have := List.sizeOf_lt_of_mem hm
    simp only [obj.sizeOf_spec, Prod.mk.sizeOf_spec] at this ⊢
    omega
  | null | bool | num | str => cases h

/-- Induction over a value by what stands directly in it. -/
theorem induction_children {motive : Json R → Prop}
    (step : ∀ j : Json R, (∀ c ∈ j.children, motive c) → motive j) (j : Json R) : motive j :=
  step j fun c _ => induction_children step c
termination_by sizeOf j
decreasing_by exact sizeOf_lt_of_mem_children ‹_›

/-- What the change of texts makes of one value: a list keeps its length and an object its names,
and only a text may become something else. -/
inductive Carried (leaf : String → Json R → Prop) : Json R → Json R → Prop where
  | null : Carried leaf .null .null
  | bool (b : Bool) : Carried leaf (.bool b) (.bool b)
  | num (n : Number R) : Carried leaf (.num n) (.num n)
  | text {s : String} {j : Json R} (h : leaf s j) : Carried leaf (.str s) j
  | list {items items' : List (Json R)} (h : items'.length = items.length) :
    Carried leaf (.arr items) (.arr items')
  | object {members members' : Members R} (h : members'.map Prod.fst = members.map Prod.fst) :
    Carried leaf (.obj members) (.obj members')

theorem Carried.imp {leaf leaf' : String → Json R → Prop} {j j' : Json R} (h : Carried leaf j j')
    (himp : ∀ s, j = .str s → leaf s j' → leaf' s j') : Carried leaf' j j' := by
  cases h with
  | null => exact .null
  | bool b => exact .bool b
  | num n => exact .num n
  | text h => exact .text (himp _ rfl h)
  | list h => exact .list h
  | object h => exact .object h

theorem Carried.self {leaf : String → Json R → Prop} {j : Json R}
    (h : ∀ s, j = .str s → leaf s j) : Carried leaf j j := by
  cases j with
  | null => exact .null
  | bool b => exact .bool b
  | num n => exact .num n
  | str s => exact .text (h s rfl)
  | arr items => exact .list rfl
  | obj members => exact .object rfl

/-- A value has its texts changed, and only these: at the end of every way down stands what became
of the value there. -/
def Follows (leaf : String → Json R → Prop) (payload result : Json R) : Prop :=
  ∀ way here, payload.follow way = some here →
    ∃ there, result.follow way = some there ∧ Carried leaf here there

/-- Lists of one length are the same if they have the same elements at its places. -/
theorem ext_of_length {α β : Type} {places : List α} {xs ys : List β}
    (hxs : xs.length = places.length) (hys : ys.length = places.length)
    (h : ∀ i < places.length, xs[i]? = ys[i]?) : xs = ys := by
  refine List.ext_getElem? fun i => ?_
  by_cases hi : i < places.length
  · exact h i hi
  · rw [List.getElem?_eq_none (by omega), List.getElem?_eq_none (by omega)]

namespace Follows

variable {leaf : String → Json R → Prop} {payload result result' : Json R}

theorem carried (h : Follows leaf payload result) : Carried leaf payload result := by
  obtain ⟨there, hthere, hcarried⟩ := h [] payload rfl
  obtain rfl := Option.some_inj.mp hthere
  exact hcarried

theorem child (h : Follows leaf payload result) {i : Nat} {c : Json R}
    (hc : payload.children[i]? = some c) :
    ∃ c', result.children[i]? = some c' ∧ Follows leaf c c' := by
  have hbelow (way : List Nat) (here : Json R) (hhere : c.follow way = some here) :
      ∃ c' there, result.children[i]? = some c' ∧ c'.follow way = some there ∧
        Carried leaf here there := by
    obtain ⟨there, hthere, hcarried⟩ := h (i :: way) here (follow_cons_eq_some.mpr ⟨c, hc, hhere⟩)
    obtain ⟨c', hc', hthere⟩ := follow_cons_eq_some.mp hthere
    exact ⟨c', there, hc', hthere, hcarried⟩
  obtain ⟨c', -, hc', -, -⟩ := hbelow [] c rfl
  refine ⟨c', hc', fun way here hhere => ?_⟩
  obtain ⟨c'', there, hc'', hthere, hcarried⟩ := hbelow way here hhere
  obtain rfl := Option.some_inj.mp (hc'.symm.trans hc'')
  exact ⟨there, hthere, hcarried⟩

/-- A value becomes one other value if each text does. -/
theorem unique (hleaf : ∀ s j j', leaf s j → leaf s j' → j = j')
    (h : Follows leaf payload result) (h' : Follows leaf payload result') : result = result' := by
  induction payload using induction_children generalizing result result' with
  | step payload ih =>
    have hchild (i : Nat) (hi : i < payload.children.length) :
        result.children[i]? = result'.children[i]? := by
      have hget := List.getElem?_eq_getElem hi
      obtain ⟨c, hc, hfollows⟩ := h.child hget
      obtain ⟨c', hc', hfollows'⟩ := h'.child hget
      rw [hc, hc', ih _ (List.getElem_mem hi) hfollows hfollows']
    have hcarried := h.carried
    have hcarried' := h'.carried
    cases hcarried with
    | null => cases hcarried'; rfl
    | bool b => cases hcarried'; rfl
    | num n => cases hcarried'; rfl
    | text hs => cases hcarried' with | text hs' => exact hleaf _ _ _ hs hs'
    | list hlength =>
      cases hcarried' with
      | list hlength' =>
        exact congrArg Json.arr (ext_of_length hlength hlength' hchild)
    | object hnames =>
      cases hcarried' with
      | object hnames' =>
        have hlength := congrArg List.length hnames
        have hlength' := congrArg List.length hnames'
        have hvalues := ext_of_length (by simpa [children] using hlength)
          (by simpa [children] using hlength') hchild
        have hsame := List.zip_of_prod (hnames.trans hnames'.symm) hvalues
        exact congrArg Json.obj (hsame.trans (List.zip_of_prod rfl rfl).symm)

end Follows

end Json

namespace Token

/-- A single-braced name. -/
def single (name : List Char) : List Char := opening :: name ++ [closing]

theorem wholeName?_eq_some {cs name : List Char} : wholeName? cs = some name ↔
    IsName name ∧ (cs = single name ∨ cs = single name ++ ['\n']) := by
  constructor
  · intro h
    unfold wholeName? at h
    split at h
    · rename_i a rest
      dsimp only at h
      split at h
      · rename_i htoken
        simp only [Bool.and_eq_true, Bool.or_eq_true, beq_iff_eq, Bool.not_eq_true',
          List.isEmpty_eq_false_iff] at htoken
        obtain ⟨⟨rfl, hne⟩, hend⟩ := htoken
        obtain rfl := Option.some_inj.mp h
        have hrest := List.takeWhile_append_dropWhile (p := Text.isWord) (l := rest)
        refine ⟨⟨hne, fun c hc => List.mem_takeWhile_imp hc⟩,
          hend.imp (fun hend => ?_) fun hend => ?_⟩
        · rw [hend] at hrest
          rw [single, List.cons_append, hrest]
        · rw [hend] at hrest
          rw [single, List.cons_append, List.cons_append, List.append_assoc]
          exact congrArg (opening :: ·) hrest.symm
      · cases h
    · cases h
  · rintro ⟨⟨hne, hword⟩, hcs⟩
    have hbehind (rest : List Char) : ∀ c ∈ (closing :: rest).head?, Text.isWord c = false := by
      intro c hc
      obtain rfl : closing = c := by simpa using hc
      exact isWord_closing
    rcases hcs with rfl | rfl
    · have htake := Text.takeWhile_append hword (hbehind [])
      have hdrop := Text.dropWhile_append hword (hbehind [])
      simp [wholeName?, single, htake, hdrop, hne]
    · have htake := Text.takeWhile_append hword (hbehind ['\n'])
      have hdrop := Text.dropWhile_append hword (hbehind ['\n'])
      simp [wholeName?, single, htake, hdrop, hne]

/-- A single-braced name as a text. -/
def singleText (name : String) : String := String.ofList (single name.toList)

/-- A text that is a single-braced name. -/
def Exact (s name : String) : Prop := IsName name.toList ∧ s = singleText name

/-- A text that is a single-braced name with a line break behind it. -/
def Broken (s name : String) : Prop := IsName name.toList ∧ s = singleText name ++ "\n"

/-- A text that is taken for a token as a whole. -/
def Whole (s name : String) : Prop := Exact s name ∨ Broken s name

theorem wholeName?_iff {s name : String} :
    wholeName? s.toList = some name.toList ↔ Whole s name := by
  rw [wholeName?_eq_some, Whole, Exact, Broken, ← and_or_left]
  refine and_congr_right fun _ => or_congr ?_ ?_
  · rw [singleText, ← String.toList_inj, String.toList_ofList]
  · rw [singleText, ← String.toList_inj, String.toList_append, String.toList_ofList]
    rfl

section

variable {R : Type} [Scalar R]

/-- What becomes of a text, if `whole` says which texts are taken for a token as a whole: the
parameter of the name, if there is one, and otherwise the text with its tokens replaced. -/
inductive Becomes (whole : String → String → Prop) (params : Members R) (s : String) :
    Json R → Prop where
  | parameter {name : String} {j : Json R} (h : whole s name)
    (hget : Members.get? name params = some j) : Becomes whole params s j
  | filled (h : ∀ name j, whole s name → Members.get? name params ≠ some j) :
    Becomes whole params s (.str (fill params s))

omit [Scalar R] in
theorem wholeParameter?_eq_some {params : Members R} {s : String} {j : Json R} :
    ((wholeName? s.toList).bind fun name => Members.get? (String.ofList name) params) = some j ↔
      ∃ name, Whole s name ∧ Members.get? name params = some j := by
  rw [Option.bind_eq_some_iff]
  constructor
  · rintro ⟨name, hname, hget⟩
    exact ⟨String.ofList name, wholeName?_iff.mp (by rwa [String.toList_ofList]), hget⟩
  · rintro ⟨name, hname, hget⟩
    exact ⟨name.toList, wholeName?_iff.mpr hname, by rwa [String.ofList_toList]⟩

theorem becomes_whole_iff {params : Members R} {s : String} {j : Json R} :
    Becomes Whole params s j ↔ j = fillText params s := by
  unfold fillText
  constructor
  · intro h
    cases h with
    | parameter h hget => rw [wholeParameter?_eq_some.mpr ⟨_, h, hget⟩]
    | filled h =>
      split
      · rename_i hfound
        obtain ⟨name, hwhole, hget⟩ := wholeParameter?_eq_some.mp hfound
        exact absurd hget (h name _ hwhole)
      · rfl
  · rintro rfl
    split
    · rename_i hfound
      obtain ⟨name, hwhole, hget⟩ := wholeParameter?_eq_some.mp hfound
      exact .parameter hwhole hget
    · rename_i hnone
      refine .filled fun name j hwhole hget => ?_
      rw [wholeParameter?_eq_some.mpr ⟨name, hwhole, hget⟩] at hnone
      cases hnone

theorem becomes_whole_unique {params : Members R} (s : String) (j j' : Json R)
    (h : Becomes Whole params s j) (h' : Becomes Whole params s j') : j = j' :=
  (becomes_whole_iff.mp h).trans (becomes_whole_iff.mp h').symm

theorem substituteItems_eq_map (params : Members R) (items : List (Json R)) :
    substituteItems params items = items.map (substitute params) := by
  induction items with
  | nil => rfl
  | cons j rest ih => rw [substituteItems, ih, List.map_cons]

theorem substituteMembers_eq_map (params : Members R) (members : Members R) :
    substituteMembers params members = members.map fun m => (m.1, substitute params m.2) := by
  induction members with
  | nil => rfl
  | cons m rest ih =>
    obtain ⟨name, j⟩ := m
    rw [substituteMembers, ih, List.map_cons]

theorem carried_substitute (params : Members R) (j : Json R) :
    Json.Carried (Becomes Whole params) j (substitute params j) := by
  cases j with
  | null => exact .null
  | bool b => exact .bool b
  | num n => exact .num n
  | str s => exact .text (becomes_whole_iff.mpr rfl)
  | arr items => exact .list (by rw [substituteItems_eq_map, List.length_map])
  | obj members => exact .object (by simp [substituteMembers_eq_map])

theorem child_substitute {params : Members R} {j c : Json R} {i : Nat}
    (h : j.children[i]? = some c) :
    (substitute params j).children[i]? = some (substitute params c) := by
  cases j with
  | arr items =>
    rw [substitute, substituteItems_eq_map]
    exact List.getElem?_map .. |>.trans (congrArg _ h)
  | obj members =>
    have hvalues : (substitute params (.obj members)).children =
        (Json.obj members).children.map (substitute params) := by
      simp [substitute, substituteMembers_eq_map, Json.children]
    rw [hvalues, List.getElem?_map, h]
    rfl
  | null | bool | num | str => cases h

theorem follows_substitute (params : Members R) (payload : Json R) :
    Json.Follows (Becomes Whole params) payload (substitute params payload) := by
  intro way
  induction way generalizing payload with
  | nil =>
    rintro here hhere
    obtain rfl := Option.some_inj.mp hhere
    exact ⟨_, rfl, carried_substitute params payload⟩
  | cons i way ih =>
    intro here hhere
    obtain ⟨c, hc, hhere⟩ := Json.follow_cons_eq_some.mp hhere
    obtain ⟨there, hthere, hcarried⟩ := ih c here hhere
    exact ⟨there, Json.follow_cons_eq_some.mpr ⟨_, child_substitute hc, hthere⟩, hcarried⟩

/-- Nothing is replaced in a single-braced name with a line break behind it. -/
theorem bare_of_broken {s name : String} (h : Broken s name) : Bare s.toList := by
  obtain ⟨hname, rfl⟩ := h
  intro other hother hmarked
  have hsingle : (singleText name ++ "\n").toList.count opening = 1 := by
    have hnone := List.count_eq_zero.mpr hname.opening_not_mem
    have hchars : (singleText name ++ "\n").toList =
        opening :: (name.toList ++ [closing, '\n']) := by
      simp [singleText, single]
    rw [hchars, List.count_cons_self, List.count_append, hnone]
    rfl
  have hdouble : 2 ≤ (marked other).count opening := by
    simp [marked]
  have hle := hmarked.sublist.count_le opening
  omega

/-- The two ways to take a text for a token, with a line break behind it and without, differ for no
text that is one exactly. -/
theorem not_exact_of_broken {s name other : String} (h : Broken s name) : ¬ Exact s other := by
  rintro ⟨-, hs⟩
  have hlast := congrArg (fun t : String => t.toList.getLast?) (h.2.symm.trans hs)
  simp [singleText, single, closing, List.getLast?_cons] at hlast

theorem fill_of_broken {params : Members R} {s name : String} (h : Broken s name) :
    fill params s = s := by
  refine String.toList_injective ?_
  rw [toList_fill, replaceFrom_of_bare _ (bare_of_broken h)]

/-- The parameters are named in no token of a value. -/
def Unmentioned (params : Members R) (payload : Json R) : Prop :=
  ∀ way s, payload.follow way = some (.str s) → ∀ name j, Members.get? name params = some j →
    ¬ Whole s name ∧ ¬ (IsName name.toList ∧ marked name.toList <:+: s.toList)

theorem Template.marked_isInfix {t : Template} {p : List Char × List Char} (hp : p ∈ t.parts) :
    marked p.2 <:+: t.text := by
  have hpart : p.1 ++ marked p.2 <:+: t.parts.flatMap fun p => p.1 ++ marked p.2 := by
    obtain ⟨front, behind, hparts⟩ := List.append_of_mem hp
    rw [hparts]
    exact ⟨front.flatMap fun p => p.1 ++ marked p.2, behind.flatMap fun p => p.1 ++ marked p.2,
      by simp⟩
  exact (List.suffix_append p.1 _).isInfix.trans
    (hpart.trans (List.prefix_append _ t.last).isInfix)

theorem fill_of_unmentioned {params : Members R} {s : String}
    (h : ∀ name j, Members.get? name params = some j →
      ¬ (IsName name.toList ∧ marked name.toList <:+: s.toList)) : fill params s = s := by
  obtain ⟨t, ht⟩ := exists_template s.toList
  refine String.toList_injective ?_
  rw [toList_fill, ← ht, t.replaceFrom_text]
  refine congrArg (· ++ t.last) (List.flatMap_congr fun p hp => congrArg (p.1 ++ ·) ?_)
  have hnone : Members.get? (String.ofList p.2) params = none := by
    refine Option.eq_none_iff_forall_ne_some.mpr fun j hget => h _ j hget ?_
    rw [String.toList_ofList, ← ht]
    exact ⟨t.names p hp, Template.marked_isInfix hp⟩
  rw [replacement, insertion?, hnone]
  rfl

theorem becomes_self {params : Members R} {s : String}
    (h : ∀ name j, Members.get? name params = some j →
      ¬ Whole s name ∧ ¬ (IsName name.toList ∧ marked name.toList <:+: s.toList)) :
    Becomes Whole params s (.str s) := by
  have hfill : fill params s = s := fill_of_unmentioned fun name j hget => (h name j hget).2
  have hfilled : Becomes Whole params s (.str (fill params s)) :=
    .filled fun name j hwhole hget => (h name j hget).1 hwhole
  rwa [hfill] at hfilled

/-- Where nothing but the text itself is put in for a text with a line break behind its token, it
does not matter whether it is taken for a token. -/
theorem becomes_exact_iff {params : Members R} {s : String} {j : Json R}
    (h : Becomes Whole params s j) : Becomes Exact params s j ↔
      ∀ name v, Broken s name → Members.get? name params = some v → v = .str s := by
  constructor
  · intro hexact name v hbroken hget
    have hj : j = v := becomes_whole_unique s j v h (.parameter (.inr hbroken) hget)
    cases hexact with
    | parameter hother => exact absurd hother (not_exact_of_broken hbroken)
    | filled => rw [← hj, fill_of_broken hbroken]
  · intro hsame
    cases h with
    | parameter h hget =>
      rcases h with hexact | hbroken
      · exact .parameter hexact hget
      · have hfilled : Becomes Exact params s (.str (fill params s)) :=
          .filled fun other v hother => absurd hother (not_exact_of_broken hbroken)
        rw [hsame _ _ hbroken hget]
        rwa [fill_of_broken hbroken] at hfilled
    | filled h => exact .filled fun name v hexact => h name v (.inl hexact)

/-- Replacing parameters keeps the structure of a value: every text becomes the parameter that it is
a token of as a whole, or the text with its tokens replaced, and nothing else changes; the outcome
is the only value of which this is so. A text is taken for a token as a whole also with a line break
behind the closing brace, and where a parameter is put in for such a text, and only there, the
outcome is not that of exact tokens. Parameters that are named in no token change nothing. -/
theorem substitute_follows (params : Members R) (payload : Json R) :
    Json.Follows (Becomes Whole params) payload (substitute params payload) ∧
    (∀ result, Json.Follows (Becomes Whole params) payload result →
      result = substitute params payload) ∧
    (Json.Follows (Becomes Exact params) payload (substitute params payload) ↔
      ∀ way s, payload.follow way = some (.str s) → ∀ name j, Broken s name →
        Members.get? name params = some j → j = .str s) ∧
    (Unmentioned params payload → substitute params payload = payload) := by
  have hfollows := follows_substitute params payload
  have hunique (result : Json R) (h : Json.Follows (Becomes Whole params) payload result) :
      result = substitute params payload :=
    h.unique becomes_whole_unique hfollows
  refine ⟨hfollows, hunique, ⟨fun h way s hs => ?_, fun h way here hhere => ?_⟩, fun h => ?_⟩
  · obtain ⟨there, hthere, hcarried⟩ := hfollows way _ hs
    obtain ⟨there', hthere', hcarried'⟩ := h way _ hs
    obtain rfl := Option.some_inj.mp (hthere.symm.trans hthere')
    cases hcarried with
    | text hwhole =>
      cases hcarried' with
      | text hexact => exact (becomes_exact_iff hwhole).mp hexact
  · obtain ⟨there, hthere, hcarried⟩ := hfollows way here hhere
    refine ⟨there, hthere, hcarried.imp fun s hs hwhole => ?_⟩
    exact (becomes_exact_iff hwhole).mpr (h way s (hs ▸ hhere))
  · refine (hunique payload fun way here hhere => ⟨here, hhere, .self fun s hs => ?_⟩).symm
    rw [hs]
    exact becomes_self (h way s (hs ▸ hhere))

end

/-- Parameters of which one has a token as its text. -/
def sizes : Members Rat := [("width", .num (.int 120)), ("label", .str "\x7bwidth\x7d")]

/-- A value with a token in it as a whole, one in a text, and one that is spelled otherwise. -/
def labelled : Json Rat :=
  .obj [("width", .str "\x7bwidth\x7d"),
    ("content", .arr [.str "\x7b\x7blabel\x7d\x7d \x7bwidth\x7d", .bool true])]

/-- What is put in for the label is not looked at again. -/
theorem labelled_substituted :
    substitute sizes labelled = .obj [("width", .num (.int 120)),
      ("content", .arr [.str "\x7bwidth\x7d \x7bwidth\x7d", .bool true])] ∧
    Json.Follows (Becomes Whole sizes) labelled (substitute sizes labelled) ∧
    Unmentioned sizes (.arr [.str "\x7bheight\x7d"]) ∧
    substitute sizes (.arr [.str "\x7bheight\x7d"]) = .arr [.str "\x7bheight\x7d"] := by
  have hexact : Exact "\x7bwidth\x7d" "width" := ⟨by decide +kernel, by decide +kernel⟩
  have hwidth : .num (.int 120) = fillText sizes "\x7bwidth\x7d" :=
    becomes_whole_iff.mp (.parameter (.inl hexact) rfl)
  have hcontent : fillText sizes "\x7b\x7blabel\x7d\x7d \x7bwidth\x7d" =
      .str "\x7bwidth\x7d \x7bwidth\x7d" := by
    have hnone : wholeName? "\x7b\x7blabel\x7d\x7d \x7bwidth\x7d".toList = none := by
      decide +kernel
    have hfill : fill sizes "\x7b\x7blabel\x7d\x7d \x7bwidth\x7d" =
        "\x7bwidth\x7d \x7bwidth\x7d" := by
      decide +kernel
    rw [fillText, hnone, hfill]
    rfl
  have hunmentioned : Unmentioned sizes (.arr [.str "\x7bheight\x7d"]) := by
    intro way s hs name j hget
    have htext : s = "\x7bheight\x7d" := by
      rcases way with - | ⟨i, - | ⟨k, way⟩⟩
      · cases hs
      · obtain ⟨c, hc, hs⟩ := Json.follow_cons_eq_some.mp hs
        obtain rfl := List.mem_singleton.mp (List.mem_of_getElem? hc)
        cases hs
        rfl
      · obtain ⟨c, hc, hs⟩ := Json.follow_cons_eq_some.mp hs
        obtain rfl := List.mem_singleton.mp (List.mem_of_getElem? hc)
        cases hs
    have hname : name = "width" ∨ name = "label" := by
      by_contra hother
      simp [sizes, Members.get?, Ne.symm (not_or.mp hother).1, Ne.symm (not_or.mp hother).2] at hget
    subst htext
    rcases hname with rfl | rfl
    · exact ⟨wholeName?_iff.not.mp (by decide +kernel), by decide +kernel⟩
    · exact ⟨wholeName?_iff.not.mp (by decide +kernel), by decide +kernel⟩
  refine ⟨?_, (substitute_follows sizes labelled).1, hunmentioned,
    (substitute_follows sizes _).2.2.2 hunmentioned⟩
  rw [hwidth, ← hcontent]
  rfl

/-- A line break behind a token is dropped with it, and the text becomes a number. -/
theorem broken_token_replaced :
    substitute [("x", .num (.int 1))] (.str "\x7bx\x7d\n" : Json Rat) = .num (.int 1) ∧
    ¬ Json.Follows (Becomes Exact [("x", .num (.int 1))]) (.str "\x7bx\x7d\n" : Json Rat)
      (substitute [("x", .num (.int 1))] (.str "\x7bx\x7d\n")) := by
  have hbroken : Broken "\x7bx\x7d\n" "x" := ⟨by decide +kernel, by decide +kernel⟩
  have hbecomes : Becomes Whole [("x", .num (.int 1))] "\x7bx\x7d\n" (.num (.int 1) : Json Rat) :=
    .parameter (.inr hbroken) rfl
  refine ⟨(becomes_whole_iff.mp hbecomes).symm, fun h => ?_⟩
  cases h.carried with
  | text hexact =>
    have hsame := (becomes_exact_iff (becomes_whole_iff.mpr rfl)).mp hexact "x" _ hbroken rfl
    cases hsame

end Token

end Storyboard
