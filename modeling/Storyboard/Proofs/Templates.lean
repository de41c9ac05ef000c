import Mathlib.Data.List.Infix
import Mathlib.Data.List.TakeWhile
import Storyboard.Proofs.Numerals
import Storyboard.Rational
import Storyboard.Token

namespace Storyboard.Token

/-- A name as it stands in a token: word characters, at least one. -/
def IsName (name : List Char) : Prop := name ≠ [] ∧ ∀ c ∈ name, Text.isWord c = true

/-- A text in which no double-braced name is written. -/
def Bare (cs : List Char) : Prop := ∀ name, IsName name → ¬ marked name <:+: cs

theorem isWord_opening : Text.isWord opening = false := Text.isWord_leftBrace

theorem isWord_closing : Text.isWord closing = false := Text.isWord_rightBrace

theorem marked_append (name rest : List Char) :
    marked name ++ rest = opening :: opening :: (name ++ closing :: closing :: rest) := by
  simp [marked]

theorem IsName.opening_not_mem {name : List Char} (h : IsName name) : opening ∉ name := by
  intro hmem
  have hword := h.2 opening hmem
  rw [isWord_opening] at hword
  cases hword

/-- The token in front of a text is the one that is written there. -/
theorem leading?_eq_some {cs name : List Char} :
    leading? cs = some name ↔ IsName name ∧ marked name <+: cs := by
  constructor
  · intro h
    unfold leading? at h
    split at h
    · rename_i a b rest
      dsimp only at h
      split at h
      · rename_i htoken
        simp only [Bool.and_eq_true, beq_iff_eq, Bool.not_eq_true',
          List.isEmpty_eq_false_iff] at htoken
        obtain ⟨⟨⟨rfl, rfl⟩, hne⟩, hend⟩ := htoken
        obtain rfl := Option.some_inj.mp h
        refine ⟨⟨hne, fun c hc => List.mem_takeWhile_imp hc⟩,
          (rest.dropWhile Text.isWord).drop 2, ?_⟩
        have hrest : closing :: closing :: (rest.dropWhile Text.isWord).drop 2 =
            rest.dropWhile Text.isWord := by
          rw [← List.take_append_drop 2 (rest.dropWhile Text.isWord), hend]
          simp
        rw [marked_append, hrest, List.takeWhile_append_dropWhile]
      · cases h
    · cases h
  · rintro ⟨⟨hne, hword⟩, rest, rfl⟩
    have hbehind : ∀ c ∈ (closing :: closing :: rest).head?, Text.isWord c = false := by
      intro c hc
      obtain rfl : closing = c := by simpa using hc
      exact isWord_closing
    rw [marked_append, leading?]
    simp [Text.takeWhile_append hword hbehind, Text.dropWhile_append hword hbehind, hne]

/-- No token begins in a text and reaches into two opening braces behind it. -/
theorem marked_prefix_of_append {cs rest name : List Char} (hcs : cs ≠ []) (hname : IsName name)
    (h : marked name <+: cs ++ opening :: opening :: rest) : marked name <+: cs := by
  have hinside : opening ∉ name ++ [closing, closing] := by
    simpa [opening, closing] using hname.opening_not_mem
  obtain ⟨behind, h⟩ := h
  rcases List.append_eq_append_iff.mp h with ⟨front, rfl, -⟩ | ⟨ending, hmarked, hbehind⟩
  · exact List.prefix_append _ _
  · obtain ⟨c, cs, rfl⟩ := List.exists_cons_of_ne_nil hcs
    obtain ⟨-, htail⟩ := List.cons.inj (show opening :: opening :: (name ++ [closing, closing]) =
      c :: (cs ++ ending) from hmarked)
    -- What reaches behind the text would hold a third opening brace.
    cases ending with
    | nil => exact ⟨[], by rw [hmarked, List.append_nil, List.append_nil]⟩
    | cons e ending =>
      obtain ⟨rfl, hrest⟩ := List.cons.inj hbehind
      cases cs with
      | nil =>
        obtain ⟨-, rfl⟩ := List.cons.inj htail
        obtain ⟨d, ds, rfl⟩ := List.exists_cons_of_ne_nil hname.1
        obtain ⟨rfl, -⟩ := List.cons.inj hrest
        exact absurd List.mem_cons_self hinside
      | cons d cs =>
        obtain ⟨-, htail⟩ := List.cons.inj htail
        exact absurd (htail ▸ List.mem_append_right cs List.mem_cons_self) hinside

theorem leading?_append {cs rest : List Char} (hcs : cs ≠ []) :
    leading? (cs ++ opening :: opening :: rest) = leading? cs := by
  refine Option.ext fun name => ?_
  rw [leading?_eq_some, leading?_eq_some]
  constructor
  · exact fun ⟨hname, h⟩ => ⟨hname, marked_prefix_of_append hcs hname h⟩
  · exact fun ⟨hname, h⟩ => ⟨hname, h.trans (List.prefix_append _ _)⟩

theorem leading?_marked {name : List Char} (h : IsName name) (rest : List Char) :
    leading? (marked name ++ rest) = some name :=
  leading?_eq_some.mpr ⟨h, List.prefix_append _ _⟩

theorem leading?_of_bare {cs : List Char} (h : Bare cs) : leading? cs = none := by
  refine Option.eq_none_iff_forall_ne_some.mpr fun name hname => ?_
  obtain ⟨hname, hprefix⟩ := leading?_eq_some.mp hname
  exact h name hname hprefix.isInfix

theorem Bare.of_infix {cs ds : List Char} (h : Bare ds) (hpart : cs <:+: ds) : Bare cs :=
  fun name hname hmarked => h name hname (hmarked.trans hpart)

section

variable (value? : List Char → Option (List Char))

/-- The characters of a token that was replaced are passed over. -/
theorem replaceFrom_passed (front rest : List Char) :
    replaceFrom value? front.length (front ++ rest) = replaceFrom value? 0 rest := by
  induction front with
  | nil => rfl
  | cons c front ih => exact ih

/-- What is put in the place of a token: the value of the name, or the token as it stands. -/
def replacement (name : List Char) : List Char := (value? name).getD (marked name)

theorem replaceFrom_marked {name : List Char} (h : IsName name) (rest : List Char) :
    replaceFrom value? 0 (marked name ++ rest) =
      replacement value? name ++ replaceFrom value? 0 rest := by
  have hlead := leading?_marked h rest
  have hpassed := replaceFrom_passed value? (opening :: (name ++ [closing, closing])) rest
  have hlength : (opening :: (name ++ [closing, closing])).length = name.length + 3 := by simp
  rw [hlength] at hpassed
  change replaceFrom value? 0 (opening :: (opening :: (name ++ [closing, closing]) ++ rest)) = _
  rw [replaceFrom]
  change leading? (opening :: (opening :: (name ++ [closing, closing]) ++ rest)) = _ at hlead
  rw [hlead]
  exact congrArg (replacement value? name ++ ·) hpassed

/-- Two opening braces begin a piece of their own. -/
theorem replaceFrom_append (cs rest : List Char) (skip : Nat) (hskip : skip ≤ cs.length) :
    replaceFrom value? skip (cs ++ opening :: opening :: rest) =
      replaceFrom value? skip cs ++ replaceFrom value? 0 (opening :: opening :: rest) := by
  fun_induction replaceFrom value? skip cs with
  | case1 skip =>
    obtain rfl : skip = 0 := Nat.le_zero.mp hskip
    rfl
  | case2 skip c cs ih => exact ih (Nat.le_of_succ_le_succ hskip)
  | case3 c cs name hlead ih =>
    have hlength : (marked name).length ≤ (c :: cs).length :=
      (leading?_eq_some.mp hlead).2.length_le
    have hpassed : name.length + 3 ≤ cs.length := by
      simp only [marked, List.length_append, List.length_cons, List.length_nil] at hlength
      omega
    rw [List.cons_append, replaceFrom, ← List.cons_append, leading?_append (List.cons_ne_nil c cs),
      hlead]
    change _ ++ _ = _
    rw [ih hpassed, List.append_assoc]
  | case4 c cs hlead ih =>
    rw [List.cons_append, replaceFrom, ← List.cons_append, leading?_append (List.cons_ne_nil c cs),
      hlead]
    exact congrArg (c :: ·) (ih (Nat.zero_le _))

/-- Without a token nothing is replaced. -/
theorem replaceFrom_of_bare {cs : List Char} (h : Bare cs) : replaceFrom value? 0 cs = cs := by
  induction cs with
  | nil => rfl
  | cons c cs ih =>
    rw [replaceFrom, leading?_of_bare h]
    exact congrArg (c :: ·) (ih (h.of_infix (List.suffix_cons c cs).isInfix))

end

/-- Whether a name is written somewhere can be found out by looking at each place. -/
theorem bare_iff {cs : List Char} : Bare cs ↔ ∀ tail ∈ cs.tails, leading? tail = none := by
  constructor
  · intro h tail htail
    exact leading?_of_bare (h.of_infix ((List.mem_tails _ _).mp htail).isInfix)
  · rintro h name hname ⟨front, behind, rfl⟩
    have hhere := h (marked name ++ behind) ((List.mem_tails _ _).mpr ⟨front, by simp⟩)
    rw [leading?_marked hname] at hhere
    cases hhere

instance : DecidablePred Bare := fun _ => decidable_of_iff _ bare_iff.symm

instance : DecidablePred IsName := fun name =>
  decidable_of_iff (name ≠ [] ∧ name.all Text.isWord = true)
    (and_congr_right fun _ => List.all_eq_true)

/-- A text in its pieces: bare stretches with a name behind each, and a bare stretch at the end. -/
structure Template where
  parts : List (List Char × List Char)
  last : List Char
  names : ∀ p ∈ parts, IsName p.2
  stretches : ∀ p ∈ parts, Bare p.1
  last_bare : Bare last

namespace Template

/-- The pieces joined, with something in the place of each name. -/
def render (put : List Char → List Char) (t : Template) : List Char :=
  t.parts.flatMap (fun p => p.1 ++ put p.2) ++ t.last

/-- The template as it is written. -/
def text (t : Template) : List Char := t.render marked

/-- A text of one stretch. -/
def plain (cs : List Char) (h : Bare cs) : Template := ⟨[], cs, by simp, by simp, h⟩

/-- Two templates with a name between them. -/
def join (t t' : Template) (name : List Char) (h : IsName name) : Template where
  parts := t.parts ++ (t.last, name) :: t'.parts
  last := t'.last
  names := by
    rintro p hp
    rcases List.mem_append.mp hp with hp | hp
    · exact t.names p hp
    · rcases List.mem_cons.mp hp with rfl | hp
      · exact h
      · exact t'.names p hp
  stretches := by
    rintro p hp
    rcases List.mem_append.mp hp with hp | hp
    · exact t.stretches p hp
    · rcases List.mem_cons.mp hp with rfl | hp
      · exact t.last_bare
      · exact t'.stretches p hp
  last_bare := t'.last_bare

theorem render_join (put : List Char → List Char) (t t' : Template) {name : List Char}
    (h : IsName name) :
    (t.join t' name h).render put = t.render put ++ put name ++ t'.render put := by
  simp [join, render]

end Template

/-- Every text is a template. -/
theorem exists_template (cs : List Char) : ∃ t : Template, t.text = cs := by
  induction hn : cs.length using Nat.strong_induction_on generalizing cs with
  | _ n ih =>
    subst hn
    by_cases hbare : Bare cs
    · exact ⟨.plain cs hbare, rfl⟩
    · simp only [Bare, not_forall, not_not] at hbare
      obtain ⟨name, hname, front, behind, rfl⟩ := hbare
      obtain ⟨t, rfl⟩ := ih front.length (by simp [marked]) front rfl
      obtain ⟨t', rfl⟩ := ih behind.length (by simp [marked]; omega) behind rfl
      exact ⟨t.join t' name hname, Template.render_join marked t t' hname⟩

section

variable (value? : List Char → Option (List Char))

/-- What stands in front of a token and what stands behind it are filled on their own. -/
theorem replaceFrom_token {name : List Char} (h : IsName name) (front behind : List Char) :
    replaceFrom value? 0 (front ++ marked name ++ behind) =
      replaceFrom value? 0 front ++ replacement value? name ++ replaceFrom value? 0 behind := by
  have hpieces := replaceFrom_append value? front (name ++ closing :: closing :: behind) 0
    (Nat.zero_le _)
  rw [← marked_append, ← List.append_assoc, replaceFrom_marked value? h] at hpieces
  rw [hpieces, List.append_assoc]

/-- Braces with no name between them are text. -/
theorem replaceFrom_nameless (front behind : List Char) :
    replaceFrom value? 0 (front ++ marked [] ++ behind) =
      replaceFrom value? 0 front ++ marked [] ++ replaceFrom value? 0 behind := by
  have hpieces := replaceFrom_append value? front (closing :: closing :: behind) 0 (Nat.zero_le _)
  have hbraces : replaceFrom value? 0 (opening :: opening :: closing :: closing :: behind) =
      marked [] ++ replaceFrom value? 0 behind := by
    have hnameless : leading? (opening :: opening :: closing :: closing :: behind) = none := by
      simp [leading?, isWord_closing]
    have hsingle : leading? (opening :: closing :: closing :: behind) = none := by
      simp [leading?, opening, closing]
    have hclosing (rest : List Char) : leading? (closing :: rest) = none := by
      cases rest <;> simp [leading?, opening, closing]
    rw [replaceFrom, hnameless, replaceFrom, hsingle, replaceFrom, hclosing, replaceFrom, hclosing]
    rfl
  rw [hbraces] at hpieces
  simpa [marked] using hpieces

theorem Template.replaceFrom_text (t : Template) :
    replaceFrom value? 0 t.text = t.render (replacement value?) := by
  obtain ⟨parts, last, hnames, hstretches, hlast⟩ := t
  change replaceFrom value? 0 (parts.flatMap (fun p => p.1 ++ marked p.2) ++ last) =
    parts.flatMap (fun p => p.1 ++ replacement value? p.2) ++ last
  induction parts with
  | nil => exact replaceFrom_of_bare value? hlast
  | cons p parts ih =>
    obtain ⟨hname, hnames⟩ := List.forall_mem_cons.mp hnames
    obtain ⟨hstretch, hstretches⟩ := List.forall_mem_cons.mp hstretches
    rw [List.flatMap_cons, List.flatMap_cons, List.append_assoc (p.1 ++ marked p.2),
      replaceFrom_token value? hname, replaceFrom_of_bare value? hstretch, ih hnames hstretches,
      List.append_assoc (p.1 ++ replacement value? p.2)]

end

section

variable {R : Type} [Scalar R]

/-- A double-braced name as a text. -/
def markedText (name : String) : String := String.ofList (marked name.toList)

/-- What is put in the place of a token: the text of the parameter, if there is one of the name, and
otherwise the token as it stands. -/
def inserted (params : Members R) (name : String) : String :=
  match Members.get? name params with
  | some j => j.insertion
  | none => markedText name

/-- The text of the parameter of a name, if there is one. -/
def insertion? (params : Members R) (name : List Char) : Option (List Char) :=
  (Members.get? (String.ofList name) params).map fun j => j.insertion.toList

theorem toList_fill (params : Members R) (text : String) :
    (fill params text).toList = replaceFrom (insertion? params) 0 text.toList := by
  rw [fill, String.toList_ofList]
  rfl

theorem replacement_insertion? (params : Members R) (name : List Char) :
    replacement (insertion? params) name = (inserted params (String.ofList name)).toList := by
  rw [replacement, insertion?, inserted]
  cases Members.get? (String.ofList name) params with
  | none => simp [markedText]
  | some j => rfl

/-- Filling goes through a text in one pass. Whatever stands around a token, the token is replaced
and what stands around it is filled on its own; a text without tokens stays as it is; and every text
is made of such pieces. Braces without a name are no token. -/
theorem fill_pieces (params : Members R) :
    (∀ u v name : String, IsName name.toList → fill params (u ++ markedText name ++ v) =
      fill params u ++ inserted params name ++ fill params v) ∧
    (∀ text : String, Bare text.toList → fill params text = text) ∧
    (∀ text : String, ∃ t : Template, t.text = text.toList ∧ (fill params text).toList =
      t.render fun name => (inserted params (String.ofList name)).toList) ∧
    ∀ u v : String, fill params (u ++ markedText "" ++ v) =
      fill params u ++ markedText "" ++ fill params v := by
  refine ⟨fun u v name hname => ?_, fun text hbare => ?_, fun text => ?_, fun u v => ?_⟩
  · refine String.toList_injective ?_
    have hinserted := replacement_insertion? params name.toList
    rw [String.ofList_toList] at hinserted
    simp only [String.toList_append, toList_fill, markedText, String.toList_ofList,
      replaceFrom_token _ hname, hinserted]
  · refine String.toList_injective ?_
    rw [toList_fill, replaceFrom_of_bare _ hbare]
  · obtain ⟨t, ht⟩ := exists_template text.toList
    refine ⟨t, ht, ?_⟩
    rw [toList_fill, ← ht, t.replaceFrom_text]
    exact congrArg t.render (funext fun name => replacement_insertion? params name)
  · refine String.toList_injective ?_
    simp only [String.toList_append, toList_fill, markedText, String.toList_ofList]
    exact replaceFrom_nameless _ _ _

/-- A name, and a parameter whose text is the token of this name again. -/
def echoing : Members Rat := [("n", .str "\x7b\x7bn\x7d\x7d")]

/-- A token between braces is replaced by itself, and the text of it is not looked at again. -/
theorem echoing_filled :
    IsName "n".toList ∧ Bare "a\x7b\x7bn\x7d".toList ∧ Bare "\x7d\x7d".toList ∧
    fill echoing ("a\x7b\x7bn\x7d" ++ markedText "n" ++ "\x7d\x7d") =
      "a\x7b\x7bn\x7d\x7b\x7bn\x7d\x7d\x7d\x7d" := by
  obtain ⟨htoken, hbare, -⟩ := fill_pieces echoing
  have hname : IsName "n".toList := by decide +kernel
  have hfront : Bare "a\x7b\x7bn\x7d".toList := by decide +kernel
  have hbehind : Bare "\x7d\x7d".toList := by decide +kernel
  refine ⟨hname, hfront, hbehind, ?_⟩
  rw [htoken _ _ _ hname, hbare _ hfront, hbare _ hbehind]
  rfl

end

end Storyboard.Token
