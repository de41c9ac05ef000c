import Storyboard.Numeral

namespace Storyboard

namespace Text

/-- The code points of the blanks in the narrow sense. -/
def spacePoints : List Nat :=
  [0x09, 0x0a, 0x0b, 0x0c, 0x0d, 0x20, 0x85, 0xa0, 0x1680, 0x2000, 0x2001, 0x2002, 0x2003, 0x2004,
   0x2005, 0x2006, 0x2007, 0x2008, 0x2009, 0x200a, 0x2028, 0x2029, 0x202f, 0x205f, 0x3000]

theorem mem_spacePoints {c : Char} (h : isSpace c = true) : c.toNat ∈ spacePoints := by
  simp only [isSpace, Bool.or_eq_true, Bool.and_eq_true, decide_eq_true_eq, beq_iff_eq] at h
  simp only [spacePoints, List.mem_cons, List.not_mem_nil, or_false]
  omega

/-- No digit is a blank. -/
theorem isSpace_of_isDigit {c : Char} (h : isDigit c = true) : isSpace c = false := by
  have hnone : ∀ n ∈ spacePoints, isDigit (Char.ofNat n) = false := by decide
  refine Bool.eq_false_iff.mpr fun hspace => ?_
  have hfalse := hnone c.toNat (mem_spacePoints hspace)
  rw [Char.ofNat_toNat, h] at hfalse
  cases hfalse

/-- Digits have no case. -/
theorem toLower_of_isDigit {c : Char} (h : isDigit c = true) : c.toLower = c := by
  have hnone : ∀ k < 26, isDigit (Char.ofNat (65 + k)) = false := by decide
  refine dif_neg fun hcapital => ?_
  have hlow : 65 ≤ c.toNat := UInt32.le_iff_toNat_le.mp hcapital.1
  have hhigh : c.toNat ≤ 90 := UInt32.le_iff_toNat_le.mp hcapital.2
  have hfalse := hnone (c.toNat - 65) (by omega)
  rw [Nat.add_sub_cancel' hlow, Char.ofNat_toNat, h] at hfalse
  cases hfalse

theorem dropWhile_eq_self {p : Char → Bool} {cs : List Char} (h : ∀ c ∈ cs.head?, p c = false) :
    cs.dropWhile p = cs := by
  cases cs with
  | nil => rfl
  | cons c rest => simp [h c rfl]

theorem takeWhile_eq_nil {p : Char → Bool} {cs : List Char} (h : ∀ c ∈ cs.head?, p c = false) :
    cs.takeWhile p = [] := by
  cases cs with
  | nil => rfl
  | cons c rest => simp [h c rfl]

/-- A text with nothing to leave out at its ends stays as it is. -/
theorem trimWhere_eq_self {p : Char → Bool} {cs : List Char} (hhead : ∀ c ∈ cs.head?, p c = false)
    (hlast : ∀ c ∈ cs.getLast?, p c = false) : trimWhere p cs = cs := by
  have hreverse : ∀ c ∈ cs.reverse.head?, p c = false := by
    rw [List.head?_reverse]
    exact hlast
  rw [trimWhere, dropWhile_eq_self hhead, dropWhile_eq_self hreverse, List.reverse_reverse]

/-- The front of a text that passes a test, where what follows does not. -/
theorem takeWhile_append {p : Char → Bool} {front rest : List Char}
    (hfront : ∀ c ∈ front, p c = true) (hrest : ∀ c ∈ rest.head?, p c = false) :
    (front ++ rest).takeWhile p = front := by
  rw [List.takeWhile_append_of_pos hfront, takeWhile_eq_nil hrest, List.append_nil]

theorem dropWhile_append {p : Char → Bool} {front rest : List Char}
    (hfront : ∀ c ∈ front, p c = true) (hrest : ∀ c ∈ rest.head?, p c = false) :
    (front ++ rest).dropWhile p = rest := by
  rw [List.dropWhile_append_of_pos hfront, dropWhile_eq_self hrest]

end Text

namespace Numeral

/-- A sign as it is written in front of a number. -/
def signChars (negative : Bool) : List Char := if negative then ['-'] else []

/-- A fraction behind its point; without digits there is no point either. -/
def fractionChars : List Char → List Char
  | [] => []
  | ds => '.' :: ds

theorem scanMinus_signChars {negative : Bool} {cs : List Char} (h : ∀ c ∈ cs.head?, c ≠ '-') :
    scanMinus (signChars negative ++ cs) = (negative, cs) := by
  cases negative with
  | true => rfl
  | false =>
    unfold scanMinus
    split
    · rename_i rest heq
      obtain rfl : cs = '-' :: rest := heq
      exact absurd rfl (h '-' rfl)
    · rfl

theorem scanSign_signChars {negative : Bool} {cs : List Char}
    (h : ∀ c ∈ cs.head?, c ≠ '-' ∧ c ≠ '+') :
    scanSign (signChars negative ++ cs) = (negative, cs) := by
  cases negative with
  | true => rfl
  | false =>
    unfold scanSign
    split
    · rename_i rest heq
      obtain rfl : cs = '-' :: rest := heq
      exact absurd rfl (h '-' rfl).1
    · rename_i rest heq
      obtain rfl : cs = '+' :: rest := heq
      exact absurd rfl (h '+' rfl).2
    · rfl

theorem scanMinus_spec (cs : List Char) : cs = signChars (scanMinus cs).1 ++ (scanMinus cs).2 := by
  unfold scanMinus
  split <;> rfl

/-- Without separators nothing is left out. -/
theorem withoutSeparators_eq_self {digit : Char → Bool} {cs : List Char} (h : '_' ∉ cs) :
    withoutSeparators digit cs = some cs := by
  have hinside : ∀ before, separatorsInside digit before cs = true := by
    induction cs with
    | nil => exact fun _ => rfl
    | cons c rest ih =>
      intro before
      have hc : c ≠ '_' := fun hc => h (hc ▸ List.mem_cons_self)
      rw [separatorsInside]
      · exact ih (fun hrest => h (List.mem_cons_of_mem _ hrest)) c
      · exact hc
  have hfilter : cs.filter (· != '_') = cs := by
    refine List.filter_eq_self.mpr fun c hc => ?_
    exact bne_iff_ne.mpr fun heq => h (heq ▸ hc)
  rw [withoutSeparators, hinside, if_pos rfl, hfilter]

theorem scanExponent_none (digit : Char → Bool) {cs : List Char}
    (h : ∀ c ∈ cs.head?, c ≠ 'e' ∧ c ≠ 'E') : scanExponent digit cs = (0, cs) := by
  cases cs with
  | nil => rfl
  | cons c rest =>
    obtain ⟨hlower, hupper⟩ := h c rfl
    simp [scanExponent, hlower, hupper]

end Numeral

section

variable {R : Type} [Scalar R]

/-- A text that begins with a digit is no word for a number. -/
theorem readSpecial?_of_isDigit {negative : Bool} {c : Char} {cs : List Char}
    (h : Text.isDigit c = true) : readSpecial? (R := R) negative (c :: cs) = none := by
  have hletter : c ≠ 'n' ∧ c ≠ 'i' := by
    constructor
    all_goals
      rintro rfl
      exact absurd h (by decide)
  have hword (d : Char) (ds : List Char) (hd : c ≠ d) :
      ¬ (String.ofList ((c :: cs).map Char.toLower) == String.ofList (d :: ds)) = true := by
    intro heq
    have hchars := String.ofList_injective (beq_iff_eq.mp heq)
    rw [List.map_cons, Text.toLower_of_isDigit h] at hchars
    exact hd (List.cons.inj hchars).1
  have hnan := hword 'n' ['a', 'n'] hletter.1
  have hinf := hword 'i' ['n', 'f'] hletter.2
  have hinfinity := hword 'i' ['n', 'f', 'i', 'n', 'i', 't', 'y'] hletter.2
  rw [readSpecial?, if_neg hnan, if_neg]
  rw [Bool.or_eq_true, not_or]
  exact ⟨hinf, hinfinity⟩

/-- What the lenient reader makes of a sign and a text that begins with a digit. -/
theorem readReal?_signed {negative : Bool} {c : Char} {cs : List Char}
    (hc : Text.isDigit c = true) (hlast : ∀ d ∈ (c :: cs).getLast?, Text.isSpace d = false)
    (hseparators : '_' ∉ c :: cs) :
    readReal? (R := R) (Numeral.signChars negative ++ c :: cs) =
      readNumeral? Text.isDigit negative (c :: cs) := by
  have hfirst : ∀ d ∈ (Numeral.signChars negative ++ c :: cs).head?, Text.isSpace d = false := by
    cases negative with
    | true =>
      intro d hd
      obtain rfl : '-' = d := by simpa [Numeral.signChars] using hd
      decide
    | false =>
      intro d hd
      obtain rfl : c = d := by simpa [Numeral.signChars] using hd
      exact Text.isSpace_of_isDigit hc
  have hend : ∀ d ∈ (Numeral.signChars negative ++ c :: cs).getLast?, Text.isSpace d = false := by
    intro d hd
    rw [List.getLast?_append, Option.or_of_isSome (by simp)] at hd
    exact hlast d hd
  have hsign : ∀ d ∈ (c :: cs).head?, d ≠ '-' ∧ d ≠ '+' := by
    intro d hd
    obtain rfl : c = d := by simpa using hd
    constructor
    all_goals
      rintro rfl
      exact absurd hc (by decide)
  rw [readReal?, Text.trimWhere_eq_self hfirst hend, Numeral.scanSign_signChars hsign]
  simp only [readSpecial?_of_isDigit hc, Option.none_or,
    Numeral.withoutSeparators_eq_self hseparators]
  rfl

end

end Storyboard
