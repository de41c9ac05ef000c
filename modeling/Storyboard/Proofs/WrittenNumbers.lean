import Mathlib.Algebra.Order.Field.Rat
import Mathlib.Data.List.TakeWhile
import Mathlib.Tactic.FieldSimp
import Mathlib.Tactic.Ring
import Storyboard.Proofs.Numerals
import Storyboard.Rational

namespace Storyboard.Numeral

/-- An exponent as it is written: a letter, a sign that may be there, and digits. -/
structure Exponent where
  letter : Char
  sign : List Char
  digits : List Char
  letter_eq : letter = 'e' ∨ letter = 'E'
  sign_eq : sign = [] ∨ sign = ['+'] ∨ sign = ['-']
  digits_ne_nil : digits ≠ []
  digits_digits : ∀ c ∈ digits, Text.isDigit c = true

/-- An exponent that may be there. -/
def exponentChars : Option Exponent → List Char
  | none => []
  | some x => x.letter :: (x.sign ++ x.digits)

/-- The power of ten that an exponent stands for, zero without one. -/
def power : Option Exponent → Int
  | none => 0
  | some x => if x.sign = ['-'] then -digitsValue x.digits else digitsValue x.digits

/-- A point that may be there, with the digits behind it. -/
def pointChars : Option (List Char) → List Char
  | none => []
  | some ds => '.' :: ds

/-- A number as it is written: a minus sign that may be there, digits, of which a point may stand
before, between or behind some, and an exponent that may follow. -/
structure Written where
  negative : Bool
  whole : List Char
  fraction : Option (List Char)
  exponent : Option Exponent
  whole_digits : ∀ c ∈ whole, Text.isDigit c = true
  fraction_digits : ∀ c ∈ fraction.getD [], Text.isDigit c = true
  some_digit : whole ≠ [] ∨ fraction.getD [] ≠ []

namespace Written

/-- What is written behind the sign. -/
def digits (w : Written) : List Char :=
  w.whole ++ (pointChars w.fraction ++ exponentChars w.exponent)

def chars (w : Written) : List Char := signChars w.negative ++ w.digits

/-- The number without its sign. -/
def size (w : Written) : Rat :=
  (digitsValue w.whole + digitsValue (w.fraction.getD []) / 10 ^ (w.fraction.getD []).length) *
    10 ^ power w.exponent

/-- The number that is written. -/
def amount (w : Written) : Rat := if w.negative then -w.size else w.size

def numeral (w : Written) : Numeral := ⟨w.whole, w.fraction.getD [], power w.exponent⟩

end Written

theorem digitsValue_append (ds es : List Char) :
    digitsValue (ds ++ es) = digitsValue ds * 10 ^ es.length + digitsValue es := by
  -- By induction on the digits behind, for whatever stands in front of them.
  have hfrom : ∀ n, es.foldl (fun n c => n * 10 + Text.digitValue c) n =
      n * 10 ^ es.length + digitsValue es := by
    induction es with
    | nil => simp [digitsValue]
    | cons c es ih =>
      intro n
      rw [digitsValue, List.foldl_cons, List.foldl_cons, ih, ih (0 * 10 + _), List.length_cons]
      ring
  rw [digitsValue, List.foldl_append]
  exact hfrom _

theorem tenPow_eq (e : Int) : Decimal.tenPow e = 10 ^ e := by
  rw [Decimal.tenPow]
  split
  · rename_i h
    obtain ⟨n, rfl⟩ := Int.eq_ofNat_of_zero_le h
    simp
  · rename_i h
    obtain ⟨n, hn⟩ := Int.eq_ofNat_of_zero_le (by omega : 0 ≤ -e)
    obtain rfl : e = -n := by omega
    simp [Rat.mkRat_eq_div]

/-- The decimal of a written number is the number. -/
theorem value_toDecimal (w : Written) : (toDecimal w.negative w.numeral).value = w.amount := by
  have hmagnitude : (toDecimal w.negative w.numeral).magnitude = w.size := by
    rw [Decimal.magnitude, toDecimal, tenPow_eq, digitsValue_append, Written.size, Written.numeral,
      zpow_sub₀ (by norm_num), zpow_natCast]
    push_cast
    field_simp
  rw [Decimal.value, Written.amount, hmagnitude]
  rfl

theorem ne_of_isDigit {c d : Char} (hc : Text.isDigit c = true) (hd : Text.isDigit d = false) :
    c ≠ d := by
  rintro rfl
  rw [hc] at hd
  cases hd

/-- The characters of written numbers that are no digits. -/
def marks : List Char := ['-', '+', '.', 'e', 'E']

theorem mem_exponentChars {x : Option Exponent} {c : Char} (h : c ∈ exponentChars x) :
    Text.isDigit c = true ∨ c ∈ marks := by
  cases x with
  | none => cases h
  | some x =>
    rcases List.mem_cons.mp h with rfl | hbehind
    · rcases x.letter_eq with hletter | hletter
      all_goals
        rw [hletter]
        decide
    · rcases List.mem_append.mp hbehind with hsign | hdigit
      · rcases x.sign_eq with heq | heq | heq
        all_goals
          rw [heq] at hsign
        · cases hsign
        · obtain rfl := List.mem_singleton.mp hsign
          decide
        · obtain rfl := List.mem_singleton.mp hsign
          decide
      · exact .inl (x.digits_digits c hdigit)

theorem mem_pointChars {fraction : Option (List Char)} {c : Char}
    (hfraction : ∀ c ∈ fraction.getD [], Text.isDigit c = true) (h : c ∈ pointChars fraction) :
    Text.isDigit c = true ∨ c ∈ marks := by
  cases fraction with
  | none => cases h
  | some ds =>
    rcases List.mem_cons.mp h with rfl | hdigit
    · decide
    · exact .inl (hfraction c hdigit)

namespace Written

theorem mem_chars (w : Written) {c : Char} (h : c ∈ w.chars) :
    Text.isDigit c = true ∨ c ∈ marks := by
  rcases List.mem_append.mp h with hsign | hbehind
  · rw [signChars] at hsign
    split at hsign
    · obtain rfl := List.mem_singleton.mp hsign
      decide
    · cases hsign
  · rcases List.mem_append.mp hbehind with hwhole | hbehind
    · exact .inl (w.whole_digits c hwhole)
    · rcases List.mem_append.mp hbehind with hpoint | hexponent
      · exact mem_pointChars w.fraction_digits hpoint
      · exact mem_exponentChars hexponent

theorem not_mem_chars (w : Written) {c : Char} (hc : Text.isDigit c = false)
    (hmark : c ∉ marks) : c ∉ w.chars := by
  intro h
  rcases w.mem_chars h with hdigit | hmem
  · exact ne_of_isDigit hdigit hc rfl
  · exact hmark hmem

/-- Behind its sign, a written number begins with a digit or a point. -/
theorem digits_eq_cons (w : Written) : ∃ c cs, w.digits = c :: cs ∧ c ≠ '-' := by
  rcases hwhole : w.whole with _ | ⟨d, ds⟩
  · have hfraction := w.some_digit.resolve_left fun hne => hne hwhole
    obtain ⟨fs, hfs⟩ : ∃ fs, w.fraction = some fs := by
      refine Option.ne_none_iff_exists'.mp fun hnone => ?_
      exact hfraction (by rw [hnone]; rfl)
    refine ⟨'.', fs ++ exponentChars w.exponent, ?_, by decide⟩
    rw [digits, hwhole, hfs]
    rfl
  · refine ⟨d, ds ++ (pointChars w.fraction ++ exponentChars w.exponent), ?_, ?_⟩
    · rw [digits, hwhole]
      rfl
    · exact ne_of_isDigit (w.whole_digits d (hwhole ▸ List.mem_cons_self)) (by decide)

end Written

theorem scanFraction_pointChars {fraction : Option (List Char)} {rest : List Char}
    (hfraction : ∀ c ∈ fraction.getD [], Text.isDigit c = true)
    (hrest : ∀ c ∈ rest.head?, Text.isDigit c = false ∧ c ≠ '.') :
    scanFraction Text.isDigit (pointChars fraction ++ rest) = (fraction.getD [], rest) := by
  cases fraction with
  | none =>
    change scanFraction Text.isDigit rest = _
    unfold scanFraction
    split
    · exact absurd rfl (hrest '.' rfl).2
    · rfl
  | some ds =>
    have hdigits : ∀ c ∈ ds, Text.isDigit c = true := hfraction
    have hdigit : ∀ c ∈ rest.head?, Text.isDigit c = false := fun c hc => (hrest c hc).1
    change ((ds ++ rest).takeWhile _, (ds ++ rest).dropWhile _) = (ds, rest)
    rw [Text.takeWhile_append hdigits hdigit, Text.dropWhile_append hdigits hdigit]

/-- A sign with digits behind it. -/
theorem scanSign_digits (x : Exponent) (rest : List Char) :
    scanSign (x.sign ++ (x.digits ++ rest)) = (decide (x.sign = ['-']), x.digits ++ rest) := by
  rcases x.sign_eq with hsign | hsign | hsign
  · obtain ⟨d, ds, hdigits⟩ := List.exists_cons_of_ne_nil x.digits_ne_nil
    have hd : Text.isDigit d = true := x.digits_digits d (hdigits ▸ List.mem_cons_self)
    have hunsigned : ∀ c ∈ (x.digits ++ rest).head?, c ≠ '-' ∧ c ≠ '+' := by
      intro c hc
      obtain rfl : d = c := by simpa [hdigits] using hc
      exact ⟨ne_of_isDigit hd (by decide), ne_of_isDigit hd (by decide)⟩
    rw [hsign]
    exact @scanSign_signChars false _ hunsigned
  · rw [hsign]
    rfl
  · rw [hsign]
    rfl

theorem scanExponent_exponentChars (x : Option Exponent) {rest : List Char}
    (hrest : ∀ c ∈ rest.head?, Text.isDigit c = false ∧ c ≠ 'e' ∧ c ≠ 'E') :
    scanExponent Text.isDigit (exponentChars x ++ rest) = (power x, rest) := by
  cases x with
  | none => exact scanExponent_none Text.isDigit fun c hc => (hrest c hc).2
  | some x =>
    have hletter : (x.letter == 'e' || x.letter == 'E') = true := by simpa using x.letter_eq
    have hdigit : ∀ c ∈ rest.head?, Text.isDigit c = false := fun c hc => (hrest c hc).1
    obtain ⟨d, ds, hdigits⟩ := List.exists_cons_of_ne_nil x.digits_ne_nil
    rw [exponentChars, List.cons_append, List.append_assoc, scanExponent, if_pos hletter]
    simp only [scanSign_digits, Text.takeWhile_append x.digits_digits hdigit,
      Text.dropWhile_append x.digits_digits hdigit]
    rw [hdigits]
    simp [power, hdigits]

/-- No digit goes on where an exponent or a point may stand. -/
theorem head_exponentChars {x : Option Exponent} {rest : List Char}
    (hrest : ∀ c ∈ rest.head?, Text.isDigit c = false ∧ c ≠ '.') :
    ∀ c ∈ (exponentChars x ++ rest).head?, Text.isDigit c = false ∧ c ≠ '.' := by
  cases x with
  | none => exact hrest
  | some x =>
    intro c hc
    obtain rfl : x.letter = c := by simpa [exponentChars] using hc
    rcases x.letter_eq with hletter | hletter
    all_goals
      rw [hletter]
      decide

theorem head_pointChars {fraction : Option (List Char)} {rest : List Char}
    (hrest : ∀ c ∈ rest.head?, Text.isDigit c = false) :
    ∀ c ∈ (pointChars fraction ++ rest).head?, Text.isDigit c = false := by
  cases fraction with
  | none => exact hrest
  | some ds =>
    intro c hc
    obtain rfl : '.' = c := by simpa [pointChars] using hc
    decide

/-- What scanning takes of a written number and a text that does not go on with it. -/
theorem scan_written (w : Written) {rest : List Char}
    (hrest : ∀ c ∈ rest.head?, Text.isDigit c = false ∧ c ≠ '.' ∧ c ≠ 'e' ∧ c ≠ 'E') :
    scan Text.isDigit (w.digits ++ rest) = some (w.numeral, rest) := by
  have hexponent := head_exponentChars (x := w.exponent)
    fun c hc => ⟨(hrest c hc).1, (hrest c hc).2.1⟩
  have hpoint := @head_pointChars w.fraction _ fun c hc => (hexponent c hc).1
  have hsome : ¬ (w.whole.isEmpty && (w.fraction.getD []).isEmpty) = true := by
    rw [Bool.and_eq_true, List.isEmpty_iff, List.isEmpty_iff, not_and_or]
    exact w.some_digit
  rw [Written.digits, List.append_assoc, List.append_assoc, scan]
  simp only [Text.takeWhile_append w.whole_digits hpoint,
    Text.dropWhile_append w.whole_digits hpoint,
    scanFraction_pointChars w.fraction_digits hexponent, if_neg hsome,
    scanExponent_exponentChars w.exponent fun c hc => ⟨(hrest c hc).1, (hrest c hc).2.2⟩]
  rfl

/-- Digits with a fraction, behind which neither a digit nor an exponent follows, are scanned
whole. -/
theorem scan_digits {whole fraction rest : List Char} (hne : whole ≠ [])
    (hwhole : ∀ c ∈ whole, Text.isDigit c = true)
    (hfraction : ∀ c ∈ fraction, Text.isDigit c = true)
    (hrest : ∀ c ∈ rest.head?, Text.isDigit c = false ∧ c ≠ '.' ∧ c ≠ 'e' ∧ c ≠ 'E') :
    scan Text.isDigit (whole ++ (fractionChars fraction ++ rest)) =
      some (⟨whole, fraction, 0⟩, rest) := by
  cases fraction with
  | nil =>
    have hscan := scan_written ⟨false, whole, none, none, hwhole, by simp, .inl hne⟩ hrest
    simpa [Written.digits, Written.numeral, pointChars, exponentChars, fractionChars, power]
      using hscan
  | cons d ds =>
    have hscan :=
      scan_written ⟨false, whole, some (d :: ds), none, hwhole, hfraction, .inl hne⟩ hrest
    simpa [Written.digits, Written.numeral, pointChars, exponentChars, fractionChars, power]
      using hscan

theorem scanFraction_spec (cs : List Char) : ∃ fraction : Option (List Char),
    cs = pointChars fraction ++ (scanFraction Text.isDigit cs).2 ∧
      (scanFraction Text.isDigit cs).1 = fraction.getD [] ∧
      ∀ c ∈ fraction.getD [], Text.isDigit c = true := by
  unfold scanFraction
  split
  · rename_i rest
    refine ⟨some (rest.takeWhile Text.isDigit), ?_, rfl, fun c hc => List.mem_takeWhile_imp hc⟩
    rw [pointChars, List.cons_append, List.takeWhile_append_dropWhile]
  · exact ⟨none, rfl, rfl, by simp⟩

theorem scanSign_spec (cs : List Char) : ∃ sign : List Char,
    (sign = [] ∨ sign = ['+'] ∨ sign = ['-']) ∧ cs = sign ++ (scanSign cs).2 ∧
      (scanSign cs).1 = decide (sign = ['-']) := by
  unfold scanSign
  split
  · exact ⟨['-'], by simp, rfl, rfl⟩
  · exact ⟨['+'], by simp, rfl, rfl⟩
  · exact ⟨[], by simp, rfl, rfl⟩

theorem scanExponent_spec (cs : List Char) : ∃ x : Option Exponent,
    cs = exponentChars x ++ (scanExponent Text.isDigit cs).2 ∧
      (scanExponent Text.isDigit cs).1 = power x := by
  cases cs with
  | nil => exact ⟨none, rfl, rfl⟩
  | cons e cs =>
    rw [scanExponent]
    by_cases hletter : (e == 'e' || e == 'E') = true
    · obtain ⟨sign, hsign, hcs, hnegative⟩ := scanSign_spec cs
      simp only [if_pos hletter]
      split
      -- A letter without digits behind it belongs to what follows on the number.
      · exact ⟨none, rfl, rfl⟩
      · rename_i hne
        have hletters : e = 'e' ∨ e = 'E' := by simpa using hletter
        let x : Exponent := ⟨e, sign, _, hletters, hsign, hne, fun c => List.mem_takeWhile_imp⟩
        refine ⟨some x, ?_, ?_⟩
        · rw [exponentChars, List.cons_append, List.append_assoc]
          change e :: cs =
            e :: (sign ++ ((scanSign cs).2.takeWhile _ ++ (scanSign cs).2.dropWhile _))
          rw [List.takeWhile_append_dropWhile, ← hcs]
        · simp only [hnegative, decide_eq_true_eq]
          rfl
    · rw [if_neg hletter]
      exact ⟨none, rfl, rfl⟩

/-- What is scanned behind a sign makes a written number with it. -/
theorem exists_written (negative : Bool) {cs rest : List Char} {n : Numeral}
    (h : scan Text.isDigit cs = some (n, rest)) :
    ∃ w : Written, w.negative = negative ∧ w.numeral = n ∧ cs = w.digits ++ rest := by
  obtain ⟨fraction, hpoint, hfraction, hdigits⟩ := scanFraction_spec (cs.dropWhile Text.isDigit)
  obtain ⟨x, hletters, hpower⟩ :=
    scanExponent_spec (scanFraction Text.isDigit (cs.dropWhile Text.isDigit)).2
  simp only [scan] at h
  split at h
  · cases h
  · rename_i hsome
    rw [Bool.and_eq_true, List.isEmpty_iff, List.isEmpty_iff, hfraction, not_and_or] at hsome
    obtain ⟨rfl, rfl⟩ := Prod.mk.inj (Option.some_inj.mp h)
    refine ⟨⟨negative, _, fraction, x, fun c => List.mem_takeWhile_imp, hdigits, hsome⟩, rfl, ?_,
      ?_⟩
    · rw [Written.numeral, hfraction, hpower]
    · rw [Written.digits, List.append_assoc, List.append_assoc, ← hletters, ← hpoint,
        List.takeWhile_append_dropWhile]

end Storyboard.Numeral
