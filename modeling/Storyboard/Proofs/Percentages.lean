import Storyboard.Proofs.Lengths
import Storyboard.Proofs.WrittenNumbers

namespace Storyboard

theorem Number.mul_real {R : Type} [Scalar R] {x y : R} {n : Number R} (h : n.toReal = .ok y) :
    (Number.real x).mul n = .ok (.real (Scalar.mul x y)) := by
  change (do
    let y ← n.toReal
    return Number.real (Scalar.mul x y) : Outcome (Number R)) = _
  rw [h]
  rfl

namespace Percentage

/-- A percentage as it is written: a minus sign that may be there, digits, a point with digits
behind it if there is a fraction, and the percent sign, behind which a line break may stand. -/
structure Figure where
  negative : Bool
  whole : List Char
  fraction : List Char
  lineBreak : Bool
  whole_ne_nil : whole ≠ []
  whole_digits : ∀ c ∈ whole, Text.isDigit c = true
  fraction_digits : ∀ c ∈ fraction, Text.isDigit c = true

namespace Figure

/-- What is written in front of the percent sign. -/
def number (f : Figure) : List Char :=
  Numeral.signChars f.negative ++ (f.whole ++ Numeral.fractionChars f.fraction)

/-- What is written behind the percent sign. -/
def ending (f : Figure) : List Char := if f.lineBreak then ['\n'] else []

def text (f : Figure) : String := String.ofList (f.number ++ '%' :: f.ending)

/-- The decimal number in front of the percent sign. -/
def decimal (f : Figure) : Decimal := Numeral.toDecimal f.negative ⟨f.whole, f.fraction, 0⟩

/-- The part of a length that a percentage stands for: its number in hundredths of the length. -/
def share {R : Type} [Scalar R] (f : Figure) (length : R) : R :=
  Scalar.mul (Scalar.div (Scalar.ofDecimal f.decimal) (Scalar.const 100 0)) length

/-- In exact arithmetic the part is what the number says. -/
theorem share_exact (f : Figure) (length : Rat) :
    f.share length = f.decimal.value / 100 * length := by
  have hhundred : (Scalar.const 100 0 : Rat) = 100 := by decide +kernel
  rw [share, hhundred]
  rfl

end Figure

/-- Digits are taken from the front of a text as far as they go, and there has to be one. -/
theorem digits?_eq_some {cs ds rest : List Char} :
    digits? cs = some (ds, rest) ↔ ds ≠ [] ∧ (∀ c ∈ ds, Text.isDigit c = true) ∧
      (∀ c ∈ rest.head?, Text.isDigit c = false) ∧ cs = ds ++ rest := by
  constructor
  · intro h
    unfold digits? at h
    split at h
    · cases h
    · rename_i hne
      obtain ⟨rfl, rfl⟩ : cs.takeWhile Text.isDigit = ds ∧ cs.dropWhile Text.isDigit = rest := by
        simpa using h
      refine ⟨hne, fun c hc => List.mem_takeWhile_imp hc, fun c hc => ?_, ?_⟩
      · have hbehind := List.head?_dropWhile_not Text.isDigit cs
        rw [Option.mem_def.mp hc] at hbehind
        simpa using hbehind
      · exact List.takeWhile_append_dropWhile.symm
  · rintro ⟨hne, hdigits, hrest, rfl⟩
    rw [digits?, Text.takeWhile_append hdigits hrest, Text.dropWhile_append hdigits hrest]
    cases ds with
    | nil => exact absurd rfl hne
    | cons d ds => rfl

theorem digits?_append_cons {ds rest : List Char} {c : Char} (hne : ds ≠ [])
    (hds : ∀ c ∈ ds, Text.isDigit c = true) (hc : Text.isDigit c = false) :
    digits? (ds ++ c :: rest) = some (ds, c :: rest) :=
  digits?_eq_some.mpr ⟨hne, hds, by simpa using hc, rfl⟩

/-- A number in front of a percent sign is taken as it is written. -/
theorem afterNumber?_written (negative : Bool) {whole fraction tail : List Char} (hne : whole ≠ [])
    (hwhole : ∀ c ∈ whole, Text.isDigit c = true)
    (hfraction : ∀ c ∈ fraction, Text.isDigit c = true) :
    afterNumber? (Numeral.signChars negative ++
      (whole ++ (Numeral.fractionChars fraction ++ '%' :: tail))) = some ('%' :: tail) := by
  have hfirst :
      ∀ c ∈ (whole ++ (Numeral.fractionChars fraction ++ '%' :: tail)).head?, c ≠ '-' := by
    obtain ⟨w, ws, rfl⟩ := List.exists_cons_of_ne_nil hne
    intro c hc
    obtain rfl : w = c := by simpa using hc
    rintro rfl
    exact absurd (hwhole '-' List.mem_cons_self) (by decide)
  rw [afterNumber?, Numeral.scanMinus_signChars hfirst]
  cases fraction with
  | nil =>
    have hdigits : digits? (whole ++ '%' :: tail) = some (whole, '%' :: tail) :=
      digits?_append_cons hne hwhole (by decide)
    simp [Numeral.fractionChars, hdigits]
  | cons d ds =>
    have hdigits : digits? (whole ++ '.' :: (d :: ds ++ '%' :: tail)) =
        some (whole, '.' :: (d :: ds ++ '%' :: tail)) :=
      digits?_append_cons hne hwhole (by decide)
    have hbehind : digits? (d :: ds ++ '%' :: tail) = some (d :: ds, '%' :: tail) :=
      digits?_append_cons (by simp) hfraction (by decide)
    have hchars : Numeral.fractionChars (d :: ds) ++ '%' :: tail =
        '.' :: (d :: ds ++ '%' :: tail) := rfl
    rw [hchars, hdigits]
    simp only [hbehind, Option.map_some]

/-- What stands in front of a percent sign that follows on a number. -/
theorem afterNumber?_eq_percent {cs tail : List Char} :
    afterNumber? cs = some ('%' :: tail) ↔ ∃ (negative : Bool) (whole fraction : List Char),
      whole ≠ [] ∧ (∀ c ∈ whole, Text.isDigit c = true) ∧
      (∀ c ∈ fraction, Text.isDigit c = true) ∧
      cs = Numeral.signChars negative ++
        (whole ++ (Numeral.fractionChars fraction ++ '%' :: tail)) := by
  constructor
  · intro h
    have hminus := Numeral.scanMinus_spec cs
    unfold afterNumber? at h
    split at h
    · cases h
    · rename_i whole rest hdigits
      obtain ⟨hne, hwhole, -, hcs⟩ := digits?_eq_some.mp hdigits
      obtain ⟨⟨fraction, behind⟩, hfraction, rfl : behind = '%' :: tail⟩ :=
        Option.map_eq_some_iff.mp h
      obtain ⟨hsome, hds, -, rfl⟩ := digits?_eq_some.mp hfraction
      obtain ⟨d, ds, rfl⟩ := List.exists_cons_of_ne_nil hsome
      refine ⟨(Numeral.scanMinus cs).1, whole, d :: ds, hne, hwhole, hds, ?_⟩
      rwa [hcs] at hminus
    · rename_i whole rest _ hdigits
      obtain rfl : rest = '%' :: tail := Option.some_inj.mp h
      obtain ⟨hne, hwhole, -, hcs⟩ := digits?_eq_some.mp hdigits
      refine ⟨(Numeral.scanMinus cs).1, whole, [], hne, hwhole, by simp, ?_⟩
      rwa [hcs] at hminus
  · rintro ⟨negative, whole, fraction, hne, hwhole, hfraction, rfl⟩
    exact afterNumber?_written negative hne hwhole hfraction

/-- The percentages are the texts of figures. -/
theorem isPercentage_iff {s : String} : isPercentage s = true ↔ ∃ f : Figure, f.text = s := by
  constructor
  · intro h
    unfold isPercentage at h
    split at h
    · rename_i rest hrest
      obtain ⟨lineBreak, rfl⟩ : ∃ lineBreak : Bool,
          rest = '%' :: (if lineBreak then ['\n'] else []) := by
        rcases (Bool.or_eq_true _ _).mp h with hnone | hbreak
        · exact ⟨false, beq_iff_eq.mp hnone⟩
        · exact ⟨true, beq_iff_eq.mp hbreak⟩
      obtain ⟨negative, whole, fraction, hne, hwhole, hfraction, hcs⟩ :=
        afterNumber?_eq_percent.mp hrest
      refine ⟨⟨negative, whole, fraction, lineBreak, hne, hwhole, hfraction⟩, ?_⟩
      rw [← String.ofList_toList (s := s), hcs]
      simp [Figure.text, Figure.number, Figure.ending]
    · cases h
  · rintro ⟨f, rfl⟩
    have hafter : afterNumber? f.text.toList = some ('%' :: f.ending) := by
      refine afterNumber?_eq_percent.mpr
        ⟨f.negative, f.whole, f.fraction, f.whole_ne_nil, f.whole_digits, f.fraction_digits, ?_⟩
      simp [Figure.text, Figure.number]
    rw [isPercentage, hafter, Figure.ending]
    cases f.lineBreak <;> rfl

variable {R : Type} [Scalar R]

namespace Figure

/-- The number of a figure begins with a digit behind its sign. -/
theorem number_eq (f : Figure) : ∃ c cs, Text.isDigit c = true ∧
    f.whole ++ Numeral.fractionChars f.fraction = c :: cs ∧
    f.number = Numeral.signChars f.negative ++ c :: cs := by
  obtain ⟨w, ws, hwhole⟩ := List.exists_cons_of_ne_nil f.whole_ne_nil
  refine ⟨w, ws ++ Numeral.fractionChars f.fraction, ?_, ?_, ?_⟩
  · exact f.whole_digits w (hwhole ▸ List.mem_cons_self)
  · rw [hwhole, List.cons_append]
  · rw [number, hwhole, List.cons_append]

/-- Behind its sign, the number of a figure consists of digits and points. -/
theorem isDigit_of_mem (f : Figure) {c : Char}
    (h : c ∈ f.whole ++ Numeral.fractionChars f.fraction) : Text.isDigit c = true ∨ c = '.' := by
  rcases List.mem_append.mp h with hwhole | hfraction
  · exact .inl (f.whole_digits c hwhole)
  · cases hds : f.fraction with
    | nil =>
      rw [hds] at hfraction
      cases hfraction
    | cons d ds =>
      rw [hds] at hfraction
      rcases List.mem_cons.mp hfraction with rfl | hmem
      · exact .inr rfl
      · exact .inl (f.fraction_digits c (hds ▸ hmem))

/-- What is not written in the number of a figure. -/
theorem not_mem_number (f : Figure) {c : Char} (hdigit : Text.isDigit c = false)
    (hpoint : c ≠ '.') : c ∉ f.whole ++ Numeral.fractionChars f.fraction := by
  intro h
  rcases f.isDigit_of_mem h with hc | hc
  · rw [hdigit] at hc
    cases hc
  · exact hpoint hc

theorem isSpace_of_mem (f : Figure) {c : Char}
    (h : c ∈ f.whole ++ Numeral.fractionChars f.fraction) : Text.isSpace c = false := by
  rcases f.isDigit_of_mem h with hc | rfl
  · exact Text.isSpace_of_isDigit hc
  · decide

theorem readReal?_number (f : Figure) :
    readReal? (R := R) f.number = some (Scalar.ofDecimal f.decimal) := by
  obtain ⟨c, cs, hc, hchars, hnumber⟩ := f.number_eq
  have hlast : ∀ d ∈ (c :: cs).getLast?, Text.isSpace d = false := by
    intro d hd
    exact f.isSpace_of_mem (hchars ▸ List.mem_of_mem_getLast? hd)
  have hseparators : '_' ∉ c :: cs := hchars ▸ f.not_mem_number (by decide) (by decide)
  rw [hnumber, readReal?_signed hc hlast hseparators, ← hchars, readNumeral?]
  have hscan : Numeral.scan Text.isDigit (f.whole ++ (Numeral.fractionChars f.fraction ++ [])) =
      some (⟨f.whole, f.fraction, 0⟩, []) :=
    Numeral.scan_digits f.whole_ne_nil f.whole_digits f.fraction_digits (by simp)
  rw [List.append_nil] at hscan
  rw [hscan]
  rfl

/-- With its percent sign the number of a figure is no number. -/
theorem readReal?_number_percent (f : Figure) :
    readReal? (R := R) (f.number ++ ['%']) = none := by
  obtain ⟨c, cs, hc, hchars, hnumber⟩ := f.number_eq
  have hlast : ∀ d ∈ (c :: (cs ++ ['%'])).getLast?, Text.isSpace d = false := by
    intro d hd
    obtain rfl : '%' = d := by
      rw [← List.cons_append, List.getLast?_concat] at hd
      simpa using hd
    decide
  have hseparators : '_' ∉ c :: (cs ++ ['%']) := by
    rw [← List.cons_append, ← hchars, List.mem_append, not_or]
    exact ⟨f.not_mem_number (by decide) (by decide), by decide⟩
  rw [hnumber, List.append_assoc, List.cons_append, readReal?_signed hc hlast hseparators,
    ← List.cons_append, ← hchars, List.append_assoc, readNumeral?]
  rw [Numeral.scan_digits f.whole_ne_nil f.whole_digits f.fraction_digits]
  intro d hd
  obtain rfl : '%' = d := by simpa using hd
  decide

end Figure

/-- The part of a length that a figure stands for. Behind a line break no number is found. -/
theorem part_text (f : Figure) (length : Number R) :
    part f.text length =
      if f.lineBreak then numericFault .value
      else (Number.real (Scalar.ofDecimal f.decimal)).div (.real (Scalar.const 100 0)) >>=
        fun share => share.mul length := by
  have hfront : f.text.toList.dropLast =
      if f.lineBreak then f.number ++ ['%'] else f.number := by
    rw [Figure.text, String.toList_ofList, Figure.ending]
    cases f.lineBreak
    · exact List.dropLast_concat
    · change (f.number ++ (['%'] ++ ['\n'])).dropLast = _
      rw [← List.append_assoc]
      exact List.dropLast_concat
  rw [part, hfront]
  cases f.lineBreak with
  | true =>
    simp only [if_true, f.readReal?_number_percent]
  | false =>
    simp only [Bool.false_eq_true, if_false, f.readReal?_number]

/-- A figure stands for its part of a length, unless a line break stands behind its percent sign. -/
theorem resolve_text (hhundred : Scalar.Hundredths R) (f : Figure) {length : Number R} {side : R}
    (h : length.toReal = .ok side) :
    resolve (.text f.text) length =
      if f.lineBreak then numericFault .value else .ok (.number (.real (f.share side))) := by
  have hpercent : isPercentage f.text = true := isPercentage_iff.mpr ⟨f, rfl⟩
  rw [resolve, if_pos hpercent, part_text]
  cases f.lineBreak with
  | true => rfl
  | false =>
    simp only [Bool.false_eq_true, if_false, Number.div_hundred hhundred, Outcome.ok_bind,
      Number.mul_real h]
    rfl

end Percentage

end Storyboard
