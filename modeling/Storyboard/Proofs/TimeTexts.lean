import Storyboard.Proofs.Exact
import Storyboard.Proofs.WrittenNumbers

namespace Storyboard.Time

/-- How many seconds a unit has. -/
def TimeUnit.span : TimeUnit → Rat
  | millisecond => 1 / 1000
  | minute => 60
  | second => 1

theorem TimeUnit.seconds_eq (u : TimeUnit) : (u.seconds : Rat) = u.span := by
  cases u <;> decide +kernel

/-- A time value as it is written: a number, behind which a line break may stand, and a unit that
may be there. -/
structure TimeText where
  number : Numeral.Written
  lineBreak : Bool
  unit : Option TimeUnit

namespace TimeText

def breakChars (lineBreak : Bool) : List Char := if lineBreak then ['\n'] else []

def suffixChars : Option TimeUnit → List Char
  | none => []
  | some u => u.suffix

/-- What is written in front of the unit. -/
def front (t : TimeText) : List Char := t.number.chars ++ breakChars t.lineBreak

def text (t : TimeText) : String := String.ofList (t.front ++ suffixChars t.unit)

/-- The time in frames, of which not all are whole; without a unit the number counts frames. -/
def frames (t : TimeText) (fps : Rat) : Rat :=
  match t.unit with
  | none => t.number.amount
  | some u => t.number.amount * u.span * fps

end TimeText

/-- A written number is read as what it says, with a line break behind it or without. -/
theorem amount?_written (w : Numeral.Written) (lineBreak : Bool) :
    amount? (w.chars ++ TimeText.breakChars lineBreak) = some w.amount := by
  have hfirst : ∀ c ∈ (w.digits ++ TimeText.breakChars lineBreak).head?, c ≠ '-' := by
    obtain ⟨d, ds, hdigits, hd⟩ := w.digits_eq_cons
    intro c hc
    obtain rfl : d = c := by simpa [hdigits] using hc
    exact hd
  have hbehind : ∀ c ∈ (TimeText.breakChars lineBreak).head?,
      Text.isDigit c = false ∧ c ≠ '.' ∧ c ≠ 'e' ∧ c ≠ 'E' := by
    intro c hc
    cases lineBreak with
    | false => cases hc
    | true =>
      obtain rfl : '\n' = c := by simpa [TimeText.breakChars] using hc
      decide
  have hend : (TimeText.breakChars lineBreak == [] || TimeText.breakChars lineBreak == ['\n']) =
      true := by
    cases lineBreak <;> rfl
  rw [amount?, Numeral.Written.chars, List.append_assoc, Numeral.scanMinus_signChars hfirst]
  simp only [Numeral.scan_written w hbehind, hend, if_true]
  rw [← Numeral.value_toDecimal]
  rfl

theorem amount?_eq_some {cs : List Char} {a : Rat} : amount? cs = some a ↔
    ∃ (w : Numeral.Written) (lineBreak : Bool),
      cs = w.chars ++ TimeText.breakChars lineBreak ∧ w.amount = a := by
  constructor
  · intro h
    simp only [amount?] at h
    split at h
    · rename_i n rest hscan
      split at h
      · rename_i hend
        obtain ⟨lineBreak, rfl⟩ : ∃ lineBreak, rest = TimeText.breakChars lineBreak := by
          rcases (Bool.or_eq_true _ _).mp hend with hnone | hbreak
          · exact ⟨false, beq_iff_eq.mp hnone⟩
          · exact ⟨true, beq_iff_eq.mp hbreak⟩
        obtain ⟨w, hnegative, rfl, hcs⟩ :=
          Numeral.exists_written (Numeral.scanMinus cs).1 hscan
        refine ⟨w, lineBreak, ?_, ?_⟩
        · rw [Numeral.Written.chars, List.append_assoc, ← hcs, hnegative]
          exact Numeral.scanMinus_spec cs
        · rw [← Numeral.value_toDecimal, hnegative]
          exact Option.some_inj.mp h
      · cases h
    · cases h
  · rintro ⟨w, lineBreak, rfl, rfl⟩
    exact amount?_written w lineBreak

theorem amount_of_some {text : String} {cs : List Char} {a : Rat} (h : amount? cs = some a) :
    amount text cs = if a < 0 then .error (.time (.negative (quote text))) else .ok a := by
  rw [amount, h]
  simp [Scalar.exact, Exact.lt]

theorem before?_eq_some {suffix cs front : List Char} :
    before? suffix cs = some front ↔ cs = front ++ suffix := by
  rw [before?]
  constructor
  · intro h
    split at h
    · rename_i hend
      obtain rfl := Option.some_inj.mp h
      have hsuffix := beq_iff_eq.mp ((Bool.and_eq_true _ _).mp hend).2
      calc cs = cs.take (cs.length - suffix.length) ++ cs.drop (cs.length - suffix.length) :=
            (List.take_append_drop _ cs).symm
        _ = cs.take (cs.length - suffix.length) ++ suffix := by rw [hsuffix]
    · cases h
  · rintro rfl
    simp

theorem before?_eq_none {suffix cs : List Char} (h : ∀ front, cs ≠ front ++ suffix) :
    before? suffix cs = none :=
  Option.eq_none_iff_forall_ne_some.mpr fun front hfront => h front (before?_eq_some.mp hfront)

/-- A text with another last character does not end in the suffix. -/
theorem before?_concat_of_ne {suffix cs : List Char} {c d : Char} (h : d ≠ c) :
    before? (suffix ++ [c]) (cs ++ [d]) = none := by
  refine before?_eq_none fun front hfront => h ?_
  have hlast := congrArg List.getLast? hfront
  simpa [← List.append_assoc] using hlast

theorem eq_of_splitUnit {cs front : List Char} {u : TimeUnit}
    (h : splitUnit cs = some (u, front)) : cs = front ++ u.suffix := by
  obtain ⟨v, -, hv⟩ := List.exists_of_findSome?_eq_some h
  obtain ⟨front', hfront, heq⟩ := Option.map_eq_some_iff.mp hv
  obtain ⟨rfl, rfl⟩ := Prod.mk.inj heq
  exact before?_eq_some.mp hfront

namespace TimeText

/-- No letter of a unit stands in front of the unit. -/
theorem not_mem_front (t : TimeText) : 'm' ∉ t.front ∧ 's' ∉ t.front := by
  have hnot (c : Char) (hc : Text.isDigit c = false) (hmark : c ∉ Numeral.marks)
      (hbreak : c ≠ '\n') : c ∉ t.front := by
    intro hmem
    rcases List.mem_append.mp hmem with hnumber | hend
    · exact t.number.not_mem_chars hc hmark hnumber
    · rw [breakChars] at hend
      split at hend
      · exact hbreak (List.mem_singleton.mp hend)
      · cases hend
  exact ⟨hnot 'm' (by decide) (by decide) (by decide),
    hnot 's' (by decide) (by decide) (by decide)⟩

/-- The unit of a written time value is found. -/
theorem splitUnit_chars (t : TimeText) :
    splitUnit (t.front ++ suffixChars t.unit) = t.unit.map fun u => (u, t.front) := by
  obtain ⟨hm, hs⟩ := t.not_mem_front
  have hfound (u : TimeUnit) : before? u.suffix (t.front ++ u.suffix) = some t.front :=
    before?_eq_some.mpr rfl
  cases hunit : t.unit with
  | none =>
    have hnone (u : TimeUnit) : before? u.suffix t.front = none := by
      refine before?_eq_none fun front hfront => ?_
      cases u with
      | millisecond => exact hs (by simp [hfront, TimeUnit.suffix])
      | minute => exact hm (by simp [hfront, TimeUnit.suffix])
      | second => exact hs (by simp [hfront, TimeUnit.suffix])
    simp [suffixChars, splitUnit, units, hnone]
  | some u =>
    cases u with
    | millisecond => simp [suffixChars, splitUnit, units, hfound]
    | minute =>
      have hother : before? TimeUnit.millisecond.suffix (t.front ++ TimeUnit.minute.suffix) =
          none := @before?_concat_of_ne ['m'] _ _ _ (by decide)
      simp [suffixChars, splitUnit, units, hother, hfound]
    | second =>
      -- The suffix of milliseconds ends in that of seconds, but no letter stands in front of it.
      have hother : before? TimeUnit.millisecond.suffix (t.front ++ TimeUnit.second.suffix) =
          none := by
        refine before?_eq_none fun front hfront => ?_
        have hfront' : t.front ++ ['s'] = (front ++ ['m']) ++ ['s'] := by
          rw [List.append_assoc]
          exact hfront
        exact hm (by simp [List.append_cancel_right hfront'])
      have hminute : before? TimeUnit.minute.suffix (t.front ++ TimeUnit.second.suffix) =
          none := @before?_concat_of_ne [] _ _ _ (by decide)
      simp [suffixChars, splitUnit, units, hother, hminute, hfound]

/-- What stands in front of the unit says whether a line break ends it. -/
theorem front_injective {t t' : TimeText} (h : t.front = t'.front) :
    t.number.chars = t'.number.chars ∧ t.lineBreak = t'.lineBreak := by
  have hmem (t : TimeText) : '\n' ∈ t.front ↔ t.lineBreak = true := by
    have hnumber : '\n' ∉ t.number.chars := t.number.not_mem_chars (by decide) (by decide)
    rw [front, List.mem_append, or_iff_right hnumber, breakChars]
    cases t.lineBreak <;> simp
  have hsame : t.lineBreak = t'.lineBreak := by
    rw [Bool.eq_iff_iff, ← hmem, ← hmem, h]
  rw [front, front, hsame] at h
  exact ⟨List.append_cancel_right h, hsame⟩

/-- A text is written as a time value in one way: the unit, the number in front of it and the line
break between them are found in the text. -/
theorem text_injective {t t' : TimeText} (h : t.text = t'.text) :
    t.unit = t'.unit ∧ t.number.chars = t'.number.chars ∧ t.lineBreak = t'.lineBreak := by
  have hchars := String.ofList_injective h
  have hsplit : t.unit.map (fun u => (u, t.front)) = t'.unit.map fun u => (u, t'.front) := by
    rw [← splitUnit_chars, ← splitUnit_chars, hchars]
  have hunit : t.unit = t'.unit := by
    have hfirst := congrArg (Option.map Prod.fst) hsplit
    simpa [Function.comp_def] using hfirst
  rw [hunit] at hchars
  exact ⟨hunit, front_injective (List.append_cancel_right hchars)⟩

end TimeText

/-- What a written time value is read as. -/
theorem frame_text (fps : Number Rat) (t : TimeText) :
    frame fps (.text t.text) =
      if t.number.amount < 0 then .error (.time (.negative (quote t.text)))
      else .ok ⌊t.frames fps.value + 1 / 2⌋ := by
  have hfilled : ¬ t.text.toList.isEmpty = true := by
    obtain ⟨d, ds, hdigits, -⟩ := t.number.digits_eq_cons
    simp [TimeText.text, TimeText.front, Numeral.Written.chars, hdigits]
  have hamount : amount? t.front = some t.number.amount :=
    amount?_eq_some.mpr ⟨t.number, t.lineBreak, rfl, rfl⟩
  have hsplit : splitUnit t.text.toList = t.unit.map fun u => (u, t.front) := by
    rw [TimeText.text, String.toList_ofList]
    exact t.splitUnit_chars
  rw [frame, frameOfText]
  simp only [if_neg hfilled, hsplit]
  cases hunit : t.unit with
  | none =>
    have hchars : t.text.toList = t.front := by
      simp [TimeText.text, hunit, TimeText.suffixChars]
    simp only [Option.map_none, hchars, amount_of_some hamount, TimeText.frames, hunit]
    split
    · rfl
    · rw [Outcome.ok_bind, Number.roundFrame_eq, Number.value_real]
  | some u =>
    simp only [Option.map_some, amount_of_some hamount, TimeText.frames, hunit]
    split
    · rfl
    · obtain ⟨frames, hframes⟩ :=
        Number.mul_ok (.real (Scalar.mul t.number.amount u.seconds)) fps
      rw [Outcome.ok_bind, hframes, Outcome.ok_bind, Number.roundFrame_eq,
        Number.mul_eq_ok hframes, Number.value_real, TimeUnit.seconds_eq]
      rfl

theorem frames_nonneg {fps : Rat} (hfps : 0 < fps) {t : TimeText} (h : 0 ≤ t.number.amount) :
    0 ≤ ⌊t.frames fps + 1 / 2⌋ := by
  have hframes : 0 ≤ t.frames fps := by
    rw [TimeText.frames]
    split
    · exact h
    · rename_i u _
      have hspan : 0 ≤ u.span := u.seconds_eq ▸ seconds_nonneg u
      exact mul_nonneg (mul_nonneg h hspan) hfps.le
  exact Int.floor_nonneg.mpr (by linarith)

/-- A text that is not written as a time value is refused. -/
theorem frame_of_not_text (fps : Number Rat) {s : String} (h : ∀ t : TimeText, t.text ≠ s) :
    ∃ cause, frame fps (.text s) = .error (.time cause) ∧
      (cause = .unreadable (Json.displayText s) ∨ cause = .malformed s) := by
  have hnone (cs : List Char) (unit : Option TimeUnit)
      (hcs : s.toList = cs ++ TimeText.suffixChars unit) : amount? (R := Rat) cs = none := by
    refine Option.eq_none_iff_forall_ne_some.mpr fun a ha => ?_
    obtain ⟨w, lineBreak, rfl, -⟩ := amount?_eq_some.mp ha
    refine h ⟨w, lineBreak, unit⟩ ?_
    rw [TimeText.text, TimeText.front, ← hcs, String.ofList_toList]
  rw [frame, frameOfText]
  by_cases hempty : s.toList.isEmpty = true
  · exact ⟨_, if_pos hempty, .inl rfl⟩
  · simp only [if_neg hempty]
    cases hsplit : splitUnit s.toList with
    | none =>
      have hmalformed := hnone s.toList none (List.append_nil _).symm
      exact ⟨_, by simp only [amount, hmalformed]; rfl, .inr rfl⟩
    | some found =>
      obtain ⟨u, front⟩ := found
      have hmalformed := hnone front (some u) (eq_of_splitUnit hsplit)
      exact ⟨_, by simp only [amount, hmalformed]; rfl, .inr rfl⟩

/-- What a text is read as if the accepted ones of the written time values are read as what they
say and every other text is refused. -/
structure Reads (accepted : TimeText → Prop) (fps : Number Rat) (s : String) : Prop where
  whole : ∀ t, accepted t → t.text = s → 0 ≤ t.number.amount →
    frame fps (.text s) = .ok ⌊t.frames fps.value + 1 / 2⌋ ∧ 0 ≤ ⌊t.frames fps.value + 1 / 2⌋
  negative : ∀ t, accepted t → t.text = s → t.number.amount < 0 →
    frame fps (.text s) = .error (.time (.negative (quote s)))
  refused : (∀ t, accepted t → t.text ≠ s) → ∃ cause, frame fps (.text s) = .error (.time cause) ∧
    (cause = .unreadable (Json.displayText s) ∨ cause = .malformed s)

theorem reads_all {fps : Number Rat} (hfps : 0 < fps.value) (s : String) :
    Reads (fun _ => True) fps s where
  whole t _ := by
    rintro rfl hamount
    refine ⟨?_, frames_nonneg hfps hamount⟩
    rw [frame_text, if_neg (not_lt.mpr hamount)]
  negative t _ := by
    rintro rfl hamount
    rw [frame_text, if_pos hamount]
  refused h := frame_of_not_text fps fun t => h t trivial

/-- Time values are read as they are written, at the nearest frame, the upper one for a half. That
those with a line break were refused holds of the texts that are none of them. -/
theorem text_reads {fps : Number Rat} (hfps : 0 < fps.value) (s : String) :
    Reads (fun _ => True) fps s ∧
      (Reads (fun t => t.lineBreak = false) fps s ↔
        ∀ t : TimeText, t.text = s → t.lineBreak = false) ∧
      ∀ t t' : TimeText, t.text = s → t'.text = s → t.unit = t'.unit ∧
        t.number.chars = t'.number.chars ∧ t.lineBreak = t'.lineBreak := by
  have hall := reads_all hfps s
  refine ⟨hall, ⟨fun hread t ht => ?_, fun hnone => ?_⟩, fun t t' ht ht' =>
    TimeText.text_injective (ht.trans ht'.symm)⟩
  · by_contra hbreak
    have hother : ∀ t' : TimeText, t'.lineBreak = false → t'.text ≠ s := by
      rintro t' hline rfl
      exact hbreak ((TimeText.text_injective ht).2.2.trans hline)
    obtain ⟨cause, hcause, hkind⟩ := hread.refused hother
    rcases le_or_gt 0 t.number.amount with hamount | hamount
    · rw [(hall.whole t trivial ht hamount).1] at hcause
      cases hcause
    · rw [hall.negative t trivial ht hamount] at hcause
      cases hcause
      rcases hkind with h | h <;> cases h
  · exact ⟨fun t _ => hall.whole t trivial, fun t _ => hall.negative t trivial,
      fun h => hall.refused fun t _ ht => h t (hnone t ht) ht⟩

/-- One second and a half. -/
def oneAndHalf : TimeText where
  number := ⟨false, ['1'], some ['5'], none, List.all_eq_true.mp (by decide),
    List.all_eq_true.mp (by decide), by decide⟩
  lineBreak := false
  unit := some .second

theorem oneAndHalf_reads : oneAndHalf.text = "1.5s" ∧
    frame (.int 30 : Number Rat) (.text "1.5s") = .ok 45 := by
  have hread := (@text_reads (.int 30) (by decide +kernel) "1.5s").1
  have hframes : ⌊oneAndHalf.frames 30 + 1 / 2⌋ = 45 := by decide +kernel
  exact ⟨by decide, hframes ▸ (hread.whole oneAndHalf trivial (by decide) (by decide +kernel)).1⟩

/-- Thirty frames, with a line break behind the number. -/
def brokenThirty : TimeText where
  number := ⟨false, ['3', '0'], none, none, List.all_eq_true.mp (by decide),
    List.all_eq_true.mp (by decide), by decide⟩
  lineBreak := true
  unit := none

/-- A line break behind the number is not refused. -/
theorem brokenThirty_read : frame (.int 30 : Number Rat) (.text "30\n") = .ok 30 ∧
    ¬ Reads (fun t => t.lineBreak = false) (.int 30) "30\n" := by
  have htext : brokenThirty.text = "30\n" := by decide
  have hframe : frame (.int 30 : Number Rat) (.text "30\n") = .ok 30 := by decide +kernel
  refine ⟨hframe, fun hread => ?_⟩
  have hother : ∀ t : TimeText, t.lineBreak = false → t.text ≠ "30\n" := by
    intro t hline ht
    have hbreak := (TimeText.text_injective (ht.trans htext.symm)).2.2
    rw [hline] at hbreak
    cases hbreak
  obtain ⟨cause, hcause, -⟩ := hread.refused hother
  rw [hframe] at hcause
  cases hcause

end Storyboard.Time
