namespace Storyboard.Text

/-- Whether a UTF-16 unit is the first half of a character. -/
def isHighUnit (n : Nat) : Bool := 0xd800 ≤ n && n < 0xdc00

/-- Whether a UTF-16 unit is the second half of a character. -/
def isLowUnit (n : Nat) : Bool := 0xdc00 ≤ n && n < 0xe000

def isHalf (n : Nat) : Bool := isHighUnit n || isLowUnit n

/-- The code point of two halves. -/
def joined (high low : Nat) : Nat := 0x10000 + (high - 0xd800) * 0x400 + (low - 0xdc00)

/-- The character in front of one that is kept for another code point. -/
def mark : Char := Char.ofNat 0x10ffff

/-- How far the character for a half is from its unit. -/
def halfOffset : Nat := 0x100000

/-- The characters that keep a code point. -/
def ofPoint (n : Nat) : List Char :=
  if isHalf n then [mark, Char.ofNat (halfOffset + n)]
  else if n == mark.toNat then [mark, mark]
  else [Char.ofNat n]

/-- The code point that a character after a mark is kept for. -/
def markedPoint (c : Char) : Nat := if c == mark then c.toNat else c.toNat - halfOffset

/-- The code points that characters are kept for. -/
def points : List Char → List Nat
  | [] => []
  | c :: rest =>
    if c == mark then
      match rest with
      | [] => []
      | d :: rest => markedPoint d :: points rest
    else c.toNat :: points rest

def ofPoints (ns : List Nat) : String := String.ofList (ns.flatMap ofPoint)

def pointsOf (s : String) : List Nat := points s.toList

def length (s : String) : Nat := (pointsOf s).length

/-- Whether a text holds half of a character alone. -/
def hasHalf (s : String) : Bool := (pointsOf s).any isHalf

/-- Whether a text comes before another one by their code points. -/
def before (s t : String) : Bool := decide (pointsOf s < pointsOf t)

/-- The text with three replacement characters, one for each byte, for every half. -/
def withoutHalves (s : String) : String :=
  ofPoints ((pointsOf s).flatMap fun n => if isHalf n then [0xfffd, 0xfffd, 0xfffd] else [n])

/-- The text as its characters alone, if it holds no half. -/
def plain? (s : String) : Option String :=
  if hasHalf s then none else some (String.ofList ((pointsOf s).map Char.ofNat))

/-- The text of characters that are kept for themselves. -/
def ofPlain (s : String) : String := ofPoints (s.toList.map Char.toNat)

/-- Whether a number is a code point. -/
def IsPoint (n : Nat) : Prop := n.isValidChar ∨ isHalf n = true

private theorem toNat_ofNat {n : Nat} (h : n.isValidChar) : (Char.ofNat n).toNat = n := by
  rw [Char.ofNat, dif_pos h]
  rfl

theorem points_ofPoint_append {n : Nat} (h : IsPoint n) (cs : List Char) :
    points (ofPoint n ++ cs) = n :: points cs := by
  unfold ofPoint
  by_cases hh : isHalf n = true
  · have hn : 0xd800 ≤ n ∧ n < 0xe000 := by
      simp [isHalf, isHighUnit, isLowUnit] at hh
      omega
    have hc : (Char.ofNat (halfOffset + n)).toNat = halfOffset + n :=
      toNat_ofNat (Or.inr (by unfold halfOffset; omega))
    have hm : Char.ofNat (halfOffset + n) ≠ mark := by
      intro e
      have hv : mark.toNat = 0x10ffff := rfl
      rw [e, hv] at hc
      unfold halfOffset at hc
      omega
    simp [hh, points, markedPoint, hm, hc]
  · have hv : n.isValidChar := h.resolve_right hh
    by_cases hm : n = mark.toNat
    · subst hm
      simp [hh, points, markedPoint]
    · have hne : Char.ofNat n ≠ mark := fun e => hm (by rw [← e, toNat_ofNat hv])
      simp only [hh, hm, Bool.false_eq_true, ↓reduceIte, beq_iff_eq, List.cons_append,
        List.nil_append]
      rw [points.eq_def]
      simp [hne, toNat_ofNat hv]

/-- The characters of code points are kept for these code points and no others. -/
theorem points_flatMap_ofPoint {ns : List Nat} (h : ∀ n ∈ ns, IsPoint n) :
    points (ns.flatMap ofPoint) = ns := by
  induction ns with
  | nil => rfl
  | cons n ns ih =>
    rw [List.flatMap_cons, points_ofPoint_append (h n List.mem_cons_self),
      ih fun m hm => h m (List.mem_cons_of_mem n hm)]

theorem pointsOf_ofPoints {ns : List Nat} (h : ∀ n ∈ ns, IsPoint n) :
    pointsOf (ofPoints ns) = ns := by
  simp [pointsOf, ofPoints, points_flatMap_ofPoint h]

end Storyboard.Text
