namespace Storyboard.Order

variable {α : Type}

/-- The first place between two places that is not `behind`, found by halving. -/
def halve (behind : Nat → Bool) : Nat → Nat → Nat → Nat
  | 0, low, _ => low
  | fuel + 1, low, high =>
    if high ≤ low then low
    else
      let middle := (low + high) / 2
      if behind middle then halve behind fuel (middle + 1) high else halve behind fuel low middle

/-- Steps of 1, 3, 7, … as long as they are below a limit and `goesOn` holds of them: the last one
that was taken, and the one that was not. -/
def stride (goesOn : Nat → Bool) (limit : Nat) : Nat → Nat → Nat → Nat × Nat
  | 0, last, next => (last, min next limit)
  | fuel + 1, last, next =>
    if next < limit && goesOn next then stride goesOn limit fuel next (2 * next + 1)
    else (last, min next limit)

/-- The first of `n` places that is not `behind`, found by growing steps away from a first guess and
halving in the end. -/
def gallop (behind : Nat → Bool) (n guess : Nat) : Nat :=
  if behind guess then
    let (last, next) := stride (fun k => behind (guess + k)) (n - guess) n 0 1
    halve behind (n + 1) (guess + last + 1) (guess + next)
  else
    let (last, next) := stride (fun k => !behind (guess - k)) (guess + 1) n 0 1
    halve behind (n + 1) (guess + 1 - next) (guess - last)

/-- The longest beginning in which `follows` holds of each element and the one after it, and the
rest. -/
def leadingRun (follows : α → α → Bool) : List α → List α × List α
  | [] => ([], [])
  | [x] => ([x], [])
  | x :: y :: rest =>
    if follows x y then
      let r := leadingRun follows (y :: rest)
      (x :: r.1, r.2)
    else ([x], y :: rest)

/-- The first run of a list and the rest: a beginning that ascends, or one that descends strictly
and is turned round. -/
def firstRun (lt : α → α → Bool) (xs : List α) : List α × List α :=
  match xs with
  | x :: y :: _ =>
    if lt y x then
      let r := leadingRun (fun a b => lt b a) xs
      (r.1.reverse, r.2)
    else leadingRun (fun a b => !lt b a) xs
  | _ => (xs, [])

/-- Puts an element into a run, behind every middle that it is not below. -/
def insertByHalving (lt : α → α → Bool) (run : Array α) (x : α) : Array α :=
  let n := halve (fun i => (run[i]?).any fun y => !lt x y) (run.size + 1) 0 run.size
  run.extract 0 n ++ #[x] ++ run.extract n run.size

/-- How long a run has to be in a list of a length: the leading six bits of the length, rounded
up. -/
def leastRun : Nat → Nat → Bool → Nat
  | 0, n, odd => if odd then n + 1 else n
  | fuel + 1, n, odd =>
    if n < 64 then (if odd then n + 1 else n) else leastRun fuel (n / 2) (odd || n % 2 == 1)

/-- How a merge goes on: by comparing heads, each side having won so often in a row, or by looking
for the ends of stretches. -/
inductive Pace where
  | heads (left right : Nat)
  | stretches

/-- The length of a stretch that makes looking for stretches worth while. -/
def longStretch : Nat := 7

/-- Merges two runs from the front. `i` and `j` are the places that were reached in them, and
`patience` is how often a side has to win before stretches are looked for. -/
def mergeFront (lt : α → α → Bool) (a b : Array α) :
    Nat → Pace → Nat → Nat → Nat → Array α → Array α × Nat
  | 0, _, patience, i, j, out =>
    (out ++ a.extract i a.size ++ b.extract j b.size, patience)
  | fuel + 1, pace, patience, i, j, out =>
    let finish (i j : Nat) (out : Array α) (patience : Nat) : Array α × Nat :=
      if a.size - i == 1 then (out ++ b.extract j b.size ++ a.extract i a.size, patience)
      else (out ++ a.extract i a.size ++ b.extract j b.size, patience)
    match a[i]?, b[j]? with
    | some x, some y =>
      match pace with
      | .heads left right =>
        if lt y x then
          let out := out.push y
          if b.size ≤ j + 1 then (out ++ a.extract i a.size, patience)
          else if patience ≤ right + 1 then
            mergeFront lt a b fuel .stretches (patience + 1) i (j + 1) out
          else mergeFront lt a b fuel (.heads 0 (right + 1)) patience i (j + 1) out
        else
          let out := out.push x
          if a.size - (i + 1) == 1 then finish (i + 1) j out patience
          else if patience ≤ left + 1 then
            mergeFront lt a b fuel .stretches (patience + 1) (i + 1) j out
          else mergeFront lt a b fuel (.heads (left + 1) 0) patience (i + 1) j out
      | .stretches =>
        let patience := if 1 < patience then patience - 1 else patience
        let k := gallop (fun n => (a[i + n]?).any fun z => !lt y z) (a.size - i) 0
        let out := out ++ a.extract i (i + k)
        let i := i + k
        if k != 0 && a.size - i ≤ 1 then finish i j out patience
        else
          let out := out.push y
          let j := j + 1
          if b.size ≤ j then (out ++ a.extract i a.size, patience)
          else
            match a[i]? with
            | none => (out ++ b.extract j b.size, patience)
            | some x =>
              let l := gallop (fun n => (b[j + n]?).any fun z => lt z x) (b.size - j) 0
              let out := out ++ b.extract j (j + l)
              let j := j + l
              if b.size ≤ j then (out ++ a.extract i a.size, patience)
              else
                let out := out.push x
                let i := i + 1
                if a.size - i == 1 then finish i j out patience
                else if longStretch ≤ k || longStretch ≤ l then
                  mergeFront lt a b fuel .stretches patience i j out
                else mergeFront lt a b fuel (.heads 0 0) (patience + 1) i j out
    | _, _ => (out ++ a.extract i a.size ++ b.extract j b.size, patience)

/-- Merges two runs from the back. `i` and `j` are how much of them is left. -/
def mergeBack (lt : α → α → Bool) (a b : Array α) :
    Nat → Pace → Nat → Nat → Nat → Array α → Array α × Nat
  | 0, _, patience, i, j, out => (a.extract 0 i ++ b.extract 0 j ++ out, patience)
  | fuel + 1, pace, patience, i, j, out =>
    let finish (i j : Nat) (out : Array α) (patience : Nat) : Array α × Nat :=
      if j == 1 then (b.extract 0 j ++ a.extract 0 i ++ out, patience)
      else (a.extract 0 i ++ b.extract 0 j ++ out, patience)
    match a[i - 1]?, b[j - 1]? with
    | some x, some y =>
      match pace with
      | .heads left right =>
        if lt y x then
          let out := #[x] ++ out
          if i - 1 == 0 then (b.extract 0 j ++ out, patience)
          else if patience ≤ left + 1 then
            mergeBack lt a b fuel .stretches (patience + 1) (i - 1) j out
          else mergeBack lt a b fuel (.heads (left + 1) 0) patience (i - 1) j out
        else
          let out := #[y] ++ out
          if j - 1 == 1 then finish i (j - 1) out patience
          else if patience ≤ right + 1 then
            mergeBack lt a b fuel .stretches (patience + 1) i (j - 1) out
          else mergeBack lt a b fuel (.heads 0 (right + 1)) patience i (j - 1) out
      | .stretches =>
        let patience := if 1 < patience then patience - 1 else patience
        let k := i - gallop (fun n => (a[n]?).any fun z => !lt y z) i (i - 1)
        let out := a.extract (i - k) i ++ out
        let i := i - k
        if i == 0 then (b.extract 0 j ++ out, patience)
        else
          let out := #[y] ++ out
          let j := j - 1
          if j == 1 then finish i j out patience
          else
            match a[i - 1]? with
            | none => (b.extract 0 j ++ out, patience)
            | some x =>
              let l := j - gallop (fun n => (b[n]?).any fun z => lt z x) j (j - 1)
              let out := b.extract (j - l) j ++ out
              let j := j - l
              if l != 0 && j ≤ 1 then finish i j out patience
              else
                let out := #[x] ++ out
                let i := i - 1
                if i == 0 then (b.extract 0 j ++ out, patience)
                else if longStretch ≤ k || longStretch ≤ l then
                  mergeBack lt a b fuel .stretches patience i j out
                else mergeBack lt a b fuel (.heads 0 0) (patience + 1) i j out
    | _, _ => (a.extract 0 i ++ b.extract 0 j ++ out, patience)

/-- Merges two neighbouring runs. What stays in front or at the end is left out of the merge, which
goes from the side of the shorter run. -/
def merge (lt : α → α → Bool) (patience : Nat) (a b : Array α) : Array α × Nat :=
  match b[0]?, a.back? with
  | some first, some last =>
    let stays := gallop (fun n => (a[n]?).any fun z => !lt first z) a.size 0
    let inner := a.extract stays a.size
    if inner.isEmpty then (a ++ b, patience)
    else
      let ends := gallop (fun n => (b[n]?).any fun z => lt z last) b.size (b.size - 1)
      let outer := b.extract 0 ends
      if outer.isEmpty then (a ++ b, patience)
      else
        let fuel := inner.size + outer.size
        let merged :=
          if inner.size ≤ outer.size then
            let out := outer.extract 0 1
            if outer.size == 1 then (out ++ inner, patience)
            else if inner.size == 1 then (outer ++ inner, patience)
            else mergeFront lt inner outer fuel (.heads 0 0) patience 0 1 out
          else
            let out := inner.extract (inner.size - 1) inner.size
            if outer.size == 1 then
              (outer ++ inner, patience)
            else mergeBack lt inner outer fuel (.heads 0 0) patience (inner.size - 1) outer.size out
        (a.extract 0 stays ++ merged.1 ++ b.extract ends b.size, merged.2)
  | _, _ => (a ++ b, patience)

/-- A run that waits to be merged: where it starts, its elements, and how deep the boundary behind
it lies in a balanced tree over the whole list. -/
structure Waiting (α : Type) where
  start : Nat
  items : Array α
  depth : Nat

/-- How deep the boundary between two neighbouring runs lies in a balanced tree over a list of
length `n`: the number of binary digits in which the middles of the runs agree, and one more. `a`
and `b` are twice the middles. -/
def boundaryDepth (n : Nat) : Nat → Nat → Nat → Nat
  | 0, _, _ => 1
  | fuel + 1, a, b =>
    if n ≤ a then boundaryDepth n fuel (2 * (a - n)) (2 * (b - n)) + 1
    else if n ≤ b then 1
    else boundaryDepth n fuel (2 * a) (2 * b) + 1

/-- Merges the last two waiting runs as long as the boundary between them lies deeper than another
one. -/
def settle (lt : α → α → Bool) (depth : Nat) :
    Nat → Nat → List (Waiting α) → List (Waiting α) × Nat
  | 0, patience, runs => (runs, patience)
  | fuel + 1, patience, runs =>
    match runs with
    | top :: below :: rest =>
      if depth < below.depth then
        let (items, patience) := merge lt patience below.items top.items
        settle lt depth fuel patience ({ below with items := items } :: rest)
      else (runs, patience)
    | _ => (runs, patience)

/-- Merges all waiting runs. Of three the middle one is merged with the shorter of its
neighbours. -/
def mergeAll (lt : α → α → Bool) : Nat → Nat → List (Waiting α) → Array α
  | 0, _, runs => (runs.reverse.map (·.items)).foldl (· ++ ·) #[]
  | fuel + 1, patience, runs =>
    match runs with
    | [] => #[]
    | [run] => run.items
    | top :: below :: third :: rest =>
      if third.items.size < top.items.size then
        let (items, patience) := merge lt patience third.items below.items
        mergeAll lt fuel patience (top :: { third with items := items } :: rest)
      else
        let (items, patience) := merge lt patience below.items top.items
        mergeAll lt fuel patience ({ below with items := items } :: third :: rest)
    | [top, below] => (merge lt patience below.items top.items).1

/-- Takes run after run of the rest of a list of length `n` and merges those that wait. -/
def sortRest (lt : α → α → Bool) (n least : Nat) :
    Nat → Nat → Nat → List (Waiting α) → List α → Array α
  | 0, patience, _, runs, _ => mergeAll lt (runs.length + 1) patience runs
  | fuel + 1, patience, start, runs, xs =>
    if xs.isEmpty then mergeAll lt (runs.length + 1) patience runs
    else
      let (found, rest) := firstRun lt xs
      let more := rest.take (least - found.length)
      let run := more.foldl (insertByHalving lt) found.toArray
      let (runs, patience) :=
        match runs with
        | [] => ([], patience)
        | top :: _ =>
          let a := 2 * top.start + top.items.size
          let depth := boundaryDepth n (2 * n + 1) a (a + top.items.size + run.size)
          match settle lt depth (runs.length + 1) patience runs with
          | (top :: others, patience) => ({ top with depth := depth } :: others, patience)
          | ([], patience) => ([], patience)
      sortRest lt n least fuel patience (start + run.size) (⟨start, run, 0⟩ :: runs)
        (rest.drop (least - found.length))

/-- The elements in the order in which sorting by runs leaves them. Where comparison is consistent
every stable sort gives the same order; where it is not, as with numbers among which some are not a
number, the order is that of this particular sort. -/
def byRuns (lt : α → α → Bool) (xs : List α) : List α :=
  let n := xs.length
  (sortRest lt n (leastRun n n false) (n + 1) longStretch 0 [] xs).toList

end Storyboard.Order
