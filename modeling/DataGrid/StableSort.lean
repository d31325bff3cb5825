import DataGrid.Number.Rounding

/-!
# The stable sort

How a list is put in the order of a comparison. Up to twenty elements are inserted one after the
other. A longer list is cut into runs: stretches that are in order as they stand, stretches of up to
thirty-two elements that are sorted at once and, in a list of more than sixty-four, stretches that
wait. Runs are merged in pairs, those of about one size with each other; two that wait are joined,
and sorted by pivots when they meet one that is in order.

Under a comparison that is a total preorder the result is the one stable arrangement. Under another
the elements are still those of the list, if there is a result: merging two halves from both ends
may find that an element has been taken twice, and then there is none.
-/

namespace DataGrid.StableSort

open Number

variable {α : Type} (cmp : α → α → Ordering)

/-! ## Insertion -/

/-- A reversed list with an element put where it belongs, behind all that tie with it. -/
def insertBack (x : α) : List α → List α
  | [] => [x]
  | y :: ys => if cmp x y = .lt then y :: insertBack x ys else x :: y :: ys

/-- A list with more elements inserted one after the other. -/
def insertAll (start xs : List α) : List α :=
  (xs.foldl (fun reversed x => insertBack cmp x reversed) start.reverse).reverse

/-! ## Merging -/

/-- Two lists merged; the first one's elements stand before those that tie with them. -/
def mergeUp (as bs : List α) : List α := as.merge bs fun a b => cmp b a != .lt

/-- Two runs merged, from the end of the shorter one. -/
def merge (as bs : List α) : List α :=
  if as.length ≤ bs.length then mergeUp cmp as bs
  else (mergeUp (fun a b => cmp b a) bs.reverse as.reverse).reverse

/-- The first `n` elements of two lists merged, and what is left of either; fewer if one of them
is used up. -/
def mergeFront : (n : Nat) → (as bs : List α) → List α × List α × List α
  | n + 1, a :: as, b :: bs =>
    if cmp b a = .lt then
      let (front, left) := mergeFront n (a :: as) bs
      (b :: front, left)
    else
      let (front, left) := mergeFront n as (b :: bs)
      (a :: front, left)
  | _, as, bs => ([], as, bs)

/-- Two lists merged from both ends at once. There is no result if the ends overlap. -/
def mergeHalves (as bs : List α) : Option (List α) :=
  let n := (as.length + bs.length) / 2
  let (front, as₁, bs₁) := mergeFront cmp n as bs
  let (back, bs₂, as₂) := mergeFront (fun a b => cmp b a) n bs.reverse as.reverse
  if as.length ≤ as₁.length + as₂.length ∧ bs.length ≤ bs₁.length + bs₂.length then
    some (front ++ as₁.take (as₁.length + as₂.length - as.length) ++
      bs₁.take (bs₁.length + bs₂.length - bs.length) ++ back.reverse)
  else none

/-! ## Short lists -/

/-- The most elements that are sorted at once. -/
def shortLength : Nat := 32

/-- Two elements in order. -/
def sortTwo (a b : α) : α × α := if cmp b a = .lt then (b, a) else (a, b)

/-- Four elements in order, of which the least and the greatest are known. -/
def sortMiddle (least left right greatest : α) : List α :=
  let (left, right) := sortTwo cmp left right
  [least, left, right, greatest]

/-- Two pairs that are in order as one list. -/
def mergePairs (a b c d : α) : List α :=
  -- The element between the others that stood on the left stays there, in case the two tie.
  if cmp c a = .lt then
    if cmp d b = .lt then sortMiddle cmp c a d b else sortMiddle cmp c a b d
  else if cmp d b = .lt then sortMiddle cmp a c d b
  else sortMiddle cmp a b c d

/-- Four elements in order, with five comparisons. -/
def sortFour : List α → List α
  | [a, b, c, d] =>
    let (a, b) := sortTwo cmp a b
    let (c, d) := sortTwo cmp c d
    mergePairs cmp a b c d
  | xs => insertAll cmp [] xs

/-- One half of a short list of `n` elements in order. -/
def sortHalf (n : Nat) (xs : List α) : Option (List α) :=
  if 16 ≤ n then
    (mergeHalves cmp (sortFour cmp (xs.take 4)) (sortFour cmp ((xs.drop 4).take 4))).map
      fun start => insertAll cmp start (xs.drop 8)
  else if 8 ≤ n then some (insertAll cmp (sortFour cmp (xs.take 4)) (xs.drop 4))
  else some (insertAll cmp [] xs)

/-- A short list in order. -/
def sortShort (xs : List α) : Option (List α) := do
  let n := xs.length
  mergeHalves cmp (← sortHalf cmp n (xs.take (n / 2))) (← sortHalf cmp n (xs.drop (n / 2)))

/-! ## Runs -/

/-- A stretch of a list. One that is not in order stands as it stood in the list. -/
structure Run (α : Type) where
  items : List α
  ordered : Bool

/-- The elements of a run in order; `sort` is for a run that waits. -/
def Run.settle (sort : List α → Option (List α)) (run : Run α) : Option (List α) :=
  if run.ordered then some run.items else sort run.items

/-- The elements behind `a` that go on as `goesOn` says, and what follows them. -/
def chain (goesOn : α → α → Bool) : (a : α) → List α → List α × List α
  | _, [] => ([], [])
  | a, b :: bs =>
    if goesOn a b then
      let (taken, rest) := chain goesOn b bs
      (b :: taken, rest)
    else ([], b :: bs)

/-- The longest run at the head of a list, a falling one turned round, and what follows it. -/
def leadingRun : List α → List α × List α
  | a :: b :: rest =>
    if cmp b a = .lt then
      let (taken, rest) := chain (fun x y => cmp y x == .lt) a (b :: rest)
      ((a :: taken).reverse, rest)
    else
      let (taken, rest) := chain (fun x y => cmp y x != .lt) a (b :: rest)
      (a :: taken, rest)
  | xs => (xs, [])

/-- The next run of a list: the one at its head if it has `good` elements, or else a stretch that
is sorted at once, if the sort is `eager`, or waits. -/
def takeRun (good : Nat) (eager : Bool) (xs : List α) : Option (Run α × List α) :=
  let (run, rest) := leadingRun cmp xs
  if good ≤ run.length then some (⟨run, true⟩, rest)
  else if eager then
    (sortShort cmp (xs.take shortLength)).map fun run => (⟨run, true⟩, xs.drop shortLength)
  else some (⟨xs.take good, false⟩, xs.drop good)

/-- The runs of a list. Each takes an element at least, so `fuel` is its length. -/
def runs (good : Nat) (eager : Bool) : (fuel : Nat) → List α → Option (List (Run α))
  | _, [] => some []
  | 0, _ :: _ => none
  | fuel + 1, x :: xs => do
    let (run, rest) ← takeRun cmp good eager (x :: xs)
    return run :: (← runs good eager fuel rest)

/-! ## Merging runs -/

/-- Two runs as one. They are joined as long as both wait and not more than `room` elements come
together. -/
def mergeRuns (sort : List α → Option (List α)) (room : Nat) (left right : Run α) :
    Option (Run α) :=
  if left.ordered || right.ordered || room < left.items.length + right.items.length then do
    return ⟨merge cmp (← left.settle sort) (← right.settle sort), true⟩
  else some ⟨left.items ++ right.items, false⟩

/-- A run merged with those before it, the last one first, that lie at least `depth` deep in the
tree of merges. -/
def collapse (sort : List α → Option (List α)) (room depth : Nat) :
    List (Run α × Nat) → Run α → Option (List (Run α × Nat) × Run α)
  | [], run => some ([], run)
  | (left, d) :: before, run =>
    if depth ≤ d then do
      collapse sort room depth before (← mergeRuns cmp sort room left run)
    else some ((left, d) :: before, run)

/-- How deep in the tree of merges two neighbouring runs meet: the binary digits, as fractions of
the whole, that their middles have in common. -/
def mergeDepth (scale left middle right : Nat) : Nat :=
  64 - binarySize ((scale * (left + middle)) ^^^ (scale * (middle + right)))

/-- All runs as one. `stop` is where `run` ends. -/
def mergeAll (sort : List α → Option (List α)) (room scale : Nat) :
    (stop : Nat) → List (Run α × Nat) → (run : Run α) → List (Run α) → Option (Run α)
  | _, before, run, [] => (collapse cmp sort room 0 before run).map (·.2)
  | stop, before, run, next :: rest => do
    let stop' := stop + next.items.length
    let depth := mergeDepth scale (stop - run.items.length) stop stop'
    let (before, merged) ← collapse cmp sort room depth before run
    mergeAll sort room scale stop' ((merged, depth) :: before) next rest

/-- A number near the square root. -/
def nearRoot (n : Nat) : Nat :=
  let shift := (n.log2 + 1) / 2
  (twoTo shift + n / twoTo shift) / 2

/-- From how many elements on a run is good as it stands in a list of `n`. -/
def goodLength (n : Nat) : Nat := if n ≤ 4096 then min (n - n / 2) 64 else nearRoot n

/-- A list in order by its runs; `sort` is for runs that wait. -/
def sortRuns (sort : List α → Option (List α)) (eager : Bool) (xs : List α) :
    Option (List α) := do
  let n := xs.length
  match ← runs cmp (goodLength n) eager n xs with
  | [] => return []
  | first :: rest =>
    let room := max (n - n / 2) (min n 1000000)
    let scale := (twoTo 62 + n - 1) / n
    let run ← mergeAll cmp sort room scale first.items.length [] first rest
    run.settle sort

/-! ## Pivots -/

/-- The one of three elements that stands between the others. -/
def median (a b c : α) : α :=
  if (cmp a b == .lt) = (cmp a c == .lt) then
    if (cmp b c == .lt) = (cmp a b == .lt) then b else c
  else a

/-- A median of elements from `n` places on from the place `i`. -/
def probe (item : Nat → α) (n i : Nat) : α :=
  if 8 ≤ n then
    let m := n / 8
    median cmp (probe item m i) (probe item m (i + 4 * m)) (probe item m (i + 7 * m))
  else item i

/-- The element by which a list is parted. -/
def pivot? (xs : List α) : Option α :=
  xs.head?.map fun first => probe cmp (fun i => xs.getD i first) xs.length 0

/-- A list in order by pivots, parted at most `limit` times in a row before `fallback` takes over.
No element comes before `floor`, the pivot to the left of the list. -/
def sortByPivots (fallback : List α → Option (List α)) :
    (limit : Nat) → (floor : Option α) → List α → Option (List α)
  | 0, _, xs => if xs.length ≤ shortLength then sortShort cmp xs else fallback xs
  | limit + 1, floor, xs =>
    if xs.length ≤ shortLength then sortShort cmp xs
    else do
      let pivot ← pivot? cmp xs
      let below := xs.filter (cmp · pivot == .lt)
      -- A pivot that ties with the floor, or one without elements below it, is a least element.
      if floor.any (cmp · pivot != .lt) || below.isEmpty then
        let above ← sortByPivots fallback limit none (xs.filter (cmp pivot · == .lt))
        return xs.filter (cmp pivot · != .lt) ++ above
      else
        let above ← sortByPivots fallback limit (some pivot) (xs.filter (cmp · pivot != .lt))
        let below ← sortByPivots fallback limit floor below
        return below ++ above

/-! ## All lists -/

/-- The sort of a list that is not parted any more: no run of it waits. -/
def sortEagerly : List α → Option (List α) := sortRuns cmp some true

/-- A stretch of a long list in order. -/
def sortStretch (xs : List α) : Option (List α) :=
  sortByPivots cmp (sortEagerly cmp) (2 * xs.length.log2) none xs

/-- A list in the order of a comparison, if the sort has a result. -/
def stableSort (xs : List α) : Option (List α) :=
  if xs.length ≤ 20 then some (insertAll cmp [] xs)
  else sortRuns cmp (sortStretch cmp) (xs.length ≤ 2 * shortLength) xs

end DataGrid.StableSort
