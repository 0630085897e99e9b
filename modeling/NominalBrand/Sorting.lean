-- Arranging values by a total order in which different values may be level.
-- Every function says which of the level values it keeps, or puts first.

namespace NominalBrand.Sorting

variable {α : Type}

def inOrder (cmp : α → α → Ordering) (a b : α) : Bool := cmp a b != .gt

section
variable {cmp : α → α → Ordering}

theorem inOrder_iff (a b : α) : inOrder cmp a b = true ↔ cmp a b ≠ .gt := by
  unfold inOrder
  exact bne_iff_ne

variable [Std.TransCmp cmp]

theorem eq_of_not_gt {a b : α} (hab : cmp a b ≠ .gt) (hba : cmp b a ≠ .gt) : cmp a b = .eq := by
  rcases h : cmp a b with _ | _ | _
  · exact absurd (Std.OrientedCmp.gt_iff_lt.mpr h) hba
  · rfl
  · exact absurd h hab

theorem not_gt_trans {a b c : α} (hab : cmp a b ≠ .gt) (hbc : cmp b c ≠ .gt) : cmp a c ≠ .gt := by
  have hac := Std.TransCmp.isLE_trans (Ordering.isLE_iff_ne_gt.mpr hab)
    (Ordering.isLE_iff_ne_gt.mpr hbc)
  exact Ordering.isLE_iff_ne_gt.mp hac

theorem inOrder_trans (a b c : α) (hab : inOrder cmp a b = true) (hbc : inOrder cmp b c = true) :
    inOrder cmp a c = true := by
  rw [inOrder_iff] at *
  exact not_gt_trans hab hbc

theorem inOrder_total (a b : α) : (inOrder cmp a b || inOrder cmp b a) = true := by
  rw [Bool.or_eq_true, inOrder_iff, inOrder_iff]
  by_cases hab : cmp a b = .gt
  · right
    rw [Std.OrientedCmp.gt_iff_lt.mp hab]
    simp
  · exact Or.inl hab

end

def isSorted (cmp : α → α → Ordering) : List α → Bool
  | [] => true
  | [_] => true
  | a :: b :: rest => inOrder cmp a b && isSorted cmp (b :: rest)

/-- The values in order; level values keep the order in which they were given. -/
def sort (cmp : α → α → Ordering) (values : List α) : List α := values.mergeSort (inOrder cmp)

def sortDown (cmp : α → α → Ordering) (values : List α) : List α :=
  sort (fun a b => cmp b a) (sort cmp values)

def dropLevel (cmp : α → α → Ordering) (last : α) : List α → List α
  | [] => []
  | a :: rest =>
    if cmp a last = .eq then dropLevel cmp last rest else a :: dropLevel cmp a rest

def firstOfRuns (cmp : α → α → Ordering) : List α → List α
  | [] => []
  | a :: rest => a :: dropLevel cmp a rest

/-- Puts a value at its place in an ordered set, unless a level one is there already. -/
def insert (cmp : α → α → Ordering) (a : α) : List α → List α
  | [] => [a]
  | b :: rest => match cmp a b with
    | .lt => a :: b :: rest
    | .eq => b :: rest
    | .gt => b :: insert cmp a rest

def set (cmp : α → α → Ordering) (values : List α) : List α :=
  values.foldl (fun s a => insert cmp a s) []

/-- The later of two values; the second when they are level. -/
def later (cmp : α → α → Ordering) (a b : α) : α := if cmp a b = .gt then a else b

/-- The earlier of two values; the first when they are level. -/
def earlier (cmp : α → α → Ordering) (a b : α) : α := if cmp a b = .gt then b else a

/-- The last of all values; of level ones the one given last. -/
def last? (cmp : α → α → Ordering) : List α → Option α
  | [] => none
  | a :: rest => some (rest.foldl (later cmp) a)

/-- The first of all values; of level ones the one given first. -/
def first? (cmp : α → α → Ordering) : List α → Option α
  | [] => none
  | a :: rest => some (rest.foldl (earlier cmp) a)

/-- Where values that have a property at the front of a list come to their end. -/
def partitionPoint (p : α → Bool) (values : List α) : Nat := (values.takeWhile p).length

def found (cmp : α → α → Ordering) (needle : α) (sorted : List α) : Nat × Nat :=
  (partitionPoint (fun a => cmp a needle == .lt) sorted,
    partitionPoint (fun a => inOrder cmp a needle) sorted)

end NominalBrand.Sorting
