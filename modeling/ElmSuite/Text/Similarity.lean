/-!
How alike two texts are: the longest common block is matched, then what is on its left and on its
right, and the matched characters are counted.
-/

namespace ElmSuite.Text

/-- The length of the common start of two texts. -/
def commonStart : List Char → List Char → Nat
  | x :: xs, y :: ys => if x = y then commonStart xs ys + 1 else 0
  | _, _ => 0

/-- A common block of two texts: where it starts in each, and its length. -/
structure Block where
  left : Nat
  right : Nat
  length : Nat
deriving DecidableEq, Repr

/-- The longer of two blocks, the first one if they are equally long. -/
def Block.longer (a b : Block) : Block :=
  if a.length < b.length then b else a

/-- The longest common block of two texts, of several the one that starts first. -/
def longestBlock (xs ys : List Char) : Block :=
  let starts := (List.range xs.length).flatMap fun i => (List.range ys.length).map fun j => (i, j)
  starts.foldl
    (fun best start =>
      best.longer ⟨start.1, start.2, commonStart (xs.drop start.1) (ys.drop start.2)⟩)
    ⟨0, 0, 0⟩

/-- The number of matched characters of two texts; every block takes at least one of them. -/
def matchedUpTo : Nat → List Char → List Char → Nat
  | 0, _, _ => 0
  | fuel + 1, xs, ys =>
      let block := longestBlock xs ys
      if block.length = 0 then 0
      else
        block.length + matchedUpTo fuel (xs.take block.left) (ys.take block.right) +
          matchedUpTo fuel (xs.drop (block.left + block.length))
            (ys.drop (block.right + block.length))

/-- The number of matched characters of two texts. -/
def matchedCount (xs ys : List Char) : Nat :=
  matchedUpTo xs.length xs ys

/-- Whether two texts are close: at least three fifths of their characters are matched. -/
def isClose (xs ys : List Char) : Bool :=
  3 * (xs.length + ys.length) ≤ 10 * matchedCount xs ys

/-- The candidates that are closest to a text, at most three of them. -/
def closest (text : String) (candidates : List String) : List String :=
  let close := candidates.filter fun candidate => isClose candidate.toList text.toList
  let better (a b : String) : Bool :=
    let left := matchedCount a.toList text.toList * (b.length + text.length)
    let right := matchedCount b.toList text.toList * (a.length + text.length)
    if left = right then b ≤ a else right ≤ left
  (close.mergeSort better).take 3

end ElmSuite.Text
