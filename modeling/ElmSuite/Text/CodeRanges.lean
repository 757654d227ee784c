/-!
Sets of code points, given as ascending disjoint ranges.  Membership stops at the first range that
ends at or after the code point.
-/

namespace ElmSuite.Text

/-- The first code point of the range that holds `code`, in an ascending list of ranges. -/
def coveringStart? : List (Nat × Nat) → Nat → Option Nat
  | [], _ => none
  | (first, last) :: rest, code =>
      if code < first then none
      else if code ≤ last then some first
      else coveringStart? rest code

/-- Whether some range of an ascending list holds `code`. -/
def covers (ranges : List (Nat × Nat)) (code : Nat) : Bool :=
  (coveringStart? ranges code).isSome

end ElmSuite.Text
