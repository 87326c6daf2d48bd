/-!
# Character classes as ranges

A class of characters is written as a list of inclusive ranges of code points. The tables of the
classes stand in modules of their own, named for the property that they list.
-/

namespace BoxScript.Text

/-- Whether one of the inclusive ranges holds the code point of `c`. -/
def covers (ranges : List (Nat × Nat)) (c : Char) : Bool :=
  ranges.any fun r => r.1 ≤ c.toNat && c.toNat ≤ r.2

end BoxScript.Text
