/-!
Sets of characters, written as the ascending list of code points at which membership changes: the
first bound is the first member, the second the first character after that run, and so on.
-/

namespace Statechart

structure CharSet where
  bounds : List Nat
  deriving DecidableEq, Repr

namespace CharSet

/-- Whether an odd number of the ascending bounds is at or below `n`. -/
def inside (n : Nat) : List Nat → Bool
  | [] => false
  | b :: bs => if n < b then false else !inside n bs

def has (s : CharSet) (c : Char) : Bool :=
  inside c.toNat s.bounds

theorem inside_of_lt {n b : Nat} (bs : List Nat) (h : n < b) : inside n (b :: bs) = false := by
  simp [inside, h]

theorem inside_of_le {n b : Nat} (bs : List Nat) (h : b ≤ n) :
    inside n (b :: bs) = !inside n bs := by
  simp [inside, Nat.not_lt.2 h]

end CharSet

end Statechart
