import GrillPlatform.Float.Binary64

/-! Integers as floats. Up to 53 bits they are exact, so they stay different. -/

namespace Binary64

def ofInt (n : Int) : BitVec 64 := ofMagnitude (n < 0) (nearest n.natAbs)

end Binary64
