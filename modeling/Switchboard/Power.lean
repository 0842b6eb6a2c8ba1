/-!
# Powers

Powers of numbers are those of the core library, whatever else is imported, so
that a definition means the same wherever it is read.
-/

namespace Switchboard

/-- Powers of natural numbers. -/
@[default_instance 20000]
instance (priority := high) natPow : Pow Nat Nat := instPowNat

/-- Powers of integers. -/
@[default_instance 20000]
instance (priority := high) intPow : Pow Int Nat := instPowNat

end Switchboard
