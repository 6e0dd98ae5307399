import ContractAbi.Decimal

/-!
# Limits and conventions

A `Config` holds what may differ between networks: how large descriptors may become, how decimals
are scaled, and whether padding has to be clean when values are read.
-/

namespace ContractAbi

/-- Limits and conventions of one network. -/
structure Config where
  /-- The length of the longest static array whose length is not stated explicitly. -/
  maxStaticLength : Nat := 1024
  /-- The largest number of containers around a leaf. -/
  maxDepth : Nat := 32
  scaling : Scaling := .decimal
  /-- Whether words with dirty padding are refused. -/
  strictPadding : Bool := true
deriving DecidableEq, Repr

/-- The limits and conventions that hold where nothing else is said. -/
def Config.standard : Config := {}

end ContractAbi
