import Mathlib.Algebra.Ring.Nat

/-!
# Return codes

All modules of the firmware answer with the same return codes: `ok`, or one of the errors.
-/

namespace FtlFirmware

/-- The return codes (`ret_code_t`). -/
inductive RetCode
  | ok
  | errParam
  | errNoSpace
  | errBadBlock
  | errOverwrite
  | errNotMapped
  | errNotInit
  | errInternal
  | errChecksum
  | errTimeout
  | errBusy
  | errNotSupport
  | errDifCrc
  | errDifAppTag
  | errDifRefTag
  deriving DecidableEq, Repr

end FtlFirmware
