/-!
# Error codes

The codes of `core/error.h` that the functions of the library return.
-/

namespace CTemplate

/-- The enumeration `ErrorCode` of `core/error.h`. -/
inductive ErrorCode where
  /-- `ERR_OK` -/
  | ok
  /-- `ERR_NOMEM` -/
  | nomem
  /-- `ERR_IO` -/
  | io
  /-- `ERR_INVALID_ARG` -/
  | invalidArg
  /-- `ERR_OVERFLOW` -/
  | overflow
  /-- `ERR_NOT_FOUND` -/
  | notFound
  /-- `ERR_UNSUPPORTED` -/
  | unsupported
  deriving DecidableEq, Repr

end CTemplate
