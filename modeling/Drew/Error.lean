/-!
# Error codes

Those of `plugin.h` and `errno.h` that the functions return, negated.
-/

namespace Drew

def ENOMEM : Int := 12

def DREW_ERR_RESOLUTION : Int := 0x10001

def DREW_ERR_ENUMERATION : Int := 0x10002

def DREW_ERR_FUNCTION : Int := 0x10003

def DREW_ERR_NOT_IMPL : Int := 0x10005

def DREW_ERR_INVALID : Int := 0x10006

def DREW_ERR_MORE_INFO : Int := 0x10007

def DREW_ERR_NONEXISTENT : Int := 0x1000a

theorem neg_ENOMEM_lt : -ENOMEM < 0 := by decide

theorem neg_DREW_ERR_RESOLUTION_lt : -DREW_ERR_RESOLUTION < 0 := by decide

theorem neg_DREW_ERR_ENUMERATION_lt : -DREW_ERR_ENUMERATION < 0 := by decide

theorem neg_DREW_ERR_FUNCTION_lt : -DREW_ERR_FUNCTION < 0 := by decide

end Drew
