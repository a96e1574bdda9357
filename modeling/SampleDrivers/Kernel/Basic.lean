import Mathlib.Algebra.Group.Int.Defs
import Mathlib.Algebra.Group.Nat.Defs
import Mathlib.Data.Int.Basic
import Mathlib.Data.Nat.Basic

/-!
# Error numbers, kernel pointers and page arithmetic

What every driver in the repository shares: the error numbers it returns negated, pointers that
may be `NULL` or carry an error number (`ERR_PTR`), and the page size.
-/

set_option autoImplicit false

namespace Kernel

/-- No such device or address for the file descriptor (`-EBADF`). -/
def EBADF : ℤ := 9
/-- Out of memory. -/
def ENOMEM : ℤ := 12
/-- Bad user address. -/
def EFAULT : ℤ := 14
/-- Already present. -/
def EBUSY : ℤ := 16
/-- Invalid argument. -/
def EINVAL : ℤ := 22
/-- The file descriptor table is full. -/
def EMFILE : ℤ := 24

/-- A kernel pointer: `NULL`, an error number encoded by `ERR_PTR(-e)`, or an object. -/
inductive Ptr (α : Type)
  | null
  | err (e : ℤ)
  | obj (a : α)
  deriving DecidableEq, Repr

namespace Ptr

variable {α : Type}

/-- The test `IS_ERR(p)`. -/
def isErr : Ptr α → Bool
  | .err _ => true
  | _ => false

/-- The test `!p`. -/
def isNull : Ptr α → Bool
  | .null => true
  | _ => false

@[simp] theorem isErr_obj (a : α) : (obj a).isErr = false := rfl
@[simp] theorem isErr_err (e : ℤ) : (err e : Ptr α).isErr = true := rfl
@[simp] theorem isErr_null : (null : Ptr α).isErr = false := rfl
@[simp] theorem isNull_obj (a : α) : (obj a).isNull = false := rfl
@[simp] theorem isNull_err (e : ℤ) : (err e : Ptr α).isNull = false := rfl
@[simp] theorem isNull_null : (null : Ptr α).isNull = true := rfl

end Ptr

/-- `PAGE_SIZE`. -/
def pageSize : ℕ := 4096

theorem pageSize_pos : 0 < pageSize := by decide

end Kernel
