-- SUMMARY: Errors of the program (`error.rs`), the system errors they are made from, and 64-bit arithmetic.
import Mathlib.Algebra.Group.Nat.Defs

/-!
# Errors

`AppError` is the one error type of the program. An `IoError` is what a system
call reports; it becomes an `AppError` of kind `io` when it is propagated.
-/

namespace Procherd

abbrev Bytes := List UInt8

/-! ## Saturating 64-bit arithmetic -/

def u64Max : Nat := 2 ^ 64 - 1

def saturatingAdd (a b : Nat) : Nat := min (a + b) u64Max

theorem saturatingAdd_of_le {a b : Nat} (h : a + b ≤ u64Max) : saturatingAdd a b = a + b :=
  Nat.min_eq_left h

/-! ## System errors -/

inductive IoErrorKind where
  | notFound
  | invalidInput
  | interrupted
  | other
deriving DecidableEq

structure IoError where
  kind : IoErrorKind
  rawOsError : Option Int := none
  message : String
deriving DecidableEq

/-- The error of a system call on a path that does not exist. -/
def IoError.missing : IoError :=
  { kind := .notFound, rawOsError := some 2, message := "No such file or directory (os error 2)" }

/-- The error of a creating call on a path that exists. -/
def IoError.existing : IoError :=
  { kind := .other, rawOsError := some 17, message := "File exists (os error 17)" }

def isProcessGone (error : IoError) : Bool :=
  error.kind = .notFound ∨ error.kind = .invalidInput ∨ error.rawOsError = some 3

/-- A signal with this answer reached the process tree, or found it gone. -/
def treeReached : Except IoError Unit → Bool
  | .ok _ => true
  | .error e => isProcessGone e

/-! ## AppError -/

structure AppError where
  code : Nat
  kind : String
  message : String
deriving DecidableEq

namespace AppError

def usage (message : String) : AppError := { code := 2, kind := "usage", message }

def operational (kind message : String) : AppError := { code := 1, kind, message }

def timeout (message : String) : AppError := { code := 3, kind := "timeout", message }

def notFound (message : String) : AppError := { code := 4, kind := "not_found", message }

def integrity (message : String) : AppError := { code := 5, kind := "integrity", message }

/-- `impl From<io::Error> for AppError`. -/
def ofIo (error : IoError) : AppError := operational "io" error.message

@[simp] theorem operational_kind (k m : String) : (operational k m).kind = k := rfl
@[simp] theorem ofIo_kind (e : IoError) : (ofIo e).kind = "io" := rfl
@[simp] theorem integrity_kind (m : String) : (integrity m).kind = "integrity" := rfl

end AppError

end Procherd
