import MuduoNet.Lib.Outcome
import Mathlib.Algebra.Group.Nat.Defs

/-!
# Faults and objects in memory

A `Fault` is a way in which the C++ program does not get to the next statement, or gets
there only through undefined behaviour. Every modelled function that can meet one says so.
-/
namespace MuduoNet

inductive Fault
  /-- An `assert` of the source fails. -/
  | assertion
  /-- `std::length_error`, thrown by a container that would exceed its `max_size()`. -/
  | lengthError
  /-- A read outside the bytes handed to the function. -/
  | outOfBounds
  /-- A signed computation leaves the range of its type. -/
  | overflow
  /-- A null pointer is dereferenced. -/
  | nullPointer
  /-- A deleted object is used or deleted again. -/
  | deletedObject
  /-- A fatal log or a failed `GOOGLE_CHECK` ends the process. -/
  | fatal
  /-- The budget given to a loop is spent before the loop ends. -/
  | budget
  deriving DecidableEq, Repr

def assert (p : Prop) [Decidable p] : Except Fault Unit := Lib.Outcome.demand .assertion p

/-- `PTRDIFF_MAX`: no object is larger, and it is the `max_size()` of `std::vector<char>`. -/
def maxSize : Nat := 2 ^ 63 - 1

/-- The bytes of one object in memory, such as a `std::string` or an array. -/
structure Span where
  bytes : List UInt8
  fits : bytes.length ≤ maxSize
  deriving DecidableEq

end MuduoNet
