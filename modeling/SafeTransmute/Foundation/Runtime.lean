import Mathlib.Algebra.Group.Nat.Basic
import Mathlib.Data.List.Basic

/-!
# The Rust runtime the crate runs on

A call of Rust code either returns or stops.  It stops by panicking (a
division by zero, an index out of range, `expect` on an `Err`) or by breaking
the precondition of an unsafe primitive, after which its behaviour is
undefined.  `Exec` is the outcome of a call.  A `Result` that the call returns
is the payload of a successful outcome, so that returning `Err` and stopping
stay distinct.

`usize` values are natural numbers below `2 ^ bits` of the target `Platform`.
A Rust type is seen through its layout and through the bit patterns that are
values of it.
-/

namespace SafeTransmute.Foundation

inductive Fault where
  | divideByZero
  | remainderByZero
  | indexOutOfBounds (index length : Nat)
  | expectFailed (message : String)
  | misalignedPointer
  | outOfBoundsAccess
  | invalidValue
  | invalidRawParts
  deriving DecidableEq, Repr

abbrev Exec := Except Fault

structure Platform where
  bits : Nat
  bits_valid : bits = 16 ∨ bits = 32 ∨ bits = 64

namespace Platform

def usizeMax (p : Platform) : Nat := 2 ^ p.bits - 1

def isizeMax (p : Platform) : Nat := 2 ^ (p.bits - 1) - 1

/-- `a * b` on `usize` as a release build computes it: modulo `2 ^ bits`. -/
def usizeMul (p : Platform) (a b : Nat) : Nat := a * b % 2 ^ p.bits

theorem isizeMax_lt_usizeMax (p : Platform) : p.isizeMax < p.usizeMax := by
  rcases p.bits_valid with h | h | h <;> simp [isizeMax, usizeMax, h]

theorem usizeMax_lt (p : Platform) : p.usizeMax < 2 ^ p.bits := by
  have : 1 ≤ 2 ^ p.bits := Nat.one_le_two_pow
  unfold usizeMax
  omega

theorem usizeMul_of_le (p : Platform) {a b : Nat} (h : a * b ≤ p.usizeMax) :
    p.usizeMul a b = a * b :=
  Nat.mod_eq_of_lt (Nat.lt_of_le_of_lt h p.usizeMax_lt)

end Platform

def usizeDiv (a b : Nat) : Exec Nat :=
  if b = 0 then throw .divideByZero else pure (a / b)

def usizeRem (a b : Nat) : Exec Nat :=
  if b = 0 then throw .remainderByZero else pure (a % b)

@[simp] theorem usizeDiv_zero (a : Nat) : usizeDiv a 0 = throw .divideByZero := rfl

@[simp] theorem usizeDiv_of_pos {a b : Nat} (h : 0 < b) :
    usizeDiv a b = pure (a / b) := if_neg (Nat.pos_iff_ne_zero.mp h)

@[simp] theorem usizeRem_of_pos {a b : Nat} (h : 0 < b) :
    usizeRem a b = pure (a % b) := if_neg (Nat.pos_iff_ne_zero.mp h)

section Result

variable {ε α β : Type}

def expect (r : Except ε α) (message : String) : Exec α :=
  match r with
  | .ok a => pure a
  | .error _ => throw (.expectFailed message)

def andThen (r : Except ε α) (f : α → Exec (Except ε β)) : Exec (Except ε β) :=
  match r with
  | .ok a => f a
  | .error e => pure (.error e)

@[simp] theorem andThen_ok (a : α) (f : α → Exec (Except ε β)) :
    andThen (.ok a) f = f a := rfl

@[simp] theorem andThen_error (e : ε) (f : α → Exec (Except ε β)) :
    andThen (.error e) f = pure (.error e) := rfl

end Result

/--
A Rust type as memory sees it: `size_of`, `align_of` (a power of two that
divides the size), and which bit patterns of `size` bytes are values of it.
-/
structure RustType (α : Type) where
  size : Nat
  align : Nat
  align_pow : align.isPowerOfTwo
  align_dvd : align ∣ size
  decode : List UInt8 → Option α

/--
`TriviallyTransmutable`: every bit pattern of the type's size is a value,
the one that `ofBytes` names.
-/
structure TriviallyTransmutable (α : Type) extends RustType α where
  ofBytes : List UInt8 → α
  decode_eq : ∀ bytes : List UInt8, bytes.length = size →
    decode bytes = some (ofBytes bytes)

namespace RustType

variable {α : Type} (T : RustType α)

def bytesAt (bytes : List UInt8) (i : Nat) : List UInt8 :=
  (bytes.drop (i * T.size)).take T.size

def read (bytes : List UInt8) : Exec α :=
  match T.decode bytes with
  | some value => pure value
  | none => throw .invalidValue

theorem length_bytesAt {bytes : List UInt8} {i : Nat}
    (h : (i + 1) * T.size ≤ bytes.length) : (T.bytesAt bytes i).length = T.size := by
  simp only [bytesAt, List.length_take, List.length_drop]
  rw [Nat.succ_mul] at h
  omega

theorem bytesAt_append_left {bytes rest : List UInt8} {i : Nat}
    (h : (i + 1) * T.size ≤ bytes.length) :
    T.bytesAt (bytes ++ rest) i = T.bytesAt bytes i := by
  rw [Nat.succ_mul] at h
  simp only [bytesAt, List.drop_append_eq_append_drop, List.take_append_eq_append_take,
    List.length_drop]
  simp [show T.size - (bytes.length - i * T.size) = 0 by omega]

theorem bytesAt_append_right {bytes rest : List UInt8} {k i : Nat}
    (h : bytes.length = k * T.size) :
    T.bytesAt (bytes ++ rest) (k + i) = T.bytesAt rest i := by
  simp only [bytesAt, Nat.add_mul, ← h, List.drop_append]

theorem bytesAt_take {bytes : List UInt8} {n i : Nat} (h : i < n) :
    T.bytesAt (bytes.take (n * T.size)) i = T.bytesAt bytes i := by
  have : (i + 1) * T.size ≤ n * T.size := Nat.mul_le_mul_right _ h
  rw [Nat.succ_mul] at this
  simp only [bytesAt, List.drop_take, List.take_take]
  congr 1
  omega

theorem align_pos : 0 < T.align := Nat.pos_of_isPowerOfTwo T.align_pow

end RustType

namespace TriviallyTransmutable

variable {α : Type} (T : TriviallyTransmutable α)

theorem read_eq {bytes : List UInt8} (h : bytes.length = T.size) :
    T.read bytes = pure (T.ofBytes bytes) := by
  simp [RustType.read, T.decode_eq bytes h]

end TriviallyTransmutable

/-! ## Primitive types

The crate's `TriviallyTransmutable` impls are in its `trivial` module, which
is not part of the source.  The byte order is the target's; these are the
little-endian ones.
-/

def leValue : List UInt8 → Nat
  | [] => 0
  | b :: bs => b.toNat + 256 * leValue bs

def unitType : RustType Unit where
  size := 0
  align := 1
  align_pow := ⟨0, rfl⟩
  align_dvd := Nat.one_dvd 0
  decode _ := some ()

/-- Modelled from the spec: `u8` is trivially transmutable. -/
def u8Type : TriviallyTransmutable UInt8 where
  size := 1
  align := 1
  align_pow := ⟨0, rfl⟩
  align_dvd := Nat.one_dvd 1
  ofBytes bytes := UInt8.ofNat (leValue bytes)
  decode bytes := some (UInt8.ofNat (leValue bytes))
  decode_eq _ _ := rfl

/-- Modelled from the spec: `i8` is trivially transmutable; its values are
the integers from `-128` to `127`. -/
def i8Type : TriviallyTransmutable Int where
  size := 1
  align := 1
  align_pow := ⟨0, rfl⟩
  align_dvd := Nat.one_dvd 1
  ofBytes bytes := Int.bmod (leValue bytes) 256
  decode bytes := some (Int.bmod (leValue bytes) 256)
  decode_eq _ _ := rfl

/-- Modelled from the spec: `u16` is trivially transmutable. -/
def u16Type : TriviallyTransmutable UInt16 where
  size := 2
  align := 2
  align_pow := ⟨1, rfl⟩
  align_dvd := Nat.dvd_refl 2
  ofBytes bytes := UInt16.ofNat (leValue bytes)
  decode bytes := some (UInt16.ofNat (leValue bytes))
  decode_eq _ _ := rfl

end SafeTransmute.Foundation
