import SafeTransmute.Foundation.Vec

/-!
# Errors, guards and the alignment check

The crate's `error`, `guard` and `align` modules are not part of the source:
what `base.rs` and `full.rs` use of them is modelled from the spec.  A guard
is a length policy.  From `size_of::<T>()` and a byte length it accepts, or
it says why not; it is Rust code and may itself stop.  The alignment check
compares a start address with `align_of::<T>()`.
-/

namespace SafeTransmute

open Foundation

variable {α : Type}

/-! ## Errors -/

/-- Modelled from the spec: `error::ErrorReason`, why a guard rejected a
length. -/
inductive ErrorReason where
  | notEnoughBytes
  | inexactByteCount
  deriving DecidableEq, Repr

/-- Modelled from the spec: `error::GuardError`, the size a guard required
and the length it was given. -/
structure GuardError where
  required : Nat
  actual : Nat
  reason : ErrorReason
  deriving DecidableEq, Repr

/-- Modelled from the spec: `error::UnalignedError`, how far the start is
past an alignment boundary, and the rejected data. -/
structure UnalignedError where
  offset : Nat
  source : Slice
  deriving DecidableEq, Repr

/-- Modelled from the spec: `error::IncompatibleVecTargetError`, which hands
the vector back to the caller. -/
structure IncompatibleVecTargetError where
  vec : RawVec
  deriving DecidableEq, Repr

/-- Modelled from the spec: `error::Error`.  Each constructor is the `From`
conversion that `?` and `.into()` apply to its error. -/
inductive Error where
  | guard (e : GuardError)
  | unaligned (e : UnalignedError)
  | incompatibleVecTarget (e : IncompatibleVecTargetError)
  deriving DecidableEq, Repr

/-! ## Guards -/

/-- Modelled from the spec: the `guard::Guard` trait.  `check size len` is
`G::check::<T>(bytes)` with `size = size_of::<T>()` and `len = bytes.len()`. -/
structure Guard where
  check : Nat → Nat → Exec (Except GuardError Unit)

/-- Modelled from the spec: `PermissiveGuard` accepts every length. -/
def permissiveGuard : Guard := ⟨fun _ _ => pure (.ok ())⟩

/-- Modelled from the spec: `SingleManyGuard` wants at least one element,
extra bytes allowed. -/
def singleManyGuard : Guard where
  check size len := pure <|
    if len < size then .error ⟨size, len, .notEnoughBytes⟩ else .ok ()

/-- Modelled from the spec: `SingleValueGuard` wants exactly one element. -/
def singleValueGuard : Guard where
  check size len := pure <|
    if len < size then .error ⟨size, len, .notEnoughBytes⟩
    else if size < len then .error ⟨size, len, .inexactByteCount⟩
    else .ok ()

/-- Modelled from the spec: `PedanticGuard` wants a whole number of
elements, the empty buffer included. -/
def pedanticGuard : Guard where
  check size len :=
    if len < size ∧ len ≠ 0 then pure (.error ⟨size, len, .notEnoughBytes⟩)
    else do
      let rem ← usizeRem len size
      pure (if rem ≠ 0 then .error ⟨size, len, .inexactByteCount⟩ else .ok ())

@[simp] theorem permissiveGuard_check (size len : Nat) :
    permissiveGuard.check size len = pure (.ok ()) := rfl

theorem singleManyGuard_check_of_le {size len : Nat} (h : size ≤ len) :
    singleManyGuard.check size len = pure (.ok ()) := by
  simp [singleManyGuard, Nat.not_lt.mpr h]

theorem singleValueGuard_check_self (size : Nat) :
    singleValueGuard.check size size = pure (.ok ()) := by
  simp [singleValueGuard]

theorem singleValueGuard_check_eq_ok {size len : Nat} :
    singleValueGuard.check size len = pure (.ok ()) ↔ len = size := by
  simp only [singleValueGuard]
  split_ifs <;> simp [pure, Except.pure] <;> omega

theorem singleManyGuard_check_eq_ok {size len : Nat} :
    singleManyGuard.check size len = pure (.ok ()) ↔ size ≤ len := by
  simp only [singleManyGuard]
  split_ifs <;> simp [pure, Except.pure] <;> omega

theorem pedanticGuard_check_eq_ok {size len : Nat} (hsize : 0 < size) :
    pedanticGuard.check size len = pure (.ok ()) ↔ len % size = 0 := by
  simp only [pedanticGuard, usizeRem_of_pos hsize, pure_bind]
  split_ifs with h₁ h₂
  · rw [Nat.mod_eq_of_lt h₁.1]
    simp [pure, Except.pure, h₁.2]
  · simp [pure, Except.pure, h₂]
  · simpa [pure, Except.pure] using h₂

/-! ## The spec's guard policies

Section 4.2 of the spec states each policy as one function from the byte
length and element size to an element count.  The code splits it in two:
the guard's `check`, and the count `bytes.len() / size_of::<T>()` that
`base::transmute_many` divides out afterwards.
-/

inductive GuardPolicy where
  | permissive
  | singleValue
  | singleMany
  | pedantic
  deriving DecidableEq, Repr

namespace GuardPolicy

def validate : GuardPolicy → Nat → Nat → Except GuardError Nat
  | permissive, len, size => .ok (len / size)
  | singleValue, len, size =>
      if len < size then .error ⟨size, len, .notEnoughBytes⟩
      else if size < len then .error ⟨size, len, .inexactByteCount⟩
      else .ok 1
  | singleMany, len, size =>
      if len < size then .error ⟨size, len, .notEnoughBytes⟩ else .ok (len / size)
  | pedantic, len, size =>
      if len < size ∧ len ≠ 0 then .error ⟨size, len, .notEnoughBytes⟩
      else if len % size ≠ 0 then .error ⟨size, len, .inexactByteCount⟩
      else .ok (len / size)

def guard : GuardPolicy → Guard
  | permissive => permissiveGuard
  | singleValue => singleValueGuard
  | singleMany => singleManyGuard
  | pedantic => pedanticGuard

theorem check_returns (P : GuardPolicy) {size : Nat} (hsize : 0 < size) (len : Nat) :
    ∃ r, P.guard.check size len = pure r := by
  cases P <;> simp only [guard, permissiveGuard, singleValueGuard, singleManyGuard,
    pedanticGuard, usizeRem_of_pos hsize, pure_bind] <;> (try split_ifs) <;> exact ⟨_, rfl⟩

theorem validate_of_check (P : GuardPolicy) {size len : Nat} (hsize : 0 < size)
    {r : Except GuardError Unit} (h : P.guard.check size len = pure r) :
    P.validate len size = r.map fun _ => len / size := by
  cases P with
  | permissive => cases h; rfl
  | singleValue =>
      simp only [guard, singleValueGuard] at h
      simp only [validate]
      split_ifs at h ⊢ with h₁ h₂ <;> cases h
      · rfl
      · rfl
      · rw [Nat.le_antisymm (Nat.not_lt.mp h₂) (Nat.not_lt.mp h₁), Nat.div_self hsize]
        rfl
  | singleMany =>
      simp only [guard, singleManyGuard] at h
      simp only [validate]
      split_ifs at h ⊢ <;> cases h <;> rfl
  | pedantic =>
      simp only [guard, pedanticGuard, usizeRem_of_pos hsize, pure_bind] at h
      simp only [validate]
      split_ifs at h ⊢ <;> cases h <;> rfl

end GuardPolicy

/-! ## Alignment -/

/-- Modelled from the spec: `align::check_alignment::<_, T>(data)`, which
wants the start address to be a multiple of `align_of::<T>()`. -/
def checkAlignment (T : RustType α) (data : Slice) : Except UnalignedError Unit :=
  if data.addr % T.align = 0 then .ok () else .error ⟨data.addr % T.align, data⟩

/-- Modelled from the spec: `align::check_alignment_mut`, which hands the
slice back when it is aligned. -/
def checkAlignmentMut (T : RustType α) (data : Slice) :
    Except UnalignedError Slice :=
  if data.addr % T.align = 0 then .ok data else .error ⟨data.addr % T.align, data⟩

section Alignment

variable (T : RustType α) {data : Slice}

@[simp] theorem checkAlignment_of_aligned (h : data.addr % T.align = 0) :
    checkAlignment T data = .ok () := if_pos h

@[simp] theorem checkAlignment_of_misaligned (h : data.addr % T.align ≠ 0) :
    checkAlignment T data = .error ⟨data.addr % T.align, data⟩ := if_neg h

@[simp] theorem checkAlignmentMut_of_aligned (h : data.addr % T.align = 0) :
    checkAlignmentMut T data = .ok data := if_pos h

@[simp] theorem checkAlignmentMut_of_misaligned (h : data.addr % T.align ≠ 0) :
    checkAlignmentMut T data = .error ⟨data.addr % T.align, data⟩ := if_neg h

end Alignment

end SafeTransmute
