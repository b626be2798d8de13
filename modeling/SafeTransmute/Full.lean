import SafeTransmute.Base

/-!
# `full.rs`: the checked entry points

Each entry point checks the alignment of the bytes and runs a guard before
it calls a primitive of `base.rs`, and only a trivially transmutable type can
be its target.  The primitives are reached through the crate's `trivial`
module, which is not part of the source: it restricts `base.rs` to trivially
transmutable targets and is modelled from the spec.
-/

namespace SafeTransmute.Full

open Foundation

variable {α β : Type}

/-! ## `trivial.rs` -/

/-- Modelled from the spec: `trivial::transmute_trivial`, the spec's
CoreTransmute single-value materialisation for a trivially transmutable `T`,
that is `base::from_bytes`. -/
def transmuteTrivial (T : TriviallyTransmutable α) (bytes : Slice) :
    Exec (Except Error α) :=
  Base.fromBytes T.toRustType bytes

/-- Modelled from the spec: `trivial::transmute_trivial_many`, the spec's
CoreTransmute view for a trivially transmutable `T`, that is
`base::transmute_many`. -/
def transmuteTrivialMany (T : TriviallyTransmutable α) (G : Guard) (bytes : Slice) :
    Exec (Except Error (List α)) :=
  Base.transmuteMany T.toRustType G bytes

/-- Modelled from the spec: `trivial::transmute_trivial_many_mut`, that is
`base::transmute_many_mut`. -/
def transmuteTrivialManyMut (T : TriviallyTransmutable α) (G : Guard)
    (bytes : Slice) : Exec (Except Error (MutSlice T.toRustType)) :=
  Base.transmuteManyMutRef T.toRustType G bytes

/-! ## `full.rs` -/

def transmuteOne (T : TriviallyTransmutable α) (bytes : Slice) :
    Exec (Except Error α) :=
  match checkAlignment T.toRustType bytes with
  | .error e => pure (.error (.unaligned e))
  | .ok () => transmuteTrivial T bytes

def transmuteOnePedantic (T : TriviallyTransmutable α) (bytes : Slice) :
    Exec (Except Error α) := do
  match ← singleValueGuard.check T.size bytes.len with
  | .error e => pure (.error (.guard e))
  | .ok () =>
      match checkAlignment T.toRustType bytes with
      | .error e => pure (.error (.unaligned e))
      | .ok () => transmuteTrivial T bytes

def transmuteMany (T : TriviallyTransmutable α) (G : Guard) (bytes : Slice) :
    Exec (Except Error (List α)) :=
  match checkAlignment T.toRustType bytes with
  | .error e => pure (.error (.unaligned e))
  | .ok () => transmuteTrivialMany T G bytes

def transmuteManyPermissive (T : TriviallyTransmutable α) (bytes : Slice) :
    Exec (Except Error (List α)) :=
  transmuteMany T permissiveGuard bytes

def transmuteManyPedantic (T : TriviallyTransmutable α) (bytes : Slice) :
    Exec (Except Error (List α)) :=
  transmuteMany T pedanticGuard bytes

def transmuteManyMutRef (T : TriviallyTransmutable α) (G : Guard) (bytes : Slice) :
    Exec (Except Error (MutSlice T.toRustType)) :=
  andThen ((checkAlignmentMut T.toRustType bytes).mapError .unaligned)
    fun bytes => transmuteTrivialManyMut T G bytes

/-- The values of the `&mut [T]` that `full::transmute_many_mut` returns. -/
def transmuteManyMut (T : TriviallyTransmutable α) (G : Guard) (bytes : Slice) :
    Exec (Except Error (List α)) :=
  readMut (transmuteManyMutRef T G bytes)

def transmuteManyPermissiveMut (T : TriviallyTransmutable α) (bytes : Slice) :
    Exec (Except Error (List α)) :=
  transmuteManyMut T permissiveGuard bytes

def transmuteManyPedanticMut (T : TriviallyTransmutable α) (bytes : Slice) :
    Exec (Except Error (List α)) :=
  transmuteManyMut T pedanticGuard bytes

def transmuteVec (p : Platform) (S : TriviallyTransmutable α)
    (T : TriviallyTransmutable β) (vec : Vec p S.toRustType) :
    Exec (Except Error (Vec p T.toRustType)) :=
  if S.align ≠ T.align ∨ S.size ≠ T.size then
    pure (.error (.incompatibleVecTarget ⟨vec.raw⟩))
  else do
    return .ok (← Vec.fromRawParts p T.toRustType vec.allocation vec.len vec.capacity)

/-! ## The alignment check comes first -/

section Misaligned

variable (T : TriviallyTransmutable α) {bytes : Slice}

theorem transmuteOne_of_misaligned (h : bytes.addr % T.align ≠ 0) :
    transmuteOne T bytes = pure (.error (.unaligned ⟨bytes.addr % T.align, bytes⟩)) := by
  simp only [transmuteOne, checkAlignment_of_misaligned T.toRustType h]

theorem transmuteMany_of_misaligned (G : Guard) (h : bytes.addr % T.align ≠ 0) :
    transmuteMany T G bytes =
      pure (.error (.unaligned ⟨bytes.addr % T.align, bytes⟩)) := by
  simp only [transmuteMany, checkAlignment_of_misaligned T.toRustType h]

theorem transmuteManyMut_of_misaligned (G : Guard) (h : bytes.addr % T.align ≠ 0) :
    transmuteManyMut T G bytes =
      pure (.error (.unaligned ⟨bytes.addr % T.align, bytes⟩)) := by
  simp only [transmuteManyMut, transmuteManyMutRef, checkAlignmentMut_of_misaligned T.toRustType h]
  rfl

end Misaligned

theorem transmuteOnePedantic_odd_empty_u16 :
    transmuteOnePedantic u16Type ⟨1, []⟩ =
      pure (.error (.guard ⟨2, 0, .notEnoughBytes⟩)) := rfl

end SafeTransmute.Full
