import SafeTransmute.Foundation.Memory

/-!
# Vectors and their raw parts

A `Vec<T>` is its raw parts `(ptr, len, capacity)` together with the bytes
of its `len` elements, and it keeps the standard library's invariants: the
pointer is non-null and aligned for `T`, `len` is at most `capacity`, the
block of `capacity * size_of::<T>()` bytes is no larger than `isize::MAX`,
and a vector of a zero-sized type reports the capacity `usize::MAX`.
`Vec::from_raw_parts` rebuilds a vector from a block left behind by `forget`,
and stops with undefined behaviour when the raw parts break its contract.
-/

namespace SafeTransmute.Foundation

variable {α β : Type}

def Platform.bits64 : Platform := ⟨64, by decide⟩

structure Allocation where
  ptr : Nat
  size : Nat
  align : Nat
  init : List UInt8
  deriving DecidableEq, Repr

structure RawVec where
  ptr : Nat
  len : Nat
  capacity : Nat
  data : List UInt8
  deriving DecidableEq, Repr

structure Vec (p : Platform) (T : RustType α) where
  ptr : Nat
  len : Nat
  capacity : Nat
  data : List UInt8
  ptr_pos : 0 < ptr
  ptr_aligned : ptr % T.align = 0
  len_le : len ≤ capacity
  capacity_le : capacity ≤ p.usizeMax
  alloc_le : capacity * T.size ≤ p.isizeMax
  zst_capacity : T.size = 0 → capacity = p.usizeMax
  data_length : data.length = len * T.size
  data_valid : ∀ i < len, (T.decode (T.bytesAt data i)).isSome

namespace Vec

variable {p : Platform}

def raw {T : RustType α} (v : Vec p T) : RawVec := ⟨v.ptr, v.len, v.capacity, v.data⟩

def allocation {T : RustType α} (v : Vec p T) : Allocation :=
  ⟨v.ptr, v.capacity * T.size, T.align, v.data⟩

/-- The safety contract of `Vec::from_raw_parts(ptr, len, capacity)` for the
block `a` at `ptr`.  A zero capacity or a zero-sized `T` owns no block, and
then `ptr` need only be non-null and aligned; otherwise the block must have
been allocated with the alignment of `T` and `capacity * size_of::<T>()`
bytes.  That size is at most `isize::MAX`, `len` is at most `capacity`, and
the first `len` elements are values of `T`. -/
def RawPartsValid (p : Platform) (T : RustType α) (a : Allocation)
    (len capacity : Nat) : Prop :=
  0 < a.ptr ∧ a.ptr % T.align = 0 ∧
    (0 < T.size → 0 < capacity → T.align = a.align ∧ capacity * T.size = a.size) ∧
    capacity * T.size ≤ p.isizeMax ∧ len ≤ capacity ∧ capacity ≤ p.usizeMax ∧
    len * T.size ≤ a.init.length ∧ ∀ i < len, (T.decode (T.bytesAt a.init i)).isSome

instance (p : Platform) (T : RustType α) (a : Allocation) (len capacity : Nat) :
    Decidable (RawPartsValid p T a len capacity) :=
  inferInstanceAs (Decidable (_ ∧ _))

def fromRawParts (p : Platform) (T : RustType α) (a : Allocation)
    (len capacity : Nat) : Exec (Vec p T) :=
  if h : RawPartsValid p T a len capacity then
    pure
      { ptr := a.ptr
        len := len
        capacity := if T.size = 0 then p.usizeMax else capacity
        data := a.init.take (len * T.size)
        ptr_pos := h.1
        ptr_aligned := h.2.1
        len_le := by obtain ⟨-, -, -, -, hlen, hcap, -⟩ := h; split <;> omega
        capacity_le := by obtain ⟨-, -, -, -, -, hcap, -⟩ := h; split <;> omega
        alloc_le := by
          split
          · rw [‹T.size = 0›, Nat.mul_zero]
            exact Nat.zero_le _
          · exact h.2.2.2.1
        zst_capacity := fun hz => if_pos hz
        data_length := List.length_take_of_le h.2.2.2.2.2.2.1
        data_valid := fun i hi => by
          rw [T.bytesAt_take hi]
          exact h.2.2.2.2.2.2.2 i hi }
  else throw .invalidRawParts

def new (p : Platform) (T : RustType α) : Vec p T where
  ptr := T.align
  len := 0
  capacity := if T.size = 0 then p.usizeMax else 0
  data := []
  ptr_pos := T.align_pos
  ptr_aligned := Nat.mod_self _
  len_le := Nat.zero_le _
  capacity_le := by split <;> omega
  alloc_le := by
    split
    · rename_i h
      rw [h, Nat.mul_zero]
      exact Nat.zero_le _
    · rw [Nat.zero_mul]
      exact Nat.zero_le _
  zst_capacity := fun h => if_pos h
  data_length := (Nat.zero_mul _).symm
  data_valid := fun _ h => absurd h (Nat.not_lt_zero _)

theorem ext_raw {T : RustType α} {v w : Vec p T} (h : v.raw = w.raw) : v = w := by
  cases v; cases w
  simp only [raw, RawVec.mk.injEq] at h
  obtain ⟨rfl, rfl, rfl, rfl⟩ := h
  rfl

end Vec

end SafeTransmute.Foundation
