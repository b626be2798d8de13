import SafeTransmute.Foundation.Runtime

/-!
# Slices and raw views

A byte slice is its start address together with the bytes it covers.  The
unsafe primitives that reinterpret memory check their documented
preconditions and stop with undefined behaviour when one fails, so that a
call that returns never read outside its buffer, through a misaligned
pointer, or a bit pattern that is not a value.

`slice::from_raw_parts` reads the values it views.  `slice::from_raw_parts_mut`
returns a `MutSlice`: the `&mut [T]` it lays over the buffer, which is the
buffer itself, so that what is written through it lands in the buffer.
-/

namespace SafeTransmute.Foundation

variable {α : Type}

structure Slice where
  addr : Nat
  bytes : List UInt8
  deriving DecidableEq, Repr

def Slice.len (s : Slice) : Nat := s.bytes.length

def readValues (T : RustType α) (bytes : List UInt8) (len : Nat) : Exec (List α) :=
  (List.range len).mapM fun i => T.read (T.bytesAt bytes i)

def fromRawParts (T : RustType α) (s : Slice) (len : Nat) : Exec (List α) :=
  if s.addr % T.align ≠ 0 then throw .misalignedPointer
  else if s.len < len * T.size then throw .outOfBoundsAccess
  else readValues T s.bytes len

/-- A `&mut [T]` of `len` elements laid over the start of the buffer `buf`:
aligned for `T`, and inside the buffer. -/
structure MutSlice (T : RustType α) where
  buf : Slice
  len : Nat
  aligned : buf.addr % T.align = 0
  fits : len * T.size ≤ buf.len

/-- `slice::from_raw_parts_mut(ptr as *mut T, len)` for a pointer to the start
of `s`: the preconditions of `from_raw_parts`, and the slice it returns is
laid over `s`. -/
def fromRawPartsMut (T : RustType α) (s : Slice) (len : Nat) : Exec (MutSlice T) :=
  if h : s.addr % T.align = 0 then
    if hlen : len * T.size ≤ s.len then
      (fun _ => ⟨s, len, h, hlen⟩) <$> readValues T s.bytes len
    else throw .outOfBoundsAccess
  else throw .misalignedPointer

def MutSlice.read {T : RustType α} (m : MutSlice T) : Exec (List α) :=
  readValues T m.buf.bytes m.len

def readMut {ε : Type} {T : RustType α} (r : Exec (Except ε (MutSlice T))) :
    Exec (Except ε (List α)) := do
  match ← r with
  | .error e => pure (.error e)
  | .ok m => return .ok (← m.read)

def index (xs : List α) (i : Nat) : Exec α :=
  match xs[i]? with
  | some x => pure x
  | none => throw (.indexOutOfBounds i xs.length)

theorem readValues_trivial (T : TriviallyTransmutable α) {bytes : List UInt8}
    {len : Nat} (h : len * T.size ≤ bytes.length) :
    readValues T.toRustType bytes len =
      pure ((List.range len).map fun i => T.ofBytes (T.bytesAt bytes i)) := by
  unfold readValues
  induction len with
  | zero => rfl
  | succ n ih =>
      have hn : n * T.size ≤ bytes.length :=
        le_trans (Nat.mul_le_mul_right _ (Nat.le_succ n)) h
      simp only [List.range_succ, List.mapM_append, ih hn, List.map_append,
        List.mapM_cons, List.mapM_nil, T.read_eq (T.length_bytesAt h)]
      rfl

theorem readValues_of_valid (T : RustType α) {bytes : List UInt8} {len : Nat}
    (h : ∀ i < len, (T.decode (T.bytesAt bytes i)).isSome) :
    ∃ values, readValues T bytes len = pure values ∧ values.length = len := by
  induction len with
  | zero => exact ⟨[], rfl, rfl⟩
  | succ n ih =>
      obtain ⟨values, hvalues, hlen⟩ := ih fun i hi => h i (Nat.lt_succ_of_lt hi)
      obtain ⟨x, hx⟩ := Option.isSome_iff_exists.mp (h n (Nat.lt_succ_self n))
      refine ⟨values ++ [x], ?_, by simp [hlen]⟩
      unfold readValues at hvalues ⊢
      simp only [List.range_succ, List.mapM_append, hvalues, List.mapM_cons,
        List.mapM_nil, pure_bind]
      simp only [RustType.read, hx]
      rfl

theorem fromRawParts_of_valid (T : RustType α) {s : Slice} {len : Nat}
    (halign : s.addr % T.align = 0) (hlen : len * T.size ≤ s.len)
    (h : ∀ i < len, (T.decode (T.bytesAt s.bytes i)).isSome) :
    ∃ values, fromRawParts T s len = pure values ∧ values.length = len := by
  simp only [fromRawParts, halign, ne_eq, not_true_eq_false, ↓reduceIte,
    Nat.not_lt.mpr hlen]
  exact readValues_of_valid T h

theorem fromRawParts_trivial (T : TriviallyTransmutable α) {s : Slice}
    {len : Nat} (halign : s.addr % T.align = 0) (hlen : len * T.size ≤ s.len) :
    fromRawParts T.toRustType s len =
      pure ((List.range len).map fun i => T.ofBytes (T.bytesAt s.bytes i)) := by
  simp only [fromRawParts, halign, ne_eq, not_true_eq_false, ↓reduceIte,
    Nat.not_lt.mpr hlen]
  exact readValues_trivial T hlen

@[simp] theorem fromRawParts_misaligned (T : RustType α) {s : Slice} {len : Nat}
    (h : s.addr % T.align ≠ 0) : fromRawParts T s len = throw .misalignedPointer :=
  if_pos h

theorem fromRawPartsMut_bind_read (T : RustType α) (s : Slice) (len : Nat) :
    fromRawPartsMut T s len >>= MutSlice.read = fromRawParts T s len := by
  unfold fromRawPartsMut fromRawParts
  by_cases h : s.addr % T.align = 0
  · by_cases hlen : len * T.size ≤ s.len
    · rw [dif_pos h, dif_pos hlen, if_neg (not_not.mpr h), if_neg (Nat.not_lt.mpr hlen)]
      cases hr : readValues T s.bytes len with
      | error f => rfl
      | ok values => exact hr
    · rw [dif_pos h, dif_neg hlen, if_neg (not_not.mpr h), if_pos (Nat.lt_of_not_le hlen)]
      rfl
  · rw [dif_neg h, if_pos h]
    rfl

theorem fromRawPartsMut_trivial (T : TriviallyTransmutable α) {s : Slice} {len : Nat}
    (halign : s.addr % T.align = 0) (hlen : len * T.size ≤ s.len) :
    fromRawPartsMut T.toRustType s len = pure ⟨s, len, halign, hlen⟩ := by
  rw [fromRawPartsMut, dif_pos halign, dif_pos hlen, readValues_trivial T hlen]
  rfl

@[simp] theorem index_zero (x : α) (xs : List α) : index (x :: xs) 0 = pure x := by
  simp [index]

end SafeTransmute.Foundation
