import SafeTransmute.Checks

/-!
# `base.rs`: the unchecked primitives

Each primitive runs its guard and then builds the raw view.  None of them
checks the alignment of the bytes, or that they are values of `T`: those are
the caller's obligations, and breaking one is undefined behaviour that the
raw constructors of `Foundation.Memory` report.  The element count is
`bytes.len() / size_of::<T>()`, a `usize` division that panics when `T` is
zero-sized.
-/

namespace SafeTransmute.Base

open Foundation

variable {α β : Type}

/-- What `from_bytes` and `from_bytes_pedantic` share: `G::check::<T>(bytes)?`,
then `slice::from_raw_parts(bytes.as_ptr() as *const T, 1)[0]`. -/
def fromBytesWith (G : Guard) (T : RustType α) (bytes : Slice) :
    Exec (Except Error α) := do
  match ← G.check T.size bytes.len with
  | .error e => pure (.error (.guard e))
  | .ok () => return .ok (← index (← fromRawParts T bytes 1) 0)

def fromBytes (T : RustType α) (bytes : Slice) : Exec (Except Error α) :=
  fromBytesWith singleManyGuard T bytes

def fromBytesPedantic (T : RustType α) (bytes : Slice) : Exec (Except Error α) :=
  fromBytesWith singleValueGuard T bytes

/-- What `transmute_many` and `transmute_many_mut` share, over the raw view
each of them builds: `G::check::<T>(bytes)?`, then a view of
`bytes.len() / size_of::<T>()` elements. -/
def transmuteManyWith {γ : Type} (view : Slice → Nat → Exec γ) (T : RustType α)
    (G : Guard) (bytes : Slice) : Exec (Except Error γ) := do
  match ← G.check T.size bytes.len with
  | .error e => pure (.error (.guard e))
  | .ok () => return .ok (← view bytes (← usizeDiv bytes.len T.size))

def transmuteMany (T : RustType α) (G : Guard) (bytes : Slice) :
    Exec (Except Error (List α)) :=
  transmuteManyWith (fromRawParts T) T G bytes

def transmuteManyMutRef (T : RustType α) (G : Guard) (bytes : Slice) :
    Exec (Except Error (MutSlice T)) :=
  transmuteManyWith (fromRawPartsMut T) T G bytes

/-- The values of the `&mut [T]` that `base::transmute_many_mut` returns. -/
def transmuteManyMut (T : RustType α) (G : Guard) (bytes : Slice) :
    Exec (Except Error (List α)) :=
  readMut (transmuteManyMutRef T G bytes)

def transmuteManyPermissive (T : RustType α) (bytes : Slice) : Exec (List α) := do
  expect (← transmuteMany T permissiveGuard bytes) "permissive guard should never fail"

def transmuteVec (p : Platform) (S : RustType α) (T : RustType β) (vec : Vec p S) :
    Exec (Vec p T) := do
  let capacity ← usizeDiv (p.usizeMul vec.capacity S.size) T.size
  let len ← usizeDiv (p.usizeMul vec.len S.size) T.size
  Vec.fromRawParts p T vec.allocation len capacity

/-! ## One lemma per primitive -/

section Spec

variable (T : RustType α) (G : Guard) (bytes : Slice)

theorem transmuteManyMut_eq_transmuteMany :
    transmuteManyMut T G bytes = transmuteMany T G bytes := by
  simp only [transmuteManyMut, readMut, transmuteManyMutRef, transmuteMany, transmuteManyWith]
  rcases G.check T.size bytes.len with f | e | ⟨⟩
  · rfl
  · rfl
  · rcases usizeDiv bytes.len T.size with f | n
    · rfl
    · show (fromRawPartsMut T bytes n >>= _) >>= _ = fromRawParts T bytes n >>= _
      rw [← fromRawPartsMut_bind_read]
      rcases fromRawPartsMut T bytes n with f | m <;> rfl

theorem transmuteMany_of_reject {e : GuardError}
    (h : G.check T.size bytes.len = pure (.error e)) :
    transmuteMany T G bytes = pure (.error (.guard e)) := by
  simp only [transmuteMany, transmuteManyWith, h, pure_bind]

theorem transmuteMany_zero_size (hsize : T.size = 0)
    (h : G.check T.size bytes.len = pure (.ok ())) :
    transmuteMany T G bytes = throw .divideByZero := by
  simp only [transmuteMany, transmuteManyWith, h, pure_bind]
  simp only [hsize, usizeDiv_zero]
  rfl

theorem transmuteMany_of_accepts (hsize : 0 < T.size)
    (h : G.check T.size bytes.len = pure (.ok ())) :
    transmuteMany T G bytes =
      (.ok ·) <$> fromRawParts T bytes (bytes.len / T.size) := by
  simp only [transmuteMany, transmuteManyWith, h, pure_bind, usizeDiv_of_pos hsize,
    bind_pure_comp]

theorem fromBytesWith_of_accepts (h : G.check T.size bytes.len = pure (.ok ())) :
    fromBytesWith G T bytes = (do return .ok (← index (← fromRawParts T bytes 1) 0)) := by
  simp only [fromBytesWith, h, pure_bind]

theorem fromBytesWith_of_reject {e : GuardError}
    (h : G.check T.size bytes.len = pure (.error e)) :
    fromBytesWith G T bytes = pure (.error (.guard e)) := by
  simp only [fromBytesWith, h, pure_bind]

end Spec

/-! ## When the primitives return -/

theorem transmuteMany_returns (T : RustType α) (G : Guard) (bytes : Slice)
    (hG : G.check T.size bytes.len = pure (.ok ())) :
    (0 < T.size →
      transmuteMany T G bytes = (.ok ·) <$> fromRawParts T bytes (bytes.len / T.size) ∧
      (bytes.addr % T.align = 0 →
        (∀ i < bytes.len / T.size, (T.decode (T.bytesAt bytes.bytes i)).isSome) →
        ∃ v, transmuteMany T G bytes = pure (.ok v) ∧
          transmuteManyMut T G bytes = pure (.ok v) ∧ v.length = bytes.len / T.size ∧
          transmuteManyPermissive T bytes = pure v)) ∧
    (T.size = 0 →
      transmuteMany T G bytes = throw .divideByZero ∧
      transmuteManyMut T G bytes = throw .divideByZero ∧
      transmuteManyPermissive T bytes = throw .divideByZero) := by
  refine ⟨fun hsize => ⟨transmuteMany_of_accepts T G bytes hsize hG,
    fun halign hvalid => ?_⟩, fun hsize => ?_⟩
  · obtain ⟨v, hv, hlen⟩ := fromRawParts_of_valid T halign (Nat.div_mul_le_self _ _) hvalid
    have hmany : ∀ G : Guard, G.check T.size bytes.len = pure (.ok ()) →
        transmuteMany T G bytes = pure (.ok v) := fun G hG => by
      rw [transmuteMany_of_accepts T G bytes hsize hG, hv]
      rfl
    refine ⟨v, hmany G hG, (transmuteManyMut_eq_transmuteMany T G bytes).trans (hmany G hG),
      hlen, ?_⟩
    simp only [transmuteManyPermissive, hmany permissiveGuard rfl]
    rfl
  · have hzero := transmuteMany_zero_size T permissiveGuard bytes hsize rfl
    refine ⟨transmuteMany_zero_size T G bytes hsize hG, (transmuteManyMut_eq_transmuteMany T G
      bytes).trans (transmuteMany_zero_size T G bytes hsize hG), ?_⟩
    simp only [transmuteManyPermissive, hzero]
    rfl

theorem transmuteMany_returns_u16 :
    u16Type.size ≤ [0, 1, 0, 2].length ∧
      ∃ v, transmuteMany u16Type.toRustType singleManyGuard ⟨0, [0, 1, 0, 2]⟩ =
        pure (.ok v) := by
  obtain ⟨v, hv, -⟩ := ((transmuteMany_returns u16Type.toRustType singleManyGuard
    ⟨0, [0, 1, 0, 2]⟩ rfl).1 (by decide)).2 rfl fun _ _ => rfl
  exact ⟨by decide, v, hv⟩

theorem transmuteManyPermissive_unit_divides_by_zero :
    transmuteManyPermissive unitType ⟨0, []⟩ = throw .divideByZero := rfl

end SafeTransmute.Base
