import SafeTransmute.Foundation.Memory

/-!
# Values and the bytes that store them

Reading a `T` from memory turns `size_of::<T>()` bytes into a value; storing
one, as a write through a `&mut [T]` does, puts the value's bytes in their
place.  A `StoredType` is a trivially transmutable type together with that
second direction: `toBytes x` are the bytes that hold `x`.  Every bit pattern
is a value and no two patterns are the same value, so reading and storing are
inverse.

A write through the `MutSlice` that `slice::from_raw_parts_mut` lays over a
byte buffer, `view[i] = x`, stores the bytes of `x` at element `i` of the
buffer, and panics when `i` is out of range.
-/

namespace SafeTransmute.Foundation

variable {α : Type}

/-! ## Little-endian bytes -/

def leBytes : Nat → Nat → List UInt8
  | 0, _ => []
  | w + 1, n => UInt8.ofNat (n % 256) :: leBytes w (n / 256)

@[simp] theorem length_leBytes (w n : Nat) : (leBytes w n).length = w := by
  induction w generalizing n with
  | zero => rfl
  | succ w ih => simp only [leBytes, List.length_cons, ih]

theorem leValue_lt (bytes : List UInt8) : leValue bytes < 256 ^ bytes.length := by
  induction bytes with
  | nil => exact Nat.one_pos
  | cons b bs ih =>
      have hb : b.toNat < 256 := b.toNat_lt_size
      rw [leValue, List.length_cons, Nat.pow_succ]
      omega

theorem leValue_leBytes (w n : Nat) : leValue (leBytes w n) = n % 256 ^ w := by
  induction w generalizing n with
  | zero => rw [Nat.pow_zero, Nat.mod_one]; rfl
  | succ w ih =>
      rw [leBytes, leValue, ih, Nat.pow_succ', Nat.mod_mul]
      exact congrArg (· + _) (Nat.mod_mod n 256)

theorem leBytes_leValue (bytes : List UInt8) : leBytes bytes.length (leValue bytes) = bytes := by
  induction bytes with
  | nil => rfl
  | cons b bs ih =>
      have hb : b.toNat < 256 := b.toNat_lt_size
      rw [List.length_cons, leBytes, leValue]
      congr 1
      · exact UInt8.toNat.inj (show (b.toNat + 256 * leValue bs) % 256 % 256 = b.toNat by omega)
      · rw [show (b.toNat + 256 * leValue bs) / 256 = leValue bs by omega, ih]

/-! ## Stored types -/

structure StoredType (α : Type) extends TriviallyTransmutable α where
  toBytes : α → List UInt8
  length_toBytes : ∀ x, (toBytes x).length = size
  ofBytes_toBytes : ∀ x, ofBytes (toBytes x) = x
  toBytes_ofBytes : ∀ bytes : List UInt8, bytes.length = size → toBytes (ofBytes bytes) = bytes

namespace StoredType

variable (T : StoredType α)

def replaceAt (bytes : List UInt8) (i : Nat) (x : α) : List UInt8 :=
  bytes.take (i * T.size) ++ T.toBytes x ++ bytes.drop ((i + 1) * T.size)

section ReplaceAt

variable {bytes : List UInt8} {i : Nat} (x : α)

theorem length_take_mul (h : (i + 1) * T.size ≤ bytes.length) :
    (bytes.take (i * T.size)).length = i * T.size :=
  List.length_take_of_le (le_trans (Nat.mul_le_mul_right _ (Nat.le_succ i)) h)

theorem length_take_toBytes (h : (i + 1) * T.size ≤ bytes.length) :
    (bytes.take (i * T.size) ++ T.toBytes x).length = (i + 1) * T.size := by
  rw [List.length_append, T.length_take_mul h, T.length_toBytes, Nat.succ_mul]

theorem length_replaceAt (h : (i + 1) * T.size ≤ bytes.length) :
    (T.replaceAt bytes i x).length = bytes.length := by
  rw [replaceAt, List.length_append, T.length_take_toBytes x h, List.length_drop]
  omega

theorem bytesAt_replaceAt_self (h : (i + 1) * T.size ≤ bytes.length) :
    T.bytesAt (T.replaceAt bytes i x) i = T.toBytes x := by
  rw [RustType.bytesAt, replaceAt, List.append_assoc, List.drop_left' (T.length_take_mul h),
    List.take_left' (T.length_toBytes x)]

theorem bytesAt_replaceAt_of_lt (h : (i + 1) * T.size ≤ bytes.length) {j : Nat} (hj : j < i) :
    T.bytesAt (T.replaceAt bytes i x) j = T.bytesAt bytes j := by
  rw [replaceAt, List.append_assoc,
    T.bytesAt_append_left ((T.length_take_mul h).symm ▸ Nat.mul_le_mul_right _ hj),
    T.bytesAt_take hj]

theorem bytesAt_replaceAt_of_gt (h : (i + 1) * T.size ≤ bytes.length) {j : Nat} (hj : i < j) :
    T.bytesAt (T.replaceAt bytes i x) j = T.bytesAt bytes j := by
  obtain ⟨k, rfl⟩ : ∃ k, j = i + 1 + k := ⟨j - (i + 1), by omega⟩
  rw [replaceAt, T.bytesAt_append_right (T.length_take_toBytes x h)]
  simp only [RustType.bytesAt, List.drop_drop, Nat.add_mul]

theorem bytesAt_replaceAt_of_ne (h : (i + 1) * T.size ≤ bytes.length) {j : Nat} (hj : j ≠ i) :
    T.bytesAt (T.replaceAt bytes i x) j = T.bytesAt bytes j :=
  (Nat.lt_or_gt_of_ne hj).elim (T.bytesAt_replaceAt_of_lt x h) (T.bytesAt_replaceAt_of_gt x h)

theorem drop_replaceAt (h : (i + 1) * T.size ≤ bytes.length) {n : Nat} (hi : i < n) :
    (T.replaceAt bytes i x).drop (n * T.size) = bytes.drop (n * T.size) := by
  have hle : (i + 1) * T.size ≤ n * T.size := Nat.mul_le_mul_right _ hi
  rw [replaceAt, List.drop_append_eq_append_drop, T.length_take_toBytes x h,
    List.drop_eq_nil_of_le ((T.length_take_toBytes x h).symm ▸ hle), List.nil_append,
    List.drop_drop, Nat.add_sub_cancel' hle]

end ReplaceAt

end StoredType

def u16Stored : StoredType UInt16 :=
  { u16Type with
    toBytes := fun x => leBytes 2 x.toNat
    length_toBytes := fun x => length_leBytes 2 x.toNat
    ofBytes_toBytes := fun x => UInt16.toNat.inj <| by
      have hx : x.toNat < 65536 := x.toNat_lt_size
      show leValue (leBytes 2 x.toNat) % 65536 = x.toNat
      rw [leValue_leBytes, show (256 : Nat) ^ 2 = 65536 from rfl, Nat.mod_mod,
        Nat.mod_eq_of_lt hx]
    toBytes_ofBytes := fun bytes (h : bytes.length = 2) => by
      have hlt : leValue bytes < 65536 := by
        have hlt := leValue_lt bytes
        rw [h] at hlt
        exact hlt
      show leBytes 2 (leValue bytes % 65536) = bytes
      rw [Nat.mod_eq_of_lt hlt, ← h]
      exact leBytes_leValue bytes }

/-! ## Writes through a `&mut [T]` -/

namespace MutSlice

variable {T : StoredType α}

def toList (m : MutSlice T.toRustType) : List α :=
  (List.range m.len).map fun i => T.ofBytes (T.bytesAt m.buf.bytes i)

@[simp] theorem length_toList (m : MutSlice T.toRustType) : m.toList.length = m.len := by
  simp [toList]

theorem read_eq_toList (m : MutSlice T.toRustType) : m.read = pure m.toList :=
  readValues_trivial T.toTriviallyTransmutable m.fits

def set (m : MutSlice T.toRustType) (i : Nat) (x : α) : Exec (MutSlice T.toRustType) :=
  if h : i < m.len then
    pure
      { buf := ⟨m.buf.addr, T.replaceAt m.buf.bytes i x⟩
        len := m.len
        aligned := m.aligned
        fits := m.fits.trans_eq
          (T.length_replaceAt x (le_trans (Nat.mul_le_mul_right _ h) m.fits)).symm }
  else throw (.indexOutOfBounds i m.len)

def setAll (m : MutSlice T.toRustType) : List (Nat × α) → Exec (MutSlice T.toRustType)
  | [] => pure m
  | w :: writes => m.set w.1 w.2 >>= fun m' => m'.setAll writes

structure Keeps (m m' : MutSlice T.toRustType) : Prop where
  len_eq : m'.len = m.len
  addr_eq : m'.buf.addr = m.buf.addr
  bufLen_eq : m'.buf.len = m.buf.len
  tail_eq : m'.buf.bytes.drop (m.len * T.size) = m.buf.bytes.drop (m.len * T.size)

theorem Keeps.refl (m : MutSlice T.toRustType) : Keeps m m := ⟨rfl, rfl, rfl, rfl⟩

theorem Keeps.trans {m m' m'' : MutSlice T.toRustType} (h₁ : Keeps m m') (h₂ : Keeps m' m'') :
    Keeps m m'' where
  len_eq := h₂.len_eq.trans h₁.len_eq
  addr_eq := h₂.addr_eq.trans h₁.addr_eq
  bufLen_eq := h₂.bufLen_eq.trans h₁.bufLen_eq
  tail_eq := by rw [← h₁.tail_eq, ← h₁.len_eq]; exact h₂.tail_eq

theorem set_of_lt (m : MutSlice T.toRustType) {i : Nat} (x : α) (h : i < m.len) :
    ∃ m', m.set i x = pure m' ∧ m'.toList = m.toList.set i x ∧ Keeps m m' := by
  have hle : (i + 1) * T.size ≤ m.buf.bytes.length := le_trans (Nat.mul_le_mul_right _ h) m.fits
  refine ⟨_, dif_pos h, List.ext_getElem (by simp [toList]) fun j _ _ => ?_,
    ⟨rfl, rfl, T.length_replaceAt x hle, T.drop_replaceAt x hle h⟩⟩
  simp only [toList, List.getElem_map, List.getElem_range, List.getElem_set]
  split_ifs with hij
  · rw [← hij, T.bytesAt_replaceAt_self x hle, T.ofBytes_toBytes]
  · rw [T.bytesAt_replaceAt_of_ne x hle (Ne.symm hij)]

theorem set_of_le (m : MutSlice T.toRustType) {i : Nat} (x : α) (h : m.len ≤ i) :
    m.set i x = throw (.indexOutOfBounds i m.len) :=
  dif_neg (Nat.not_lt.mpr h)

theorem setAll_of_lt (m : MutSlice T.toRustType) (writes : List (Nat × α))
    (h : ∀ w ∈ writes, w.1 < m.len) :
    ∃ m', m.setAll writes = pure m' ∧
      m'.toList = writes.foldl (fun v w => v.set w.1 w.2) m.toList ∧ Keeps m m' := by
  induction writes generalizing m with
  | nil => exact ⟨m, rfl, rfl, Keeps.refl m⟩
  | cons w writes ih =>
      obtain ⟨m₁, h₁, hlist₁, hkeep₁⟩ := m.set_of_lt w.2 (h w (List.mem_cons_self _ _))
      obtain ⟨m₂, h₂, hlist₂, hkeep₂⟩ :=
        ih m₁ fun w' hw' => hkeep₁.len_eq ▸ h w' (List.mem_cons_of_mem _ hw')
      refine ⟨m₂, by rw [setAll, h₁, pure_bind, h₂], ?_, hkeep₁.trans hkeep₂⟩
      rw [hlist₂, hlist₁, List.foldl_cons]

theorem setAll_out_of_range (m : MutSlice T.toRustType) (pre post : List (Nat × α)) {i : Nat} (x : α)
    (hpre : ∀ w ∈ pre, w.1 < m.len) (hi : m.len ≤ i) :
    m.setAll (pre ++ (i, x) :: post) = throw (.indexOutOfBounds i m.len) := by
  induction pre generalizing m with
  | nil =>
      rw [List.nil_append, setAll, m.set_of_le x hi]
      rfl
  | cons w pre ih =>
      obtain ⟨m₁, h₁, -, hkeep₁⟩ := m.set_of_lt w.2 (hpre w (List.mem_cons_self _ _))
      rw [List.cons_append, setAll, h₁, pure_bind, ← hkeep₁.len_eq]
      exact ih m₁ (fun w' hw' => hkeep₁.len_eq ▸ hpre w' (List.mem_cons_of_mem _ hw'))
        (hkeep₁.len_eq ▸ hi)

end MutSlice

end SafeTransmute.Foundation
