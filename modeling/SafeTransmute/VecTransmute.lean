import SafeTransmute.Full

/-!
# Reusing a vector's block for another element type

`base::transmute_vec` rescales the capacity and the length by
`* size_of::<S>() / size_of::<T>()` in `usize` arithmetic and rebuilds the
vector with `Vec::from_raw_parts`; `full::transmute_vec` refuses element types
of different layouts and passes the raw parts on unchanged.  For a type that
is not zero-sized the products cannot wrap, because the block of a vector is
at most `isize::MAX` bytes, and the rescaling gives back the raw parts.  For
a zero-sized type it divides by zero.
-/

namespace SafeTransmute

open Foundation

variable {α β : Type} {p : Platform}

theorem Foundation.TriviallyTransmutable.decode_bytesAt_isSome
    (T : TriviallyTransmutable α) {data : List UInt8} {n : Nat}
    (h : data.length = n * T.size) (i : Nat) (hi : i < n) :
    (T.decode (T.bytesAt data i)).isSome := by
  rw [T.decode_eq _ (T.length_bytesAt (h ▸ Nat.mul_le_mul_right _ hi))]
  rfl

namespace Foundation.Vec

variable {S : RustType α} {T : RustType β} (v : Vec p S)

theorem usizeMul_capacity : p.usizeMul v.capacity S.size = v.capacity * S.size :=
  p.usizeMul_of_le (le_trans v.alloc_le p.isizeMax_lt_usizeMax.le)

theorem usizeMul_len : p.usizeMul v.len S.size = v.len * S.size :=
  p.usizeMul_of_le (le_trans (Nat.mul_le_mul_right _ v.len_le)
    (le_trans v.alloc_le p.isizeMax_lt_usizeMax.le))

theorem rawPartsValid_allocation (hsize : S.size = T.size) (halign : S.align = T.align)
    (hvalid : ∀ i < v.len, (T.decode (T.bytesAt v.data i)).isSome) :
    RawPartsValid p T v.allocation v.len v.capacity :=
  ⟨v.ptr_pos, halign ▸ v.ptr_aligned, fun _ _ => ⟨halign.symm, by rw [allocation, hsize]⟩,
    hsize ▸ v.alloc_le, v.len_le, v.capacity_le, by rw [allocation, v.data_length, hsize], hvalid⟩

theorem fromRawParts_allocation (hsize : S.size = T.size) (halign : S.align = T.align)
    (hvalid : ∀ i < v.len, (T.decode (T.bytesAt v.data i)).isSome) :
    ∃ w, fromRawParts p T v.allocation v.len v.capacity = pure w ∧ w.raw = v.raw := by
  refine ⟨_, dif_pos (v.rawPartsValid_allocation hsize halign hvalid), ?_⟩
  simp only [raw, allocation, RawVec.mk.injEq, true_and]
  constructor
  · split
    · exact (v.zst_capacity (hsize ▸ ‹_›)).symm
    · rfl
  · exact List.take_of_length_le (by rw [v.data_length, hsize])

end Foundation.Vec

namespace Base

variable {S : RustType α} {T : RustType β} (v : Vec p S)

theorem transmuteVec_of_pos (hT : 0 < T.size) :
    transmuteVec p S T v = Vec.fromRawParts p T v.allocation
      (v.len * S.size / T.size) (v.capacity * S.size / T.size) := by
  simp only [transmuteVec, v.usizeMul_capacity, v.usizeMul_len, usizeDiv_of_pos hT, pure_bind]

theorem transmuteVec_eq (hsize : S.size = T.size) (hpos : 0 < S.size) :
    transmuteVec p S T v = Vec.fromRawParts p T v.allocation v.len v.capacity := by
  rw [transmuteVec_of_pos v (hsize ▸ hpos), ← hsize, Nat.mul_div_cancel _ hpos,
    Nat.mul_div_cancel _ hpos]

theorem transmuteVec_zero_size (hT : T.size = 0) :
    transmuteVec p S T v = throw .divideByZero := by
  simp only [transmuteVec, hT, usizeDiv_zero]
  rfl

end Base

namespace Full

variable (S : TriviallyTransmutable α) (T : TriviallyTransmutable β) (v : Vec p S.toRustType)

theorem transmuteVec_of_incompatible (h : S.align ≠ T.align ∨ S.size ≠ T.size) :
    transmuteVec p S T v = pure (.error (.incompatibleVecTarget ⟨v.raw⟩)) :=
  if_pos h

theorem transmuteVec_of_compatible (halign : S.align = T.align) (hsize : S.size = T.size) :
    transmuteVec p S T v =
      (.ok ·) <$> Vec.fromRawParts p T.toRustType v.allocation v.len v.capacity := by
  rw [transmuteVec, if_neg (by simp [halign, hsize])]
  simp only [bind_pure_comp]

end Full

def oneByteVec : Vec Platform.bits64 u8Type.toRustType where
  ptr := 16
  len := 1
  capacity := 1
  data := [7]
  ptr_pos := by decide
  ptr_aligned := rfl
  len_le := Nat.le_refl 1
  capacity_le := by decide
  alloc_le := by decide
  zst_capacity := by decide
  data_length := rfl
  data_valid := by decide

theorem transmuteVec_rescaling (p : Platform) :
    (∀ (S : RustType α) (T : RustType β) (v : Vec p S),
      S.size = T.size → S.align = T.align → 0 < S.size →
      (∀ i < v.len, (T.decode (T.bytesAt v.data i)).isSome) →
      p.usizeMul v.capacity S.size = v.capacity * S.size ∧
      p.usizeMul v.len S.size = v.len * S.size ∧
      ∃ w, Base.transmuteVec p S T v = pure w ∧ w.raw = v.raw ∧
        Base.transmuteVec p T S w = pure v) ∧
    (∀ (S : RustType α) (T : RustType β) (v : Vec p S),
      T.size = 0 → Base.transmuteVec p S T v = throw .divideByZero) ∧
    (∀ (S : TriviallyTransmutable α) (T : TriviallyTransmutable β)
      (v : Vec p S.toRustType) (w : Vec p T.toRustType), 0 < S.size →
      Full.transmuteVec p S T v = pure (.ok w) →
      Base.transmuteVec p S.toRustType T.toRustType v = pure w) := by
  refine ⟨fun S T v hsize halign hpos hvalid => ?_,
    fun S T v hT => Base.transmuteVec_zero_size v hT, fun S T v w hpos hw => ?_⟩
  · obtain ⟨w, hw, hraw⟩ := v.fromRawParts_allocation hsize halign hvalid
    refine ⟨v.usizeMul_capacity, v.usizeMul_len, w, by rw [Base.transmuteVec_eq v hsize hpos, hw],
      hraw, ?_⟩
    have hdata : w.data = v.data := congrArg RawVec.data hraw
    have hlen : w.len = v.len := congrArg RawVec.len hraw
    obtain ⟨u, hu, hback⟩ := w.fromRawParts_allocation hsize.symm halign.symm
      (hdata ▸ hlen ▸ v.data_valid)
    rw [Base.transmuteVec_eq w hsize.symm (hsize ▸ hpos), hu, Vec.ext_raw (hback.trans hraw)]
  · by_cases hcompat : S.align = T.align ∧ S.size = T.size
    · rw [Full.transmuteVec_of_compatible S T v hcompat.1 hcompat.2] at hw
      rw [Base.transmuteVec_eq v hcompat.2 hpos]
      revert hw
      cases Vec.fromRawParts p T.toRustType v.allocation v.len v.capacity <;>
        simp [Functor.map, Except.map, pure, Except.pure]
    · rw [Full.transmuteVec_of_incompatible S T v (by tauto)] at hw
      cases hw

theorem transmuteVec_rescaling_u8 :
    u8Type.size = i8Type.size ∧ u8Type.align = i8Type.align ∧ 0 < u8Type.size ∧
      (∀ i < oneByteVec.len, (i8Type.decode (i8Type.bytesAt oneByteVec.data i)).isSome) ∧
      ∃ w, Base.transmuteVec Platform.bits64 u8Type.toRustType i8Type.toRustType oneByteVec =
        pure w ∧ w.raw = oneByteVec.raw := by
  obtain ⟨-, -, w, hw, hraw, -⟩ := (transmuteVec_rescaling Platform.bits64).1
    u8Type.toRustType i8Type.toRustType oneByteVec rfl rfl (by decide) (by decide)
  exact ⟨rfl, rfl, by decide, by decide, w, hw, hraw⟩

theorem transmuteVec_there_and_back (S : TriviallyTransmutable α)
    (T : TriviallyTransmutable β) (v : Vec p S.toRustType) (w : Vec p T.toRustType)
    (h : Full.transmuteVec p S T v = pure (.ok w)) :
    w.raw = v.raw ∧ Full.transmuteVec p T S w = pure (.ok v) := by
  by_cases hcompat : S.align = T.align ∧ S.size = T.size
  · obtain ⟨halign, hsize⟩ := hcompat
    obtain ⟨w', hw', hraw⟩ := v.fromRawParts_allocation hsize halign
      (T.decode_bytesAt_isSome (hsize ▸ v.data_length))
    rw [Full.transmuteVec_of_compatible S T v halign hsize, hw'] at h
    obtain rfl : w' = w := by cases h; rfl
    obtain ⟨u, hu, hback⟩ := w'.fromRawParts_allocation hsize.symm halign.symm
      (S.decode_bytesAt_isSome (hsize.symm ▸ w'.data_length))
    refine ⟨hraw, ?_⟩
    rw [Full.transmuteVec_of_compatible T S w' halign.symm hsize.symm, hu,
      Vec.ext_raw (hback.trans hraw)]
    rfl
  · rw [Full.transmuteVec_of_incompatible S T v (by tauto)] at h
    cases h

theorem transmuteVec_there_and_back_u8_i8 :
    ∃ w, Full.transmuteVec Platform.bits64 u8Type i8Type oneByteVec = pure (.ok w) ∧
      w.raw = oneByteVec.raw ∧
      Full.transmuteVec Platform.bits64 i8Type u8Type w = pure (.ok oneByteVec) :=
  ⟨_, rfl, transmuteVec_there_and_back u8Type i8Type oneByteVec _ rfl⟩

theorem transmuteVec_unit_divides_by_zero :
    Base.transmuteVec Platform.bits64 unitType unitType (Vec.new _ unitType) =
      throw .divideByZero := rfl

end SafeTransmute
