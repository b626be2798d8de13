import SafeTransmute.Full
import SafeTransmute.Foundation.Stored

/-!
# What a checked view is

The spec's view of a byte buffer as `T` values: the values of its whole
`size_of::<T>()`-byte chunks in order, with the trailing bytes that fill no
chunk left out.  `checkedView` is the spec's checked many-element entry
point: the alignment check, then the guard, then the view.  The code's
`full::transmute_many` refines it for every trivially transmutable type that
is not zero-sized, and the `&mut [T]` of `full::transmute_many_mut` holds
the same values.  That slice is the buffer itself: what is written through it
is what `full::transmute_many` then views.
-/

namespace SafeTransmute

open Foundation

variable {α : Type}

namespace Foundation.TriviallyTransmutable

variable (T : TriviallyTransmutable α)

def view (bytes : List UInt8) : List α :=
  (List.range (bytes.length / T.size)).map fun i => T.ofBytes (T.bytesAt bytes i)

@[simp] theorem length_view (bytes : List UInt8) :
    (T.view bytes).length = bytes.length / T.size := by
  simp [view]

theorem getElem_view {bytes : List UInt8} {i : Nat} (h : i < (T.view bytes).length) :
    (T.view bytes)[i] = T.ofBytes (T.bytesAt bytes i) := by
  simp [view]

theorem succ_mul_le_of_lt_view (hsize : 0 < T.size) {bytes : List UInt8} {i : Nat}
    (h : i < (T.view bytes).length) : (i + 1) * T.size ≤ bytes.length := by
  rw [length_view] at h
  exact (Nat.le_div_iff_mul_le hsize).mp h

theorem view_append (hsize : 0 < T.size) (bytes rest : List UInt8) :
    T.view (bytes ++ rest) = T.view bytes ++
      (List.range ((bytes ++ rest).length / T.size - bytes.length / T.size)).map
        fun j => T.ofBytes (T.bytesAt (bytes ++ rest) (bytes.length / T.size + j)) := by
  have hle : bytes.length / T.size ≤ (bytes ++ rest).length / T.size :=
    Nat.div_le_div_right (by simp)
  unfold view
  rw [← Nat.add_sub_cancel' hle, List.range_add, List.map_append, List.map_map,
    Nat.add_sub_cancel_left]
  congr 1
  refine List.map_congr_left fun i hi => ?_
  rw [T.bytesAt_append_left ((Nat.le_div_iff_mul_le hsize).mp (List.mem_range.mp hi))]

theorem view_append_of_dvd (hsize : 0 < T.size) {bytes : List UInt8}
    (h : T.size ∣ bytes.length) (rest : List UInt8) :
    T.view (bytes ++ rest) = T.view bytes ++ T.view rest := by
  obtain ⟨k, hk⟩ := h
  have hlen : bytes.length = k * T.size := by rw [hk, Nat.mul_comm]
  rw [T.view_append hsize]
  congr 1
  have hdiv : (bytes ++ rest).length / T.size = k + rest.length / T.size := by
    rw [List.length_append, hlen, Nat.add_comm, Nat.add_mul_div_right _ _ hsize,
      Nat.add_comm]
  simp only [view, hdiv, hlen, Nat.mul_div_cancel _ hsize, Nat.add_sub_cancel_left,
    T.bytesAt_append_right hlen]

theorem view_prefix (hsize : 0 < T.size) (bytes rest : List UInt8) :
    T.view bytes <+: T.view (bytes ++ rest) := by
  rw [T.view_append hsize]
  exact List.prefix_append _ _

end Foundation.TriviallyTransmutable

theorem Foundation.MutSlice.toList_eq_view {T : StoredType α} (m : MutSlice T.toRustType)
    (h : m.len = m.buf.len / T.size) : m.toList = T.view m.buf.bytes := by
  rw [MutSlice.toList, h]
  rfl

def checked {β : Type} (T : TriviallyTransmutable α) (G : Guard) (bytes : Slice)
    (result : β) : Exec (Except Error β) :=
  if bytes.addr % T.align ≠ 0 then
    pure (.error (.unaligned ⟨bytes.addr % T.align, bytes⟩))
  else do
    match ← G.check T.size bytes.len with
    | .error e => pure (.error (.guard e))
    | .ok () => pure (.ok result)

def checkedView (T : TriviallyTransmutable α) (G : Guard) (bytes : Slice) :
    Exec (Except Error (List α)) :=
  checked T G bytes (T.view bytes.bytes)

theorem checked_eq_ok_iff {β : Type} (T : TriviallyTransmutable α) (G : Guard)
    (bytes : Slice) (result x : β) :
    checked T G bytes result = pure (.ok x) ↔
      bytes.addr % T.align = 0 ∧ G.check T.size bytes.len = pure (.ok ()) ∧
        x = result := by
  unfold checked
  by_cases halign : bytes.addr % T.align = 0
  · simp only [halign, ne_eq, not_true_eq_false, ↓reduceIte, true_and]
    rcases G.check T.size bytes.len with f | e | ⟨⟩ <;>
      simp [bind, Except.bind, pure, Except.pure, eq_comm]
  · simp [halign, pure, Except.pure]

theorem checked_returns {β : Type} (T : TriviallyTransmutable α) {G : Guard}
    {bytes : Slice} (result : β) (hG : ∃ r, G.check T.size bytes.len = pure r) :
    ∃ r, checked T G bytes result = pure r := by
  obtain ⟨r, hr⟩ := hG
  unfold checked
  split_ifs
  · exact ⟨_, rfl⟩
  · rw [hr, pure_bind]
    rcases r with e | ⟨⟩ <;> exact ⟨_, rfl⟩

namespace Full

variable (T : TriviallyTransmutable α)

theorem transmuteMany_refines (hsize : 0 < T.size) (G : Guard) (bytes : Slice) :
    transmuteMany T G bytes = checkedView T G bytes := by
  by_cases halign : bytes.addr % T.align = 0
  · have hview : fromRawParts T.toRustType bytes (bytes.len / T.size) =
        pure (T.view bytes.bytes) :=
      fromRawParts_trivial T halign (Nat.div_mul_le_self _ _)
    simp only [transmuteMany, checkAlignment_of_aligned _ halign, transmuteTrivialMany,
      Base.transmuteMany, Base.transmuteManyWith, checkedView, checked, halign, ne_eq,
      not_true_eq_false, ↓reduceIte]
    congr 1
    funext r
    rcases r with e | ⟨⟩
    · rfl
    · simp [usizeDiv_of_pos hsize, hview]
  · rw [transmuteMany_of_misaligned T G halign]
    simp [checkedView, checked, halign]

theorem transmuteManyMut_eq_transmuteMany (G : Guard) (bytes : Slice) :
    transmuteManyMut T G bytes = transmuteMany T G bytes := by
  by_cases halign : bytes.addr % T.align = 0
  · simp only [transmuteManyMut, transmuteManyMutRef, transmuteMany,
      checkAlignment_of_aligned _ halign, checkAlignmentMut_of_aligned _ halign,
      Except.mapError, andThen_ok]
    exact Base.transmuteManyMut_eq_transmuteMany _ _ _
  · rw [transmuteMany_of_misaligned T G halign, transmuteManyMut_of_misaligned T G halign]

theorem transmuteMany_eq_ok_iff (hsize : 0 < T.size) (G : Guard) (bytes : Slice)
    (v : List α) :
    transmuteMany T G bytes = pure (.ok v) ↔
      bytes.addr % T.align = 0 ∧ G.check T.size bytes.len = pure (.ok ()) ∧
        v = T.view bytes.bytes := by
  rw [transmuteMany_refines T hsize, checkedView, checked_eq_ok_iff]

/-- The contract of the checked many-element views. -/
theorem transmuteMany_contract (T : TriviallyTransmutable α) (hsize : 0 < T.size)
    (G : Guard) (bytes : Slice) :
    ((∃ v, transmuteMany T G bytes = pure (.ok v)) ↔
        bytes.addr % T.align = 0 ∧ G.check T.size bytes.len = pure (.ok ())) ∧
    (∀ v, transmuteMany T G bytes = pure (.ok v) →
        v.length = bytes.len / T.size ∧
        v.length * T.size + bytes.len % T.size = bytes.len ∧
        ∀ (i : Nat) (h : i < v.length), (i + 1) * T.size ≤ bytes.len ∧
          T.decode (T.bytesAt bytes.bytes i) = some v[i]) ∧
    transmuteManyMut T G bytes = transmuteMany T G bytes ∧
    transmuteManyPermissive T bytes = transmuteMany T permissiveGuard bytes ∧
    transmuteManyPermissiveMut T bytes = transmuteMany T permissiveGuard bytes ∧
    transmuteManyPedantic T bytes = transmuteMany T pedanticGuard bytes ∧
    transmuteManyPedanticMut T bytes = transmuteMany T pedanticGuard bytes := by
  refine ⟨?_, fun v hv => ?_, transmuteManyMut_eq_transmuteMany T G bytes, rfl,
    transmuteManyMut_eq_transmuteMany T _ bytes, rfl,
    transmuteManyMut_eq_transmuteMany T _ bytes⟩
  · simp only [transmuteMany_eq_ok_iff T hsize]
    exact ⟨fun ⟨_, ha, hg, _⟩ => ⟨ha, hg⟩, fun ⟨ha, hg⟩ => ⟨_, ha, hg, rfl⟩⟩
  rw [transmuteMany_eq_ok_iff T hsize] at hv
  obtain ⟨-, -, rfl⟩ := hv
  refine ⟨T.length_view _, by rw [T.length_view]; exact Nat.div_add_mod' _ _,
    fun i h => ⟨T.succ_mul_le_of_lt_view hsize h, ?_⟩⟩
  rw [T.getElem_view, T.decode_eq _ (T.length_bytesAt (T.succ_mul_le_of_lt_view hsize h))]

theorem transmuteMany_contract_u16 :
    0 < u16Type.size ∧
      ∃ v, transmuteMany u16Type pedanticGuard ⟨0, [0, 1, 0, 2]⟩ = pure (.ok v) :=
  ⟨by decide,
    (transmuteMany_contract u16Type (by decide) pedanticGuard _).1.mpr ⟨rfl, rfl⟩⟩

theorem guarded_view_lengths (hsize : 0 < T.size) (bytes : Slice) (v : List α) :
    (transmuteManyPedantic T bytes = pure (.ok v) → v.length * T.size = bytes.len) ∧
    (transmuteMany T singleValueGuard bytes = pure (.ok v) → v.length = 1) ∧
    (transmuteMany T singleManyGuard bytes = pure (.ok v) → 1 ≤ v.length) := by
  simp only [transmuteManyPedantic, transmuteMany_eq_ok_iff T hsize,
    pedanticGuard_check_eq_ok hsize, singleValueGuard_check_eq_ok,
    singleManyGuard_check_eq_ok]
  refine ⟨fun ⟨_, h, hv⟩ => ?_, fun ⟨_, h, hv⟩ => ?_, fun ⟨_, h, hv⟩ => ?_⟩ <;>
    rw [hv, T.length_view]
  · exact Nat.div_mul_cancel (Nat.dvd_of_mod_eq_zero h)
  · rw [show bytes.bytes.length = T.size from h, Nat.div_self hsize]
  · exact (Nat.le_div_iff_mul_le hsize).mpr (by simpa using h)

theorem guarded_view_lengths_u16 :
    0 < u16Type.size ∧
      transmuteManyPedantic u16Type ⟨0, [0, 1, 0, 2]⟩ = pure (.ok [256, 512]) ∧
      [256, 512].length * u16Type.size = 4 :=
  ⟨by decide, rfl, (guarded_view_lengths u16Type (by decide) ⟨0, [0, 1, 0, 2]⟩ _).1 rfl⟩

theorem transmuteMany_eq_validate (hsize : 0 < T.size) (P : GuardPolicy) (bytes : Slice)
    (halign : bytes.addr % T.align = 0) :
    transmuteMany T P.guard bytes =
      pure (match P.validate bytes.len T.size with
        | .ok n => .ok ((T.view bytes.bytes).take n)
        | .error e => .error (.guard e)) := by
  obtain ⟨r, hr⟩ := P.check_returns hsize bytes.len
  rw [transmuteMany_refines T hsize, checkedView, checked, if_neg (not_not.mpr halign), hr,
    pure_bind, P.validate_of_check hsize hr]
  rcases r with e | ⟨⟩
  · rfl
  · have hview : (T.view bytes.bytes).take (bytes.len / T.size) = T.view bytes.bytes :=
      List.take_of_length_le (T.length_view _).le
    simp only [Except.map, hview]

theorem transmuteMany_eq_validate_u16 :
    0 < u16Type.size ∧ 0 % u16Type.align = 0 ∧
      transmuteMany u16Type GuardPolicy.singleValue.guard ⟨0, [0, 1, 0]⟩ =
        pure (match GuardPolicy.singleValue.validate 3 u16Type.size with
          | .ok n => .ok ((u16Type.view [0, 1, 0]).take n)
          | .error e => .error (.guard e)) :=
  ⟨by decide, by decide, transmuteMany_eq_validate u16Type (by decide) _ _ (by decide)⟩

/-! ## The permissive view -/

theorem transmuteManyPermissive_of_aligned (hsize : 0 < T.size) {bytes : Slice}
    (h : bytes.addr % T.align = 0) :
    transmuteManyPermissive T bytes = pure (.ok (T.view bytes.bytes)) := by
  rw [transmuteManyPermissive, transmuteMany_refines T hsize]
  simp [checkedView, checked, h]

theorem transmuteManyPermissive_eq (hsize : 0 < T.size) (bytes : Slice) :
    transmuteManyPermissive T bytes =
      if bytes.addr % T.align = 0 then pure (.ok (T.view bytes.bytes))
      else pure (.error (.unaligned ⟨bytes.addr % T.align, bytes⟩)) := by
  split_ifs with h
  · exact transmuteManyPermissive_of_aligned T hsize h
  · exact transmuteMany_of_misaligned T _ h

theorem transmuteManyPermissive_eq_u16 :
    0 < u16Type.size ∧ transmuteManyPermissive u16Type ⟨0, [7]⟩ =
      if 0 % u16Type.align = 0 then pure (.ok (u16Type.view [7]))
      else pure (.error (.unaligned ⟨0 % u16Type.align, ⟨0, [7]⟩⟩)) :=
  ⟨by decide, transmuteManyPermissive_eq u16Type (by decide) _⟩

theorem transmuteManyPermissive_append (hsize : 0 < T.size) (addr : Nat)
    (haddr : addr % T.align = 0) :
    (∀ bytes rest : List UInt8, T.size ∣ bytes.length →
      ∃ v w, transmuteManyPermissive T ⟨addr, bytes⟩ = pure (.ok v) ∧
        transmuteManyPermissive T ⟨addr + bytes.length, rest⟩ = pure (.ok w) ∧
        transmuteManyPermissive T ⟨addr, bytes ++ rest⟩ = pure (.ok (v ++ w))) ∧
    (∀ bytes rest : List UInt8, T.size ∣ bytes.length → rest.length < T.size →
      transmuteManyPermissive T ⟨addr, bytes ++ rest⟩ =
        transmuteManyPermissive T ⟨addr, bytes⟩) ∧
    (∀ (bytes rest : List UInt8) (v w : List α),
      transmuteManyPermissive T ⟨addr, bytes⟩ = pure (.ok v) →
      transmuteManyPermissive T ⟨addr, bytes ++ rest⟩ = pure (.ok w) → v <+: w) := by
  have hview : ∀ bytes : List UInt8,
      transmuteManyPermissive T ⟨addr, bytes⟩ = pure (.ok (T.view bytes)) :=
    fun _ => transmuteManyPermissive_of_aligned T hsize haddr
  refine ⟨fun bytes rest h => ?_, fun bytes rest h hrest => ?_, fun bytes rest v w hv hw => ?_⟩
  · have hnext : (addr + bytes.length) % T.align = 0 :=
      Nat.mod_eq_zero_of_dvd (Nat.dvd_add (Nat.dvd_of_mod_eq_zero haddr)
        (Nat.dvd_trans T.align_dvd h))
    exact ⟨_, _, hview bytes, transmuteManyPermissive_of_aligned T hsize hnext,
      by rw [hview, T.view_append_of_dvd hsize h]⟩
  · have hnil : T.view rest = [] :=
      List.eq_nil_of_length_eq_zero (by rw [T.length_view, Nat.div_eq_of_lt hrest])
    rw [hview, hview, T.view_append_of_dvd hsize h, hnil, List.append_nil]
  · rw [hview] at hv hw
    cases hv
    cases hw
    exact T.view_prefix hsize _ _

theorem transmuteManyPermissive_append_u16 :
    0 < u16Type.size ∧ 0 % u16Type.align = 0 ∧
      ∃ v w, transmuteManyPermissive u16Type ⟨0, [1, 2]⟩ = pure (.ok v) ∧
        transmuteManyPermissive u16Type ⟨0 + [1, 2].length, [3]⟩ = pure (.ok w) ∧
        transmuteManyPermissive u16Type ⟨0, [1, 2] ++ [3]⟩ = pure (.ok (v ++ w)) :=
  ⟨by decide, by decide,
    (transmuteManyPermissive_append u16Type (by decide) 0 (by decide)).1 _ _ (by decide)⟩

/-! ## Writing through the mutable view -/

/-- The `&mut [T]` that `full::transmute_many_mut` returns is laid over the
buffer itself, and the writes made through it land in the buffer. -/
theorem writes_through_view (T : StoredType α) (hsize : 0 < T.size) (G : Guard)
    (bytes : Slice) (halign : bytes.addr % T.align = 0)
    (hG : G.check T.size bytes.len = pure (.ok ())) :
    ∃ view : MutSlice T.toRustType,
      transmuteManyMutRef T.toTriviallyTransmutable G bytes = pure (.ok view) ∧
      view.buf = bytes ∧ view.len = bytes.len / T.size ∧
      (∀ writes : List (Nat × α), (∀ w ∈ writes, w.1 < view.len) →
        ∃ m, view.setAll writes = pure m ∧
          m.buf.addr = bytes.addr ∧ m.buf.len = bytes.len ∧
          m.buf.bytes.drop (view.len * T.size) = bytes.bytes.drop (view.len * T.size) ∧
          transmuteMany T.toTriviallyTransmutable G m.buf =
            pure (.ok (writes.foldl (fun v w => v.set w.1 w.2) (T.view bytes.bytes)))) ∧
      (∀ (pre post : List (Nat × α)) (i : Nat) (x : α),
        (∀ w ∈ pre, w.1 < view.len) → view.len ≤ i →
        view.setAll (pre ++ (i, x) :: post) = throw (.indexOutOfBounds i view.len)) := by
  have hfits : bytes.len / T.size * T.size ≤ bytes.len := Nat.div_mul_le_self _ _
  refine ⟨⟨bytes, bytes.len / T.size, halign, hfits⟩, ?_, rfl, rfl, fun writes hw => ?_,
    fun pre post i x hpre hi => MutSlice.setAll_out_of_range _ pre post x hpre hi⟩
  · simp only [transmuteManyMutRef, checkAlignmentMut_of_aligned _ halign, Except.mapError,
      andThen_ok, transmuteTrivialManyMut, Base.transmuteManyMutRef, Base.transmuteManyWith, hG,
      pure_bind, usizeDiv_of_pos hsize, fromRawPartsMut_trivial T.toTriviallyTransmutable halign
        hfits]
  · obtain ⟨m, hm, hlist, hkeep⟩ := MutSlice.setAll_of_lt _ writes hw
    refine ⟨m, hm, hkeep.addr_eq, hkeep.bufLen_eq, hkeep.tail_eq, ?_⟩
    rw [transmuteMany_eq_ok_iff _ hsize, hkeep.bufLen_eq]
    refine ⟨m.aligned, hG, ?_⟩
    rw [← m.toList_eq_view (by rw [hkeep.len_eq, hkeep.bufLen_eq]), hlist]
    rfl

theorem writes_through_view_u16 :
    0 < u16Stored.size ∧ 0 % u16Stored.align = 0 ∧
      pedanticGuard.check u16Stored.size (Slice.len ⟨0, [0, 1, 0, 2]⟩) = pure (.ok ()) ∧
      ∃ view : MutSlice u16Stored.toRustType,
        transmuteManyMutRef u16Stored.toTriviallyTransmutable pedanticGuard ⟨0, [0, 1, 0, 2]⟩ =
          pure (.ok view) ∧ view.buf = ⟨0, [0, 1, 0, 2]⟩ :=
  ⟨by decide, by decide, rfl,
    (writes_through_view u16Stored (by decide) pedanticGuard ⟨0, [0, 1, 0, 2]⟩ (by decide)
      rfl).imp fun _ h => ⟨h.1, h.2.1⟩⟩

end Full

end SafeTransmute
