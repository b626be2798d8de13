import SafeTransmute.View

/-!
# The single-value path is the first element of the view

`from_bytes` reads `from_raw_parts(ptr, 1)[0]` where `transmute_many` builds
a view of `bytes.len() / size_of::<T>()` elements.  For a trivially
transmutable type that is not zero-sized the two agree on every buffer:
the single value is the first element of the view, errors and undefined
behaviour included, and trailing bytes are ignored.

`full.rs` promises that its functions are guarded against out-of-bounds and
unaligned access and report both as errors.  With the single-value path
related to the view, that promise is a theorem about the model: the checked
entry points always return, and they refine the spec's checked views.
-/

namespace SafeTransmute

open Foundation

variable {α : Type}

def firstElement (r : Except Error (List α)) : Exec (Except Error α) :=
  andThen r fun v => (.ok ·) <$> index v 0

theorem index_of_lt {xs : List α} {i : Nat} (h : i < xs.length) :
    index xs i = pure xs[i] := by
  simp [index, List.getElem?_eq_getElem h]

variable (T : TriviallyTransmutable α)

theorem bytesAt_zero (bytes : List UInt8) : T.bytesAt bytes 0 = bytes.take T.size := by
  simp [RustType.bytesAt]

theorem Base.fromBytesWith_eq_first (hsize : 0 < T.size) (G : Guard) (bytes : Slice)
    (hG : G.check T.size bytes.len = pure (.ok ()) → T.size ≤ bytes.len) :
    Base.fromBytesWith G T.toRustType bytes =
      Base.transmuteMany T.toRustType G bytes >>= firstElement := by
  rcases hc : G.check T.size bytes.len with f | e | ⟨⟩
  · simp only [Base.fromBytesWith, Base.transmuteMany, Base.transmuteManyWith, hc]
    rfl
  · rw [Base.fromBytesWith_of_reject _ _ _ hc, Base.transmuteMany_of_reject _ _ _ hc]
    rfl
  · have hle := hG hc
    rw [Base.fromBytesWith_of_accepts _ _ _ hc, Base.transmuteMany_of_accepts _ _ _ hsize hc]
    by_cases halign : bytes.addr % T.align = 0
    · have hpos : 0 < bytes.len / T.size := Nat.div_pos hle hsize
      rw [fromRawParts_trivial T halign (by simpa using hle),
        fromRawParts_trivial T halign (Nat.div_mul_le_self _ _)]
      simp [firstElement, index_of_lt, hpos]
    · rw [fromRawParts_misaligned _ halign, fromRawParts_misaligned _ halign]
      rfl

def checkedValue (G : Guard) (bytes : Slice) : Exec (Except Error α) :=
  checked T G bytes (T.ofBytes (bytes.bytes.take T.size))

theorem getElem?_zero_view {bytes : List UInt8} (hsize : 0 < T.size)
    (h : T.size ≤ bytes.length) :
    (T.view bytes)[0]? = some (T.ofBytes (bytes.take T.size)) := by
  have hpos : 0 < (T.view bytes).length := by simpa using Nat.div_pos h hsize
  rw [List.getElem?_eq_getElem hpos, T.getElem_view, bytesAt_zero]

namespace Full

theorem transmuteOne_refines (bytes : Slice) :
    transmuteOne T bytes = checkedValue T singleManyGuard bytes := by
  by_cases halign : bytes.addr % T.align = 0
  · simp only [transmuteOne, checkAlignment_of_aligned _ halign, checkedValue, checked,
      halign, ne_eq, not_true_eq_false, ↓reduceIte, transmuteTrivial, Base.fromBytes,
      Base.fromBytesWith]
    by_cases hlen : T.size ≤ bytes.len
    · rw [singleManyGuard_check_of_le hlen, pure_bind, pure_bind,
        fromRawParts_trivial T halign (by simpa using hlen),
        show List.range 1 = [0] from rfl, List.map_singleton, pure_bind, index_zero,
        bytesAt_zero]
      rfl
    · simp [singleManyGuard, Nat.lt_of_not_le hlen]
  · rw [transmuteOne_of_misaligned T halign]
    simp [checkedValue, checked, halign]

theorem transmuteOne_eq_ok_iff (bytes : Slice) (x : α) :
    transmuteOne T bytes = pure (.ok x) ↔
      bytes.addr % T.align = 0 ∧ T.size ≤ bytes.len ∧
        x = T.ofBytes (bytes.bytes.take T.size) := by
  rw [transmuteOne_refines, checkedValue, checked_eq_ok_iff, singleManyGuard_check_eq_ok]

theorem transmuteOnePedantic_eq_ok_iff (bytes : Slice) (x : α) :
    transmuteOnePedantic T bytes = pure (.ok x) ↔
      bytes.len = T.size ∧ transmuteOne T bytes = pure (.ok x) := by
  by_cases hlen : bytes.len = T.size
  · simp only [transmuteOnePedantic, hlen, singleValueGuard_check_self, pure_bind, true_and]
    rfl
  · obtain ⟨e, he⟩ : ∃ e, singleValueGuard.check T.size bytes.len = pure (.error e) := by
      simp only [singleValueGuard]
      split_ifs <;> first | exact ⟨_, rfl⟩ | omega
    simp only [transmuteOnePedantic, he, pure_bind, hlen, false_and, iff_false]
    simp [pure, Except.pure]

theorem transmuteOne_agrees (hsize : 0 < T.size) (bytes : Slice) :
    ((∃ x, transmuteOne T bytes = pure (.ok x)) ↔
        ∃ v, transmuteMany T singleManyGuard bytes = pure (.ok v)) ∧
    (∀ x v, transmuteOne T bytes = pure (.ok x) →
        transmuteMany T singleManyGuard bytes = pure (.ok v) →
        v[0]? = some x ∧ T.decode (bytes.bytes.take T.size) = some x) ∧
    ((∃ x, transmuteOnePedantic T bytes = pure (.ok x)) ↔
        ∃ v, transmuteMany T singleValueGuard bytes = pure (.ok v)) ∧
    (∀ x v, transmuteOnePedantic T bytes = pure (.ok x) →
        transmuteMany T singleValueGuard bytes = pure (.ok v) →
        v[0]? = some x ∧ T.decode (bytes.bytes.take T.size) = some x) ∧
    Base.fromBytes T.toRustType bytes =
      Base.transmuteMany T.toRustType singleManyGuard bytes >>= firstElement ∧
    Base.fromBytesPedantic T.toRustType bytes =
      Base.transmuteMany T.toRustType singleValueGuard bytes >>= firstElement := by
  have hfirst : T.size ≤ bytes.len →
      (T.view bytes.bytes)[0]? = some (T.ofBytes (bytes.bytes.take T.size)) ∧
        T.decode (bytes.bytes.take T.size) = some (T.ofBytes (bytes.bytes.take T.size)) :=
    fun h => ⟨getElem?_zero_view T hsize h, T.decode_eq _ (List.length_take_of_le h)⟩
  simp only [transmuteOnePedantic_eq_ok_iff, transmuteOne_eq_ok_iff,
    transmuteMany_eq_ok_iff T hsize, singleManyGuard_check_eq_ok,
    singleValueGuard_check_eq_ok]
  refine ⟨⟨fun ⟨_, ha, hl, _⟩ => ⟨_, ha, hl, rfl⟩, fun ⟨_, ha, hl, _⟩ => ⟨_, ha, hl, rfl⟩⟩,
    fun x v ⟨_, hl, hx⟩ ⟨_, _, hv⟩ => hx ▸ hv ▸ hfirst hl,
    ⟨fun ⟨_, hl, ha, _, _⟩ => ⟨_, ha, hl, rfl⟩, fun ⟨_, ha, hl, _⟩ => ⟨_, hl, ha, hl.ge, rfl⟩⟩,
    fun x v ⟨_, _, hl, hx⟩ ⟨_, _, hv⟩ => hx ▸ hv ▸ hfirst hl,
    Base.fromBytesWith_eq_first T hsize _ bytes singleManyGuard_check_eq_ok.mp,
    Base.fromBytesWith_eq_first T hsize _ bytes
      fun h => (singleValueGuard_check_eq_ok.mp h).ge⟩

theorem transmuteOne_agrees_u16 :
    0 < u16Type.size ∧ ∃ x, transmuteOnePedantic u16Type ⟨0, [0x0F, 0x0E]⟩ = pure (.ok x) :=
  ⟨by decide, (transmuteOne_agrees u16Type (by decide) _).2.2.1.mpr
    ⟨_, (transmuteMany_eq_ok_iff u16Type (by decide) _ _ _).mpr ⟨rfl, rfl, rfl⟩⟩⟩

/-! ## The checked entry points never stop -/

/-- No checked entry point panics or reads memory it may not: the single-value
ones for every trivially transmutable target, the many-element ones for every
target that is not zero-sized. -/
theorem checked_entry_points_return (bytes : Slice) :
    (∃ r, transmuteOne T bytes = pure r) ∧
    (∃ r, transmuteOnePedantic T bytes = pure r) ∧
    (0 < T.size → ∀ P : GuardPolicy,
      (∃ r, transmuteMany T P.guard bytes = pure r) ∧
      (∃ r, transmuteManyMut T P.guard bytes = pure r)) := by
  have hone : ∃ r, transmuteOne T bytes = pure r := by
    rw [transmuteOne_refines]
    exact checked_returns T _ ⟨_, rfl⟩
  refine ⟨hone, ?_, fun hsize P => ?_⟩
  · unfold transmuteOnePedantic
    simp only [singleValueGuard, pure_bind]
    split_ifs
    · exact ⟨_, rfl⟩
    · exact ⟨_, rfl⟩
    · exact hone
  · rw [transmuteManyMut_eq_transmuteMany, and_self, transmuteMany_refines T hsize]
    exact checked_returns T _ (P.check_returns hsize _)

theorem checked_entry_points_return_u16 :
    0 < u16Type.size ∧ ∃ r, transmuteMany u16Type GuardPolicy.pedantic.guard ⟨1, [0]⟩ = pure r :=
  ⟨by decide, ((checked_entry_points_return u16Type ⟨1, [0]⟩).2.2 (by decide) _).1⟩

theorem entry_points_refine (hsize : 0 < T.size) (G : Guard) (bytes : Slice) :
    transmuteMany T G bytes = checkedView T G bytes ∧
    transmuteManyMut T G bytes = checkedView T G bytes ∧
    transmuteOne T bytes = checkedValue T singleManyGuard bytes :=
  ⟨transmuteMany_refines T hsize G bytes,
    (transmuteManyMut_eq_transmuteMany T G bytes).trans (transmuteMany_refines T hsize G bytes),
    transmuteOne_refines T bytes⟩

theorem entry_points_refine_u16 :
    0 < u16Type.size ∧ transmuteMany u16Type permissiveGuard ⟨0, [1]⟩ =
      checkedView u16Type permissiveGuard ⟨0, [1]⟩ :=
  ⟨by decide, (entry_points_refine u16Type (by decide) _ _).1⟩

end Full

end SafeTransmute
