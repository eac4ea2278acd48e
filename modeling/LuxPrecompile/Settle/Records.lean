import LuxPrecompile.Settle.State

/-!
# Records read back

Market and position records are spread over several words, one of them packed.
Loading a record after storing it gives the record back, and no store touches the
words of another record.
-/

namespace LuxPrecompile.Settle

open Evm Support

/-! ## Packed words -/

@[simp]
theorem putInt24_length (v : ℤ) : (putInt24 v).length = 3 := natToBytes_length _ _

theorem decodeInt24_putInt24 {v : ℤ} (hlo : -2 ^ 23 ≤ v) (hhi : v < 2 ^ 23) :
    decodeInt24 (putInt24 v) = v := by
  have hlt : (v % 2 ^ 24).toNat < 256 ^ 3 := by omega
  rw [decodeInt24, putInt24, bytesToNat_natToBytes hlt]
  split_ifs with hsign
  · omega
  · omega

/-! ## Market records -/

/-- The records `initialize` can build, as far as their encoding is concerned. -/
structure MarketRecord.Storable (rec' : MarketRecord) : Prop where
  active : rec'.status = .active
  price : rec'.sqrtPriceX96 < 2 ^ 256
  tick : -2 ^ 23 ≤ rec'.tick ∧ rec'.tick < 2 ^ 23
  fee : rec'.fee < 2 ^ 24
  spacing : -2 ^ 23 ≤ rec'.tickSpacing ∧ rec'.tickSpacing < 2 ^ 23

/-- The five words of a market record. -/
def MarketRecord.word (rec' : MarketRecord) : MarketField → Word
  | .packed => rec'.packed
  | .price => BitVec.ofNat 256 rec'.sqrtPriceX96
  | .currency0 => addressWord rec'.currency0
  | .currency1 => addressWord rec'.currency1
  | .creator => addressWord rec'.creator

theorem storeMarket_ok {st st' : Storage} {poolID : Word} {rec' : MarketRecord}
    (h : storeMarket st poolID rec' = .ok st') :
    rec'.sqrtPriceX96 < 2 ^ 256 ∧
      st' = ((((st.set (.market poolID .packed) rec'.packed).set (.market poolID .price)
        (BitVec.ofNat 256 rec'.sqrtPriceX96)).set (.market poolID .currency0)
        (addressWord rec'.currency0)).set (.market poolID .currency1)
        (addressWord rec'.currency1)).set (.market poolID .creator)
        (addressWord rec'.creator) := by
  simp only [storeMarket, fillBytes, bind_eq_ok] at h
  obtain ⟨price, hprice, h⟩ := h
  split_ifs at hprice with hlt
  simp only [Except.ok.injEq] at hprice h
  exact ⟨hlt, by rw [← h, ← hprice]⟩

theorem storeMarket_market {st st' : Storage} {poolID : Word} {rec' : MarketRecord}
    (h : storeMarket st poolID rec' = .ok st') (field : MarketField) :
    st' (.market poolID field) = rec'.word field := by
  obtain ⟨-, rfl⟩ := storeMarket_ok h
  cases field <;> simp [MarketRecord.word]

theorem storeMarket_of_ne {st st' : Storage} {poolID : Word} {rec' : MarketRecord}
    (h : storeMarket st poolID rec' = .ok st') {slot : Slot}
    (hslot : ∀ field, slot ≠ .market poolID field) : st' slot = st slot := by
  obtain ⟨-, rfl⟩ := storeMarket_ok h
  simp [hslot]

theorem loadMarket_congr {st st' : Storage} {poolID : Word}
    (h : ∀ field, st' (.market poolID field) = st (.market poolID field)) :
    loadMarket st' poolID = loadMarket st poolID := by
  simp only [loadMarket, h]

/-- Words that are those of a storable record load as that record. -/
theorem loadMarket_of_words {st : Storage} {poolID : Word} {rec' : MarketRecord}
    (hrec : rec'.Storable) (h : ∀ field, st (.market poolID field) = rec'.word field) :
    loadMarket st poolID = rec' := by
  obtain ⟨status, price, tick, c0, c1, fee, spacing, creator⟩ := rec'
  obtain ⟨hactive, hprice, htick, hfee, hspacing⟩ := hrec
  dsimp only at hactive hprice htick hfee hspacing
  subst hactive
  have hpacked : st (.market poolID .packed) =
      packWord (natToBytes 1 1 ++ putInt24 tick ++ natToBytes 3 fee ++ putInt24 spacing) :=
    h .packed
  have hbytes : (natToBytes 1 1 ++ putInt24 tick ++ natToBytes 3 fee ++
      putInt24 spacing).length = 10 := by simp
  have hslice : ∀ i j, j ≤ 10 → wordSlice (st (.market poolID .packed)) i j =
      slice (natToBytes 1 1 ++ putInt24 tick ++ natToBytes 3 fee ++ putInt24 spacing) i j := by
    intro i j hj
    rw [hpacked, wordSlice_packWord (by omega) (by omega)]
  have hstatus : wordSlice (st (.market poolID .packed)) 0 1 = natToBytes 1 1 := by
    rw [hslice 0 1 (by norm_num), slice_append_left (by simp), slice_append_left (by simp),
      slice_append_left (by simp), slice_all (by simp)]
  have htick' : wordSlice (st (.market poolID .packed)) 1 4 = putInt24 tick := by
    rw [hslice 1 4 (by norm_num), slice_append_left (by simp), slice_append_left (by simp),
      slice_append_right (by simp)]
    simp [slice_all]
  have hfee' : wordSlice (st (.market poolID .packed)) 4 7 = natToBytes 3 fee := by
    rw [hslice 4 7 (by norm_num), slice_append_left (by simp), slice_append_right (by simp)]
    simp [slice_all]
  have hspacing' : wordSlice (st (.market poolID .packed)) 7 10 = putInt24 spacing := by
    rw [hslice 7 10 (by norm_num), slice_append_right (by simp)]
    simp [slice_all]
  have hword : ∀ field, st (.market poolID field) = _ := h
  simp only [loadMarket, hstatus, htick', hfee', hspacing',
    bytesToNat_byte (by norm_num : 1 < 256)]
  rw [hword .price, hword .currency0, hword .currency1, hword .creator]
  simp only [MarketStatus.ofByte, MarketRecord.word, wordToUint, BitVec.toNat_ofNat,
    Nat.mod_eq_of_lt hprice, wordAddress_addressWord, decodeInt24_putInt24 htick.1 htick.2,
    decodeInt24_putInt24 hspacing.1 hspacing.2,
    bytesToNat_natToBytes (by simpa using hfee : fee < 256 ^ 3)]
  simp

theorem loadMarket_storeMarket {st st' : Storage} {poolID : Word} {rec' : MarketRecord}
    (hrec : rec'.Storable) (h : storeMarket st poolID rec' = .ok st') :
    loadMarket st' poolID = rec' :=
  loadMarket_of_words hrec (storeMarket_market h)

/-! ## Position records -/

/-- The position records the handlers store. -/
structure RestingOrder.Storable (o : RestingOrder) : Prop where
  status : o.status = .open ∨ o.status = .closed ∨ o.status = .closing
  side : o.side = .bid ∨ o.side = .ask
  amount : o.lockedAmt < 2 ^ 256
  lower : -2 ^ 23 ≤ o.tickLower ∧ o.tickLower < 2 ^ 23
  upper : -2 ^ 23 ≤ o.tickUpper ∧ o.tickUpper < 2 ^ 23

theorem storeRestingOrder_ok {st st' : Storage} {orderID : Word} {o : RestingOrder}
    (h : storeRestingOrder st orderID o = .ok st') :
    o.lockedAmt < 2 ^ 256 ∧
      st' = (((((st.set (.order orderID .packed) o.packed).set (.order orderID .owner)
        (addressWord o.owner)).set (.order orderID .pool) o.poolID).set
        (.order orderID .asset) o.lockedAsset).set (.order orderID .amount)
        (BitVec.ofNat 256 o.lockedAmt)).set (.order orderID .salt) o.salt := by
  simp only [storeRestingOrder, bind_eq_ok] at h
  obtain ⟨st1, hamount, h⟩ := h
  obtain ⟨hlt, rfl⟩ := storeAmount_ok hamount
  simp only [Except.ok.injEq] at h
  exact ⟨hlt, h.symm⟩

theorem storeRestingOrder_of_ne {st st' : Storage} {orderID : Word} {o : RestingOrder}
    (h : storeRestingOrder st orderID o = .ok st') {slot : Slot}
    (hslot : ∀ field, slot ≠ .order orderID field) : st' slot = st slot := by
  obtain ⟨-, rfl⟩ := storeRestingOrder_ok h
  simp [hslot]

theorem loadRestingOrder_congr {st st' : Storage} {orderID : Word}
    (h : ∀ field, st' (.order orderID field) = st (.order orderID field)) :
    loadRestingOrder st' orderID = loadRestingOrder st orderID := by
  simp only [loadRestingOrder, loadAmount, h]

theorem loadRestingOrder_empty (orderID : Word) :
    loadRestingOrder Storage.empty orderID = RestingOrder.zero := by
  have hstatus : OrderStatus.ofByte (bytesToNat (wordSlice 0 0 1)) = .none := by decide
  rw [loadRestingOrder]
  exact if_pos hstatus

/-- The position records that fit their fields: bytes, two 24-bit ticks and a word. -/
structure RestingOrder.WellTyped (o : RestingOrder) : Prop where
  status : ∃ b < 256, o.status = OrderStatus.ofByte b
  side : ∃ b < 256, o.side = MakerSide.ofByte b
  amount : o.lockedAmt < 2 ^ 256
  lower : -2 ^ 23 ≤ o.tickLower ∧ o.tickLower < 2 ^ 23
  upper : -2 ^ 23 ≤ o.tickUpper ∧ o.tickUpper < 2 ^ 23

/-- What loading a stored record shows: of a record without status only that. -/
def RestingOrder.shown (o : RestingOrder) : RestingOrder :=
  if o.status = .none then RestingOrder.zero else o

@[simp]
theorem OrderStatus.toByte_ofByte (b : ℕ) : (OrderStatus.ofByte b).toByte = b := by
  unfold OrderStatus.ofByte
  split_ifs with h0 h1 h2 h3
  · exact h0.symm
  · exact h1.symm
  · exact h2.symm
  · exact h3.symm
  · rfl

@[simp]
theorem MakerSide.toByte_ofByte (b : ℕ) : (MakerSide.ofByte b).toByte = b := by
  unfold MakerSide.ofByte
  split_ifs with h0 h1
  · exact h0.symm
  · exact h1.symm
  · rfl

theorem RestingOrder.Storable.wellTyped {o : RestingOrder} (h : o.Storable) : o.WellTyped where
  status := by
    rcases h.status with hs | hs | hs
    · exact ⟨1, by decide, hs⟩
    · exact ⟨2, by decide, hs⟩
    · exact ⟨3, by decide, hs⟩
  side := by
    rcases h.side with hs | hs
    · exact ⟨0, by decide, hs⟩
    · exact ⟨1, by decide, hs⟩
  amount := h.amount
  lower := h.lower
  upper := h.upper

theorem RestingOrder.Storable.shown {o : RestingOrder} (h : o.Storable) : o.shown = o := by
  rw [RestingOrder.shown, if_neg]
  rcases h.status with hs | hs | hs
  · simp [hs]
  · simp [hs]
  · simp [hs]

/-- Loading a position right after storing it shows it. -/
theorem loadRestingOrder_of_stored {st st' : Storage} {orderID : Word} {o : RestingOrder}
    (ho : o.WellTyped) (h : storeRestingOrder st orderID o = .ok st') :
    loadRestingOrder st' orderID = o.shown := by
  obtain ⟨hlt, rfl⟩ := storeRestingOrder_ok h
  obtain ⟨owner, poolID, side, asset, amount, lower, upper, salt, status⟩ := o
  obtain ⟨⟨statusByte, hstatusLt, hstatus⟩, ⟨sideByte, hsideLt, hside⟩, -, hlower, hupper⟩ := ho
  dsimp only at hstatus hside hlower hupper hlt
  subst hstatus hside
  have hslice : ∀ i j, j ≤ 8 →
      wordSlice (RestingOrder.packed ⟨owner, poolID, .ofByte sideByte, asset, amount, lower,
        upper, salt, .ofByte statusByte⟩) i j =
      slice (natToBytes 1 statusByte ++ natToBytes 1 sideByte ++ putInt24 lower ++
        putInt24 upper) i j := by
    intro i j hj
    rw [RestingOrder.packed, OrderStatus.toByte_ofByte, MakerSide.toByte_ofByte,
      wordSlice_packWord (by simp) (by simp; omega)]
  simp only [loadRestingOrder, RestingOrder.shown, Storage.set_self, ne_eq, reduceCtorEq,
    not_false_eq_true, Slot.order.injEq, and_false, Storage.set_of_ne, loadAmount_set_of_ne,
    loadAmount_set_self _ _ hlt]
  rw [hslice 0 1 (by norm_num), hslice 1 2 (by norm_num), hslice 2 5 (by norm_num),
    hslice 5 8 (by norm_num)]
  rw [slice_append_left (by simp), slice_append_left (by simp), slice_append_left (by simp),
    slice_all (by simp)]
  rw [slice_append_left (by simp), slice_append_left (by simp), slice_append_right (by simp)]
  rw [slice_append_left (by simp), slice_append_right (by simp)]
  rw [slice_append_right (by simp)]
  simp [slice_all, bytesToNat_byte, hstatusLt, hsideLt,
    decodeInt24_putInt24 hlower.1 hlower.2, decodeInt24_putInt24 hupper.1 hupper.2,
    wordAddress_addressWord]

theorem loadRestingOrder_storeRestingOrder {st st' : Storage} {orderID : Word}
    {o : RestingOrder} (ho : o.Storable) (h : storeRestingOrder st orderID o = .ok st') :
    loadRestingOrder st' orderID = o := by
  rw [loadRestingOrder_of_stored ho.wellTyped h, ho.shown]

end LuxPrecompile.Settle
