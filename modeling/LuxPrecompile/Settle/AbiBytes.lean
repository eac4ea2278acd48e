import LuxPrecompile.Settle.Codec
import LuxPrecompile.Settle.PoolKeyCodec
import LuxPrecompile.Support.Slices

/-!
# Dynamic bytes in machine integers

`decodeABIBytes` of `dex/module.go`, with its 64-bit arithmetic and with slices that reach up
to their capacity.  The order of its checks keeps every sum below the size of the integers, so
it cuts the arguments inside their length and computes what the decoder over numbers does.
-/

namespace LuxPrecompile.Settle.Machine

open Evm Support Support.Checked

/-- `decodeABIBytes`, once the offset word was accepted: the string at `absOffset`. -/
def abiBytesAt (args : Slice UInt8) (absOffset : UInt64) :
    Checked Empty (Option (Slice UInt8)) := do
  let argsLen := UInt64.ofNat args.len
  if absOffset > argsLen ∨ argsLen - absOffset < 32 then .ok none
  else do
    let lengthWord ← args.cut absOffset.toNat (absOffset + 32).toNat args.room
    let lengthBig := bytesToNat lengthWord.toList
    if lengthBig.size > 63 then .ok none
    else
      let length := UInt64.ofNat lengthBig
      let dataStart := absOffset + 32
      if length = 0 then .ok none
      else if dataStart > argsLen ∨ argsLen - dataStart < length then .ok none
      else do
        let data ← args.cut dataStart.toNat (dataStart + length).toNat args.room
        .ok (some data)

/-- `decodeABIBytes`; `none` is nil. -/
def decodeABIBytes (args : Slice UInt8) (offsetPos : UInt64) :
    Checked Empty (Option (Slice UInt8)) := do
  let argsLen := UInt64.ofNat args.len
  if offsetPos + 32 > argsLen then .ok none
  else do
    let offsetWord ← args.cut offsetPos.toNat (offsetPos + 32).toNat args.room
    let absOffsetBig := bytesToNat offsetWord.toList
    if absOffsetBig.size > 63 then .ok none
    else
      let absOffset := UInt64.ofNat absOffsetBig
      if absOffset < offsetPos + 32 then .ok none
      else abiBytesAt args absOffset

/-- The arguments hold a string of `length` bytes at `offset`, behind its length word. -/
structure HoldsAt (args : List UInt8) (offset length : ℕ) : Prop where
  length_eq : bytesToNat (slice args offset (offset + 32)) = length
  data : offset + 32 + length ≤ args.length
  nonempty : 0 < length

/-- The arguments encode that string by the offset word at `pos`, which it stands behind. -/
structure Encodes (args : List UInt8) (pos offset length : ℕ) : Prop
    extends HoldsAt args offset length where
  head : pos + 32 ≤ args.length
  offset_eq : bytesToNat (slice args pos (pos + 32)) = offset
  past : pos + 32 ≤ offset

section Bounds

variable {args : Slice UInt8}

theorem toNat_argsLen (args : Slice UInt8) : (UInt64.ofNat args.len).toNat = args.len :=
  uint64_toNat_ofNat (lt_trans args.len_lt (by norm_num))

theorem toNat_add_of_lt {x y : UInt64} (h : x.toNat + y.toNat < 2 ^ 64) :
    (x + y).toNat = x.toNat + y.toNat := by
  rw [UInt64.toNat_add, Nat.mod_eq_of_lt h]

theorem size_gt_iff {n : ℕ} : n.size > 63 ↔ 2 ^ 63 ≤ n := by
  rw [gt_iff_lt, Nat.lt_size]

theorem toNat_left {x : UInt64} (hx : x.toNat ≤ args.len) :
    (UInt64.ofNat args.len - x).toNat = args.len - x.toNat := by
  rw [UInt64.toNat_sub_of_le, toNat_argsLen]
  rw [UInt64.le_iff_toNat_le, toNat_argsLen]
  exact hx

theorem short_iff {x n : UInt64} :
    (x > UInt64.ofNat args.len ∨ UInt64.ofNat args.len - x < n) ↔
      args.len < x.toNat + n.toNat := by
  rw [gt_iff_lt, UInt64.lt_iff_toNat_lt, UInt64.lt_iff_toNat_lt, toNat_argsLen]
  by_cases hx : x.toNat ≤ args.len
  · rw [toNat_left hx]
    omega
  · simp only [not_le.mp hx, true_or, true_iff]
    omega

theorem toNat_add_32 {x : UInt64} (hx : x.toNat < 2 ^ 63) : (x + 32).toNat = x.toNat + 32 :=
  toNat_add_of_lt (lt_trans (Nat.add_lt_add_right hx 32) (by decide))

theorem cut_word {i j : ℕ} (hij : i ≤ j) (hj : j ≤ args.len) :
    ∃ w, (args.cut i j args.room : Checked Empty (Slice UInt8)) = .ok w ∧
      args.IsPart i j w ∧ w.toList = slice args.toList i j := by
  obtain ⟨w, hcut, hpart, -⟩ :=
    Slice.cut_of_le hij hj (hj.trans args.len_le_room) le_rfl
  exact ⟨w, hcut, hpart, hpart.toList⟩

end Bounds

section Cases

variable (args : Slice UInt8)

theorem toNat_word {n : ℕ} (h : ¬ n.size > 63) : n < 2 ^ 63 ∧ (UInt64.ofNat n).toNat = n := by
  have hsmall : n < 2 ^ 63 := not_le.mp fun hlarge => h (size_gt_iff.mpr hlarge)
  exact ⟨hsmall, uint64_toNat_ofNat (lt_trans hsmall (by norm_num))⟩

/-- The string at an offset is cut out where the arguments hold one. -/
theorem abiBytesAt_cases {absOffset : UInt64} (hoffset : absOffset.toNat < 2 ^ 63) :
    (∃ length w, HoldsAt args.toList absOffset.toNat length ∧
      args.IsPart (absOffset.toNat + 32) (absOffset.toNat + 32 + length) w ∧
        abiBytesAt args absOffset = .ok (some w)) ∨
      (∀ length, ¬ HoldsAt args.toList absOffset.toNat length) ∧
        abiBytesAt args absOffset = .ok none := by
  have hlen := args.len_lt
  have hstart := toNat_add_32 hoffset
  rw [abiBytesAt]
  by_cases hshort : absOffset > UInt64.ofNat args.len ∨ UInt64.ofNat args.len - absOffset < 32
  · rw [if_pos hshort]
    have houtside : args.len < absOffset.toNat + 32 := short_iff.mp hshort
    refine .inr ⟨fun length h => ?_, rfl⟩
    have hdata := h.data
    rw [Slice.length_toList] at hdata
    omega
  rw [if_neg hshort]
  have hinside : absOffset.toNat + 32 ≤ args.len := not_lt.mp fun h => hshort (short_iff.mpr h)
  obtain ⟨lengthWord, hcut, -, hword⟩ := cut_word (Nat.le_add_right absOffset.toNat 32) hinside
  rw [hstart, hcut, ok_bind, hword]
  set length := bytesToNat (slice args.toList absOffset.toNat (absOffset.toNat + 32)) with hlength
  by_cases hbig : length.size > 63
  · rw [if_pos hbig]
    have hlarge := size_gt_iff.mp hbig
    refine .inr ⟨fun length' h => ?_, rfl⟩
    have hdata := h.data
    rw [Slice.length_toList, ← h.length_eq, ← hlength] at hdata
    omega
  rw [if_neg hbig]
  obtain ⟨hsmall, hvalue⟩ := toNat_word hbig
  dsimp only
  by_cases hzero : UInt64.ofNat length = 0
  · rw [if_pos hzero]
    refine .inr ⟨fun length' h => ?_, rfl⟩
    have hnonempty := h.nonempty
    rw [← h.length_eq, ← hlength, ← hvalue, hzero] at hnonempty
    exact absurd hnonempty (Nat.lt_irrefl 0)
  rw [if_neg hzero]
  by_cases hshort' : absOffset + 32 > UInt64.ofNat args.len ∨
      UInt64.ofNat args.len - (absOffset + 32) < UInt64.ofNat length
  · rw [if_pos hshort']
    rw [short_iff, hstart, hvalue] at hshort'
    refine .inr ⟨fun length' h => ?_, rfl⟩
    have hdata := h.data
    rw [Slice.length_toList, ← h.length_eq, ← hlength] at hdata
    omega
  rw [if_neg hshort']
  rw [short_iff, hstart, hvalue, not_lt] at hshort'
  have hstop : (absOffset + 32 + UInt64.ofNat length).toNat = absOffset.toNat + 32 + length := by
    rw [toNat_add_of_lt (by rw [hstart, hvalue]; omega), hstart, hvalue]
  obtain ⟨data, hcut', hpart, -⟩ :=
    cut_word (Nat.le_add_right (absOffset.toNat + 32) length) hshort'
  rw [hstop, hstart, hcut', ok_bind]
  refine .inl ⟨length, data, ⟨rfl, ?_, ?_⟩, hpart, rfl⟩
  · rw [Slice.length_toList]
    exact hshort'
  · refine Nat.pos_of_ne_zero fun hnone => hzero ?_
    rw [hnone]
    rfl

/-- The decoder cuts out what the arguments encode, and answers nil where they encode nothing. -/
theorem decodeABIBytes_cases {offsetPos : UInt64} (hpos : offsetPos.toNat < 2 ^ 63) :
    (∃ offset length w, Encodes args.toList offsetPos.toNat offset length ∧
      args.IsPart (offset + 32) (offset + 32 + length) w ∧
        decodeABIBytes args offsetPos = .ok (some w)) ∨
      (∀ offset length, ¬ Encodes args.toList offsetPos.toNat offset length) ∧
        decodeABIBytes args offsetPos = .ok none := by
  have hlen := args.len_lt
  have hnext := toNat_add_32 hpos
  rw [decodeABIBytes]
  by_cases hhead : offsetPos + 32 > UInt64.ofNat args.len
  · rw [if_pos hhead]
    rw [gt_iff_lt, UInt64.lt_iff_toNat_lt, toNat_argsLen, hnext] at hhead
    refine .inr ⟨fun offset length h => ?_, rfl⟩
    have hinside := h.head
    rw [Slice.length_toList] at hinside
    omega
  rw [if_neg hhead]
  rw [gt_iff_lt, UInt64.lt_iff_toNat_lt, toNat_argsLen, hnext, not_lt] at hhead
  obtain ⟨offsetWord, hcut, -, hword⟩ := cut_word (Nat.le_add_right offsetPos.toNat 32) hhead
  rw [hnext, hcut, ok_bind, hword]
  set offset := bytesToNat (slice args.toList offsetPos.toNat (offsetPos.toNat + 32)) with hoffset
  by_cases hbig : offset.size > 63
  · rw [if_pos hbig]
    have hlarge := size_gt_iff.mp hbig
    refine .inr ⟨fun offset' length h => ?_, rfl⟩
    have hdata := h.data
    rw [Slice.length_toList, ← h.offset_eq, ← hoffset] at hdata
    omega
  rw [if_neg hbig]
  obtain ⟨hsmall, hvalue⟩ := toNat_word hbig
  dsimp only
  by_cases hpast : UInt64.ofNat offset < offsetPos + 32
  · rw [if_pos hpast]
    rw [UInt64.lt_iff_toNat_lt, hvalue, hnext] at hpast
    refine .inr ⟨fun offset' length h => ?_, rfl⟩
    have hbehind := h.past
    rw [← h.offset_eq, ← hoffset] at hbehind
    omega
  rw [if_neg hpast]
  rw [UInt64.lt_iff_toNat_lt, hvalue, hnext, not_lt] at hpast
  have hat := abiBytesAt_cases args (lt_of_eq_of_lt hvalue hsmall)
  rw [hvalue] at hat
  rcases hat with ⟨length, w, hholds, hpart, hdata⟩ | ⟨hnone, hnil⟩
  · refine .inl ⟨offset, length, w, { hholds with head := ?_, offset_eq := rfl, past := hpast },
      hpart, hdata⟩
    rw [Slice.length_toList]
    exact hhead
  · refine .inr ⟨fun offset' length h => ?_, hnil⟩
    obtain rfl : offset = offset' := h.offset_eq
    exact hnone length h.toHoldsAt

end Cases

/-! ## The decoder over numbers -/

section Numbers

variable {args : List UInt8} {pos : ℕ}

theorem argWord_toNat {i : ℕ} (h : i + 32 ≤ args.length) :
    (argWord args i).toNat = bytesToNat (slice args i (i + 32)) := by
  have hwidth : (slice args i (i + 32)).length = 32 := by
    rw [slice_length (Nat.le_add_right i 32) h]
    omega
  rw [argWord, bytesToHash_toNat hwidth]

theorem decodeABIBytes_of_encodes {offset length : ℕ} (hfits : args.length < 2 ^ 63)
    (h : Encodes args pos offset length) :
    Settle.decodeABIBytes args pos = slice args (offset + 32) (offset + 32 + length) := by
  have hdata := h.data
  have hpast := h.past
  have hoffset : (argWord args pos).toNat = offset := (argWord_toNat h.head).trans h.offset_eq
  have hlength : (argWord args offset).toNat = length :=
    (argWord_toNat (by omega)).trans h.length_eq
  rw [Settle.decodeABIBytes, if_neg (not_lt.mpr h.head), hoffset]
  dsimp only
  rw [if_neg (by omega), if_neg (by omega), if_neg (by omega), hlength, if_neg (by omega),
    if_neg (by omega)]

/-- Where nothing is encoded it gives none. -/
theorem decodeABIBytes_of_not_encodes (h : ∀ offset length, ¬ Encodes args pos offset length) :
    Settle.decodeABIBytes args pos = [] := by
  rw [Settle.decodeABIBytes]
  by_cases hhead : args.length < pos + 32
  · rw [if_pos hhead]
  rw [if_neg hhead]
  dsimp only
  by_cases hbig : 2 ^ 63 ≤ (argWord args pos).toNat
  · rw [if_pos hbig]
  rw [if_neg hbig]
  by_cases hpast : (argWord args pos).toNat < pos + 32
  · rw [if_pos hpast]
  rw [if_neg hpast]
  by_cases hword : args.length < (argWord args pos).toNat + 32
  · rw [if_pos hword]
  rw [if_neg hword]
  by_cases hlarge : 2 ^ 63 ≤ (argWord args (argWord args pos).toNat).toNat
  · rw [if_pos hlarge]
  rw [if_neg hlarge]
  by_cases hdata : args.length <
      (argWord args pos).toNat + 32 + (argWord args (argWord args pos).toNat).toNat
  · rw [if_pos hdata]
  rw [if_neg hdata]
  by_cases hempty : (argWord args (argWord args pos).toNat).toNat = 0
  · rw [hempty, slice, Nat.add_zero, Nat.sub_self, List.take_zero]
  · refine absurd ?_ (h (argWord args pos).toNat (argWord args (argWord args pos).toNat).toNat)
    exact
      { length_eq := (argWord_toNat (not_lt.mp hword)).symm
        data := not_lt.mp hdata
        nonempty := Nat.pos_of_ne_zero hempty
        head := not_lt.mp hhead
        offset_eq := (argWord_toNat (not_lt.mp hhead)).symm
        past := not_lt.mp hpast }

end Numbers

/-- The decoder answers nil or cuts out, inside the arguments, the string that they encode, and
never nil where they encode one; its machine integers give what numbers do. -/
theorem decodeABIBytes_exact (args : Slice UInt8) (offsetPos : UInt64)
    (hpos : offsetPos.toNat < 2 ^ 63) :
    ∃ r, decodeABIBytes args offsetPos = .ok r ∧
      (∀ w, r = some w → ∃ offset length, Encodes args.toList offsetPos.toNat offset length ∧
        args.IsPart (offset + 32) (offset + 32 + length) w) ∧
      ((∃ offset length, Encodes args.toList offsetPos.toNat offset length) → r ≠ none) ∧
      r.elim [] Slice.toList = Settle.decodeABIBytes args.toList offsetPos.toNat := by
  rcases decodeABIBytes_cases args hpos with
    ⟨offset, length, w, hencodes, hpart, h⟩ | ⟨hnone, h⟩
  · refine ⟨some w, h, ?_, fun _ => Option.some_ne_none w, ?_⟩
    · intro w' hw
      obtain rfl := Option.some.inj hw
      exact ⟨offset, length, hencodes, hpart⟩
    · have hfits : args.toList.length < 2 ^ 63 := by
        rw [Slice.length_toList]
        exact args.len_lt
      rw [decodeABIBytes_of_encodes hfits hencodes, Option.elim_some, hpart.toList, slice]
  · refine ⟨none, h, ?_, ?_, ?_⟩
    · intro w hw
      exact absurd hw.symm (Option.some_ne_none w)
    · rintro ⟨offset, length, hencodes⟩
      exact absurd hencodes (hnone offset length)
    · rw [decodeABIBytes_of_not_encodes hnone, Option.elim_none]

/-- The offset 32, the length 2 and two bytes, with two more bytes of the array in reach. -/
def twoBytes : Slice UInt8 where
  array := natToBytes 32 32 ++ (natToBytes 32 2 ++ [0xab, 0xcd, 0xee, 0xee])
  lo := 0
  hi := 66
  cap := 68
  lo_le_hi := by decide
  hi_le_cap := by decide
  cap_le := by decide
  fits := by decide

/-- The two bytes are cut out. -/
theorem decodeABIBytes_exact_twoBytes :
    ∃ w, decodeABIBytes twoBytes 0 = .ok (some w) ∧ w.lo = 64 ∧ w.hi = 66 ∧
      w.toList = [0xab, 0xcd] := by
  have hencodes : Encodes twoBytes.toList 0 32 2 :=
    { length_eq := by decide
      data := by decide
      nonempty := by decide
      head := by decide
      offset_eq := by decide
      past := by decide }
  obtain ⟨r, h, hpart, hsome, -⟩ := decodeABIBytes_exact twoBytes 0 (by decide)
  obtain ⟨w, hw⟩ := Option.ne_none_iff_exists'.mp (hsome ⟨32, 2, hencodes⟩)
  obtain ⟨offset, length, hencodes', hcut⟩ := hpart w hw
  obtain rfl : offset = 32 := hencodes'.offset_eq.symm.trans hencodes.offset_eq
  obtain rfl : length = 2 := hencodes'.length_eq.symm.trans hencodes.length_eq
  refine ⟨w, h.trans (congrArg Except.ok hw), hcut.lo, hcut.hi, ?_⟩
  rw [hcut.toList]
  decide

end LuxPrecompile.Settle.Machine
