import LuxPrecompile.Dex.SnapshotStore
import LuxPrecompile.Support.TextCodecs

/-!
# The rows of a snapshot as JSON

The rows as `encoding/json` writes them, with the names of the struct tags, and
the texts of identifiers and addresses as geth's `common` package writes and
reads them.
-/

namespace LuxPrecompile.Dex.Snapshot

open LuxPrecompile.Evm LuxPrecompile.Support

/-! ## The records -/

def uint32Codec : TextCodec UInt32 :=
  TextCodec.int.imap (fun v => (v.toNat : ℤ)) (fun z => UInt32.ofNat z.toNat) fun v => by
    rw [Int.toNat_natCast, UInt32.ofNat_toNat]

def uint64Codec : TextCodec UInt64 :=
  TextCodec.int.imap (fun v => (v.toNat : ℤ)) (fun z => UInt64.ofNat z.toNat) fun v => by
    rw [Int.toNat_natCast, UInt64.ofNat_toNat]

def int16Codec : TextCodec Int16 := TextCodec.int.imap Int16.toInt Int16.ofInt Int16.ofInt_toInt

def int32Codec : TextCodec Int32 := TextCodec.int.imap Int32.toInt Int32.ofInt Int32.ofInt_toInt

def int64Codec : TextCodec Int64 := TextCodec.int.imap Int64.toInt Int64.ofInt Int64.ofInt_toInt

def poolKeyCodec : TextCodec PoolKeySnapshot :=
  (TextCodec.object <|
    (TextCodec.string.field "currency0").seq <|
    (TextCodec.string.field "currency1").seq <|
    (uint32Codec.field "fee").seq <|
    (int32Codec.field "tickSpacing").seq <|
    TextCodec.string.field "hooks").imap
  (fun k => (k.currency0, k.currency1, k.fee, k.tickSpacing, k.hooks))
  (fun r => {
    currency0 := r.1
    currency1 := r.2.1
    fee := r.2.2.1
    tickSpacing := r.2.2.2.1
    hooks := r.2.2.2.2 })
  fun _ => rfl

def positionCodec : TextCodec PositionSnapshot :=
  (TextCodec.object <|
    (TextCodec.string.field "positionId").seq <|
    (TextCodec.string.field "owner").seq <|
    (int32Codec.field "tickLower").seq <|
    (int32Codec.field "tickUpper").seq <|
    (TextCodec.string.field "liquidity").seq <|
    (TextCodec.string.field "feeGrowthInside0LastX128").seq <|
    (TextCodec.string.field "feeGrowthInside1LastX128").seq <|
    (TextCodec.string.field "tokensOwed0").seq <|
    TextCodec.string.field "tokensOwed1").imap
  (fun p => (p.positionID, p.owner, p.tickLower, p.tickUpper, p.liquidity,
    p.feeGrowthInside0LastX128, p.feeGrowthInside1LastX128, p.tokensOwed0, p.tokensOwed1))
  (fun r => {
    positionID := r.1
    owner := r.2.1
    tickLower := r.2.2.1
    tickUpper := r.2.2.2.1
    liquidity := r.2.2.2.2.1
    feeGrowthInside0LastX128 := r.2.2.2.2.2.1
    feeGrowthInside1LastX128 := r.2.2.2.2.2.2.1
    tokensOwed0 := r.2.2.2.2.2.2.2.1
    tokensOwed1 := r.2.2.2.2.2.2.2.2 })
  fun _ => rfl

def tickCodec : TextCodec TickSnapshot :=
  (TextCodec.object <|
    (int32Codec.field "index").seq <|
    (TextCodec.string.field "liquidityGross").seq <|
    (TextCodec.string.field "liquidityNet").seq <|
    (TextCodec.string.field "feeGrowthOutside0X128").seq <|
    TextCodec.string.field "feeGrowthOutside1X128").imap
  (fun t => (t.index, t.liquidityGross, t.liquidityNet, t.feeGrowthOutside0X128,
    t.feeGrowthOutside1X128))
  (fun r => {
    index := r.1
    liquidityGross := r.2.1
    liquidityNet := r.2.2.1
    feeGrowthOutside0X128 := r.2.2.2.1
    feeGrowthOutside1X128 := r.2.2.2.2 })
  fun _ => rfl

def bitmapWordCodec : TextCodec BitmapWord :=
  (TextCodec.object <|
    (int16Codec.field "wordIndex").seq <|
    TextCodec.string.field "value").imap
  (fun w => (w.wordIndex, w.value))
  (fun r => { wordIndex := r.1, value := r.2 })
  fun _ => rfl

def poolCodec : TextCodec PoolSnapshot :=
  (TextCodec.object <|
    (TextCodec.string.field "poolId").seq <|
    (poolKeyCodec.field "key").seq <|
    (TextCodec.string.field "sqrtPriceX96").seq <|
    (int32Codec.field "tick").seq <|
    (TextCodec.string.field "liquidity").seq <|
    (TextCodec.string.field "feeGrowth0X128").seq <|
    (TextCodec.string.field "feeGrowth1X128").seq <|
    (TextCodec.string.field "protocolFees0").seq <|
    (TextCodec.string.field "protocolFees1").seq <|
    (int32Codec.field "tickSpacing").seq <|
    (uint32Codec.field "lpFee").seq <|
    (uint32Codec.field "protocolFee").seq <|
    ((TextCodec.list positionCodec).field "positions").seq <|
    ((TextCodec.list tickCodec).field "ticks").seq <|
    (TextCodec.list bitmapWordCodec).field "bitmapWords").imap
  (fun p => (p.poolID, p.key, p.sqrtPriceX96, p.tick, p.liquidity, p.feeGrowth0X128,
    p.feeGrowth1X128, p.protocolFees0, p.protocolFees1, p.tickSpacing, p.lpFee, p.protocolFee,
    p.positions, p.ticks, p.bitmapWords))
  (fun r => {
    poolID := r.1
    key := r.2.1
    sqrtPriceX96 := r.2.2.1
    tick := r.2.2.2.1
    liquidity := r.2.2.2.2.1
    feeGrowth0X128 := r.2.2.2.2.2.1
    feeGrowth1X128 := r.2.2.2.2.2.2.1
    protocolFees0 := r.2.2.2.2.2.2.2.1
    protocolFees1 := r.2.2.2.2.2.2.2.2.1
    tickSpacing := r.2.2.2.2.2.2.2.2.2.1
    lpFee := r.2.2.2.2.2.2.2.2.2.2.1
    protocolFee := r.2.2.2.2.2.2.2.2.2.2.2.1
    positions := r.2.2.2.2.2.2.2.2.2.2.2.2.1
    ticks := r.2.2.2.2.2.2.2.2.2.2.2.2.2.1
    bitmapWords := r.2.2.2.2.2.2.2.2.2.2.2.2.2.2 })
  fun _ => rfl

def metadataCodec : TextCodec Metadata :=
  (TextCodec.object <|
    (uint32Codec.field "version").seq <|
    (int64Codec.field "timestamp").seq <|
    (uint64Codec.field "blockNum").seq <|
    TextCodec.int.field "poolCount").imap
  (fun m => (m.version, m.timestamp, m.blockNum, m.poolCount))
  (fun r => {
    version := r.1
    timestamp := r.2.1
    blockNum := r.2.2.1
    poolCount := r.2.2.2 })
  fun _ => rfl

/-! ## The rows -/

/-- `json.Marshal` where a codec writes the value. -/
def marshal {α : Type} (c : TextCodec α) (a : α) : List UInt8 :=
  stringBytes (String.ofList (c.write a))

/-- `json.Unmarshal` on what `Marshal` writes. -/
def unmarshal {α : Type} (c : TextCodec α) (bs : List UInt8) : Option α :=
  (String.fromUTF8? ⟨bs.toArray⟩).bind fun s => c.readAll s.toList

theorem fromUTF8?_stringBytes (s : String) :
    String.fromUTF8? ⟨(stringBytes s).toArray⟩ = some s := by
  have hbytes : (⟨(stringBytes s).toArray⟩ : ByteArray) = s.toByteArray := by
    rw [stringBytes, Array.toArray_toList]
  rw [hbytes, String.fromUTF8?, dif_pos s.isValidUTF8]
  rfl

theorem unmarshal_marshal {α : Type} (c : TextCodec α) (a : α) :
    unmarshal c (marshal c a) = some a := by
  rw [unmarshal, marshal, fromUTF8?_stringBytes, Option.bind_some, String.toList_ofList,
    c.readAll_write]

/-- The rows in JSON. -/
def encodingJson : Json where
  marshalMetadata := marshal metadataCodec
  unmarshalMetadata := unmarshal metadataCodec
  marshalPool := marshal poolCodec
  unmarshalPool := unmarshal poolCodec
  marshalPosition := marshal positionCodec
  marshalTick := marshal tickCodec
  marshalBitmapWord := marshal bitmapWordCodec
  unmarshal_marshalMetadata := unmarshal_marshal metadataCodec
  unmarshal_marshalPool := unmarshal_marshal poolCodec

/-- Rows in the order of their keys. -/
def keyOrder : IteratorOrder where
  serve rows := sortBy (fun row => row.1.map UInt8.toNat) rows
  serve_perm := sortBy_perm

/-! ## Identifiers and addresses -/

/-- `hex.DecodeString`: the bytes before the first pair that is none. -/
def decodeHex : List Char → List UInt8
  | a :: b :: rest =>
      match hexDigit? a, hexDigit? b with
      | some x, some y => UInt8.ofNat (16 * x + y) :: decodeHex rest
      | _, _ => []
  | _ => []

/-- The text without a leading `0x`. -/
def dropHexMark : List Char → List Char
  | '0' :: 'x' :: rest => rest
  | '0' :: 'X' :: rest => rest
  | cs => cs

/-- `FromHex` on the text behind the mark; a text of odd length gets a leading zero. -/
def decodeEven (digits : List Char) : List UInt8 :=
  decodeHex (if (digits.map Char.utf8Size).sum % 2 = 1 then '0' :: digits else digits)

def fromHex (s : String) : List UInt8 := decodeEven (dropHexMark s.toList)

/-- Two digits for a byte. -/
def byteDigits (b : UInt8) : List Char :=
  [Nat.digitChar (b.toNat / 16), Nat.digitChar (b.toNat % 16)]

theorem decodeHex_byteDigits (bs : List UInt8) : decodeHex (bs.flatMap byteDigits) = bs := by
  induction bs with
  | nil => rfl
  | cons b bs ih =>
      have hhi : hexDigit? (Nat.digitChar (b.toNat / 16)) = some (b.toNat / 16) :=
        hexDigit?_digitChar _ (Nat.div_lt_of_lt_mul b.toNat_lt)
      have hlo : hexDigit? (Nat.digitChar (b.toNat % 16)) = some (b.toNat % 16) :=
        hexDigit?_digitChar _ (Nat.mod_lt _ (by norm_num))
      rw [List.flatMap_cons, byteDigits, List.cons_append, List.cons_append, List.nil_append,
        decodeHex, hhi, hlo]
      simp only
      rw [ih, Nat.div_add_mod, UInt8.ofNat_toNat]

theorem utf8Size_byteDigits (bs : List UInt8) :
    ((bs.flatMap byteDigits).map Char.utf8Size).sum = 2 * bs.length := by
  have hsize : ∀ d < 16, (Nat.digitChar d).utf8Size = 1 := by decide
  induction bs with
  | nil => rfl
  | cons b bs ih =>
      rw [List.flatMap_cons, List.map_append, List.sum_append, ih, byteDigits, List.map_cons,
        List.map_cons, List.map_nil, hsize _ (Nat.div_lt_of_lt_mul b.toNat_lt),
        hsize _ (Nat.mod_lt _ (by norm_num)), List.length_cons]
      simp only [List.sum_cons, List.sum_nil]
      omega

theorem decodeEven_byteDigits (bs : List UInt8) : decodeEven (bs.flatMap byteDigits) = bs := by
  rw [decodeEven, utf8Size_byteDigits, if_neg (by omega), decodeHex_byteDigits]

/-- The digits of bytes are not taken for a mark. -/
theorem dropHexMark_byteDigits (bs : List UInt8) :
    dropHexMark (bs.flatMap byteDigits) = bs.flatMap byteDigits := by
  have hlower : ∀ d < 16, Nat.digitChar d ≠ 'x' := by decide
  have hupper : ∀ d < 16, Nat.digitChar d ≠ 'X' := by decide
  cases bs with
  | nil => rfl
  | cons b bs =>
      have hlt : b.toNat % 16 < 16 := Nat.mod_lt _ (by norm_num)
      rw [List.flatMap_cons, byteDigits, List.cons_append, List.cons_append, dropHexMark]
      · intro rest heq
        exact hlower _ hlt (List.cons.inj (List.cons.inj heq).2).1
      · intro rest heq
        exact hupper _ hlt (List.cons.inj (List.cons.inj heq).2).1

theorem fromHex_hexString (bs : List UInt8) : fromHex (hexString bs) = bs := by
  rw [fromHex, hexString, String.toList_ofList]
  exact (congrArg decodeEven (dropHexMark_byteDigits bs)).trans (decodeEven_byteDigits bs)

/-- `Address.Hex` without the case of the checksum, which no reader looks at. -/
def addressHex (a : Address) : String :=
  String.ofList ('0' :: 'x' :: (addressBytes a).flatMap byteDigits)

def hexToAddress (s : String) : Address := bytesToAddress (fromHex s)

theorem hexToAddress_addressHex (a : Address) : hexToAddress (addressHex a) = a := by
  have hmark : ∀ rest : List Char, dropHexMark ('0' :: 'x' :: rest) = rest := fun _ => rfl
  rw [hexToAddress, fromHex, addressHex, String.toList_ofList, hmark, decodeEven_byteDigits,
    bytesToAddress_addressBytes]

/-- geth's `common` on texts of digits. -/
def gethCommon : Common where
  fromHex := fromHex
  addressHex := addressHex
  hexToAddress := hexToAddress
  fromHex_hexId id := fromHex_hexString (hashBytes id)
  hexToAddress_addressHex := hexToAddress_addressHex

end LuxPrecompile.Dex.Snapshot
