import LuxPrecompile.Evm.Bytes
import LuxPrecompile.Support.Chunks
import LuxPrecompile.Support.Runs

/-!
# Inference receipts

`aivmbridge/receipt.go`: the fixed-width encoding of a receipt and its hash.  Keccak is a
parameter.
-/

namespace LuxPrecompile.AivmBridge

open Evm Support Layout

/-- The errors of the two decoders. -/
inductive BridgeError where
  | receiptDecode
  | proofDecode
deriving DecidableEq, Repr

/-- `AInferenceReceipt`. -/
structure AInferenceReceipt where
  version : UInt16
  intentID : Word
  taskID : Word
  cChainID : Word
  aChainID : Word
  requester : Address
  modelSpecHash : Word
  promptHash : Word
  canonicalOutputHash : Word
  status : UInt8
  n : UInt16
  threshold : UInt16
  winnersRoot : Word
  operatorsRoot : Word
  feePaid : Word
  settledAtHeight : UInt64
deriving DecidableEq

def receiptVersion : UInt16 := 1

def receiptEncodedLen : ℕ :=
  2 + 32 + 32 + 32 + 32 + 20 + 32 + 32 + 32 + 1 + 2 + 2 + 32 + 32 + 32 + 8

/-- The fields of an encoding, in the order they are copied. -/
def receiptFields (r : AInferenceReceipt) : List (List UInt8) :=
  [uint16Bytes r.version, hashBytes r.intentID, hashBytes r.taskID, hashBytes r.cChainID,
    hashBytes r.aChainID, addressBytes r.requester, hashBytes r.modelSpecHash,
    hashBytes r.promptHash, hashBytes r.canonicalOutputHash, [r.status], uint16Bytes r.n,
    uint16Bytes r.threshold, hashBytes r.winnersRoot, hashBytes r.operatorsRoot,
    hashBytes r.feePaid, uint64Bytes r.settledAtHeight]

def encodeReceipt (r : AInferenceReceipt) : List UInt8 := (receiptFields r).flatten

def decodeReceipt (b : List UInt8) : Except BridgeError AInferenceReceipt :=
  if b.length ≠ receiptEncodedLen then .error .receiptDecode
  else if bytesToUint16 (slice b 0 2) ≠ receiptVersion then .error .receiptDecode
  else
    .ok { version := bytesToUint16 (slice b 0 2)
          intentID := bytesToHash (slice b 2 34)
          taskID := bytesToHash (slice b 34 66)
          cChainID := bytesToHash (slice b 66 98)
          aChainID := bytesToHash (slice b 98 130)
          requester := bytesToAddress (slice b 130 150)
          modelSpecHash := bytesToHash (slice b 150 182)
          promptHash := bytesToHash (slice b 182 214)
          canonicalOutputHash := bytesToHash (slice b 214 246)
          status := (slice b 246 247).headD 0
          n := bytesToUint16 (slice b 247 249)
          threshold := bytesToUint16 (slice b 249 251)
          winnersRoot := bytesToHash (slice b 251 283)
          operatorsRoot := bytesToHash (slice b 283 315)
          feePaid := bytesToHash (slice b 315 347)
          settledAtHeight := bytesToUint64 (slice b 347 355) }

def domainReceipt : List UInt8 :=
  ascii ['l', 'u', 'x', '/', 'a', 'i', 'v', 'm', 'b', 'r', 'i', 'd', 'g', 'e', '/', 'r', 'e', 'c',
    'e', 'i', 'p', 't', '/', 'v', '1']

def receiptHash (keccak256 : List UInt8 → Word) (r : AInferenceReceipt) : Word :=
  keccak256 (domainReceipt ++ encodeReceipt r)

/-! ## One spelling -/

/-- The widths of the fields. -/
def receiptWidths : List ℕ := [2, 32, 32, 32, 32, 20, 32, 32, 32, 1, 2, 2, 32, 32, 32, 8]

theorem receiptFields_lengths (r : AInferenceReceipt) :
    (receiptFields r).map List.length = receiptWidths := by
  simp [receiptFields, receiptWidths]

theorem encodeReceipt_length (r : AInferenceReceipt) :
    (encodeReceipt r).length = receiptEncodedLen := by
  rw [encodeReceipt, List.length_flatten, receiptFields_lengths]
  rfl

theorem cut_receiptWidths (b : List UInt8) :
    cut receiptWidths b =
      [slice b 0 2, slice b 2 34, slice b 34 66, slice b 66 98, slice b 98 130, slice b 130 150,
        slice b 150 182, slice b 182 214, slice b 214 246, slice b 246 247, slice b 247 249,
        slice b 249 251, slice b 251 283, slice b 283 315, slice b 315 347, slice b 347 355] := by
  simp only [receiptWidths, cut, slice, List.drop_drop, List.drop_zero, Nat.reduceAdd,
    Nat.reduceSub]

/-- Decoding an encoding gives the receipt when its version is the accepted one, and is refused
otherwise. -/
theorem decodeReceipt_encodeReceipt (r : AInferenceReceipt) :
    decodeReceipt (encodeReceipt r) =
      if r.version = receiptVersion then .ok r else .error .receiptDecode := by
  have hcut := cut_flatten (receiptFields r)
  rw [receiptFields_lengths, ← encodeReceipt, cut_receiptWidths, receiptFields] at hcut
  simp only [List.cons.injEq, and_true] at hcut
  obtain ⟨h0, h1, h2, h3, h4, h5, h6, h7, h8, h9, h10, h11, h12, h13, h14, h15⟩ := hcut
  simp only [decodeReceipt, encodeReceipt_length, ne_eq, not_true_eq_false, if_false, h0, h1, h2,
    h3, h4, h5, h6, h7, h8, h9, h10, h11, h12, h13, h14, h15, bytesToUint16_uint16Bytes,
    bytesToHash_hashBytes, bytesToAddress_addressBytes, bytesToUint64_uint64Bytes,
    List.headD_cons]
  rw [ite_not]

theorem singleton_headD {bs : List UInt8} (h : bs.length = 1) : [bs.headD 0] = bs := by
  obtain ⟨b, rfl⟩ := List.length_eq_one_iff.mp h
  rfl

/-- Encoding what was decoded gives the bytes back. -/
theorem encodeReceipt_decodeReceipt {b : List UInt8} {r : AInferenceReceipt}
    (h : decodeReceipt b = .ok r) : encodeReceipt r = b := by
  simp only [decodeReceipt] at h
  split_ifs at h with hlen hversion
  rw [ne_eq, not_not] at hlen
  have hlengths : (cut receiptWidths b).map List.length = receiptWidths := map_length_cut hlen.ge
  rw [cut_receiptWidths] at hlengths
  simp only [List.map_cons, List.map_nil, receiptWidths, List.cons.injEq, and_true] at hlengths
  obtain ⟨h0, h1, h2, h3, h4, h5, h6, h7, h8, h9, h10, h11, h12, h13, h14, h15⟩ := hlengths
  obtain rfl := Except.ok.inj h
  have hpieces : (cut receiptWidths b).flatten = b := flatten_cut hlen
  rw [cut_receiptWidths] at hpieces
  refine Eq.trans ?_ hpieces
  rw [encodeReceipt]
  simp only [receiptFields, uint16Bytes_bytesToUint16 h0, hashBytes_bytesToHash h1,
    hashBytes_bytesToHash h2, hashBytes_bytesToHash h3, hashBytes_bytesToHash h4,
    addressBytes_bytesToAddress h5, hashBytes_bytesToHash h6, hashBytes_bytesToHash h7,
    hashBytes_bytesToHash h8, singleton_headD h9, uint16Bytes_bytesToUint16 h10,
    uint16Bytes_bytesToUint16 h11, hashBytes_bytesToHash h12, hashBytes_bytesToHash h13,
    hashBytes_bytesToHash h14, uint64Bytes_bytesToUint64 h15]

end LuxPrecompile.AivmBridge
