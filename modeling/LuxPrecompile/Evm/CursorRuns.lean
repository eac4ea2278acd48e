import LuxPrecompile.Evm.Cursor

/-!
# Runs of reads

Any sequence of reads, whether they succeed or not, goes through the input from the front.
What the successful ones return lies in the input, one part behind the other without a gap.
A refused read counts for nothing: neither a later read nor the final check depends on it.
-/

namespace LuxPrecompile.Wire

open Evm Support

namespace Cursor

/-! ## Single reads -/

/-- Parts of `b` one behind the other, from the place `k` to the place `m`, each with no
capacity beyond its end. -/
def Tiles (b : Slice UInt8) : ℕ → List (Slice UInt8) → ℕ → Prop
  | k, [], m => k = m
  | k, w :: l, m => ∃ j, b.IsPart k j w ∧ w.cap = w.hi ∧ Tiles b j l m

section Single

variable {c : Cursor} {b : Slice UInt8} {k : ℕ}

/-- Bytes are returned where they are there, and refused where they are not. -/
theorem At.bytes (h : c.At b k) (n : UInt64) :
    (k + n.toNat ≤ b.len ∧ ∃ w c', Cursor.bytes n c = some (.ok w, c') ∧
      c'.At b (k + n.toNat) ∧ b.IsPart k (k + n.toNat) w ∧ w.cap = w.hi) ∨
      b.len < k + n.toNat ∧ Cursor.bytes n c = some (.error .short, c) := by
  have hle := h.le
  have hlen := h.toNat_len
  by_cases hshort : n > c.len.toUInt64
  · refine .inr ⟨?_, by rw [Cursor.bytes, if_pos hshort]⟩
    rw [gt_iff_lt, UInt64.lt_iff_toNat_lt, hlen] at hshort
    omega
  · have hinside : k + n.toNat ≤ b.len := by
      rw [gt_iff_lt, UInt64.lt_iff_toNat_lt, hlen] at hshort
      omega
    refine .inl ⟨hinside, ?_⟩
    rw [Cursor.bytes, if_neg hshort]
    exact h.take hinside

theorem At.number {α : Type} (h : c.At b k) (n : UInt64) (f : List UInt8 → α) :
    (k + n.toNat ≤ b.len ∧ ∃ c',
      (Cursor.bytes n >>= fun w => pure (f w.toList) : Read α) c =
        some (.ok (f ((b.toList.drop k).take n.toNat)), c') ∧ c'.At b (k + n.toNat)) ∨
      b.len < k + n.toNat ∧
        (Cursor.bytes n >>= fun w => pure (f w.toList) : Read α) c = some (.error .short, c) := by
  rcases h.bytes n with ⟨hinside, w, c', hread, hat, hpart, -⟩ | ⟨hshort, hread⟩
  · refine .inl ⟨hinside, c', ?_, hat⟩
    rw [Read.bind_of_ok hread, hpart.toList, Nat.add_sub_cancel_left]
    rfl
  · exact .inr ⟨hshort, Read.bind_of_error hread⟩

/-- The loop takes the fields that are there, as successive reads do. -/
theorem takes_eq (w : UInt64) :
    ∀ {n : ℕ} {c : Cursor} {k : ℕ}, c.At b k → k + n * w.toNat ≤ b.len →
      ∃ l c', takes w n c = some (.ok l, c') ∧ successive w n c = some (.ok l, c') ∧
        c'.At b (k + n * w.toNat) ∧ Tiles b k l (k + n * w.toNat) ∧ l.length = n ∧
          ∀ field ∈ l, field.len = w.toNat := by
  intro n
  induction n with
  | zero =>
      intro c k h _
      rw [Nat.zero_mul, Nat.add_zero]
      exact ⟨[], c, rfl, rfl, h, rfl, rfl, fun field hfield => absurd hfield List.not_mem_nil⟩
  | succ n ih =>
      intro c k h hn
      rw [Nat.succ_mul] at hn
      obtain ⟨field, c₁, htake, hat, hpart, hcap⟩ := h.take (n := w) (by omega)
      have hlong : ¬ w > c.len.toUInt64 := by
        rw [gt_iff_lt, UInt64.lt_iff_toNat_lt, h.toNat_len]
        omega
      have hbytes : Cursor.bytes w c = some (.ok field, c₁) := by
        rw [Cursor.bytes, if_neg hlong, htake]
      obtain ⟨others, c₂, htakes, hreads, hat', htiles, hlength, hwidths⟩ :=
        ih hat (show k + w.toNat + n * w.toNat ≤ b.len by omega)
      have hend : k + w.toNat + n * w.toNat = k + (n + 1) * w.toNat := by ring
      rw [hend] at hat' htiles
      refine ⟨field :: others, c₂, ?_, ?_, hat', ⟨_, hpart, hcap, htiles⟩, ?_, ?_⟩
      · rw [takes, Read.bind_of_ok htake, Read.bind_of_ok htakes, Read.pure_apply]
      · rw [successive, Read.bind_of_ok hbytes, Read.bind_of_ok hreads, Read.pure_apply]
      · rw [List.length_cons, hlength]
      · refine List.forall_mem_cons.mpr ⟨?_, hwidths⟩
        rw [hpart.len, Nat.add_sub_cancel_left]

/-- Successive reads of more than there is are refused. -/
theorem successive_short (w : UInt64) :
    ∀ {n : ℕ} {c : Cursor} {k : ℕ}, c.At b k → b.len < k + n * w.toNat →
      ∃ c', successive w n c = some (.error .short, c') := by
  intro n
  induction n with
  | zero =>
      intro c k h hn
      have hle := h.le
      omega
  | succ n ih =>
      intro c k h hn
      rw [Nat.succ_mul] at hn
      rcases h.bytes w with ⟨hinside, field, c₁, hread, hat, -, -⟩ | ⟨-, hread⟩
      · obtain ⟨c₂, hshort⟩ := ih hat (show b.len < k + w.toNat + n * w.toNat by omega)
        refine ⟨c₂, ?_⟩
        rw [successive, Read.bind_of_ok hread, Read.bind_of_error hshort]
      · exact ⟨c, by rw [successive, Read.bind_of_error hread]⟩

/-- Fields of some width are returned where they are all there, and refused where they are not,
however large the product of their number and their width is. -/
theorem At.fields (h : c.At b k) (n : UInt64) {w : UInt64} (hw : w ≠ 0) :
    (k + n.toNat * w.toNat ≤ b.len ∧ Cursor.fields n w c = takes w n.toNat c) ∨
      b.len < k + n.toNat * w.toNat ∧ Cursor.fields n w c = some (.error .short, c) := by
  have hle := h.le
  have hpos : 0 < w.toNat := by
    refine Nat.pos_of_ne_zero fun hzero => hw ?_
    exact UInt64.toNat_inj.mp hzero
  have hbound : n > c.len.toUInt64 / w ↔ b.len < k + n.toNat * w.toNat := by
    rw [gt_iff_lt, UInt64.lt_iff_toNat_lt, UInt64.toNat_div, h.toNat_len,
      Nat.div_lt_iff_lt_mul hpos]
    omega
  by_cases hshort : n > c.len.toUInt64 / w
  · refine .inr ⟨hbound.mp hshort, ?_⟩
    rw [Cursor.fields, if_neg hw, if_pos hshort]
  · refine .inl ⟨not_lt.mp fun hlt => hshort (hbound.mpr hlt), ?_⟩
    rw [Cursor.fields, if_neg hw, if_neg hshort]

theorem At.rest (h : c.At b k) : ∃ w c', Cursor.rest c = some (.ok (some w), c') ∧
    c'.At b b.len ∧ b.IsPart k b.len w ∧ w.cap = w.hi := by
  have hall : k + c.len.toUInt64.toNat = b.len := by
    rw [h.toNat_len, Nat.add_sub_cancel' h.le]
  rcases h.bytes c.len.toUInt64 with ⟨-, w, c', hread, hat, hpart, hcap⟩ | ⟨hshort, -⟩
  · rw [hall] at hat hpart
    refine ⟨w, c', ?_, hat, hpart, hcap⟩
    rw [Cursor.rest, hread]
  · omega

theorem At.finish (h : c.At b k) : Cursor.finish c =
    some (if k = b.len then .ok () else .error .trailing, c) := by
  have hle := h.le
  have hlt := b.len_lt
  have hzero : c.len = 0 ↔ k = b.len := by
    rw [h.len, ← Int64.toInt_inj, Int64.toInt_ofNat_of_lt (by omega), Int64.toInt_zero]
    omega
  rw [Cursor.finish]
  by_cases hend : c.len = 0
  · rw [if_neg (not_not.mpr hend), if_pos (hzero.mp hend)]
  · rw [if_pos hend, if_neg fun hk => hend (hzero.mpr hk)]

end Single

/-! ## Sequences of reads -/

/-- A read, with the numbers that it is given. -/
inductive Op
  | bytes (n : UInt64)
  | byte
  | uint16
  | uint32
  | uint64
  | fields (n w : UInt64)
  | rest
  | finish

/-- What a read returns. -/
inductive Reply
  | slice (w : Slice UInt8)
  | slices (l : List (Slice UInt8))
  | number (x : ℕ)
  | nothing

def Reply.ofOption : Option (Slice UInt8) → Reply
  | none => .nothing
  | some w => .slice w

/-- One read of a sequence. -/
def Op.step : Op → Read Reply
  | .bytes n => Cursor.bytes n >>= fun w => pure (.slice w)
  | .byte => Cursor.byte >>= fun x => pure (.number x.toNat)
  | .uint16 => Cursor.uint16 >>= fun x => pure (.number x.toNat)
  | .uint32 => Cursor.uint32 >>= fun x => pure (.number x.toNat)
  | .uint64 => Cursor.uint64 >>= fun x => pure (.number x.toNat)
  | .fields n w => Cursor.fields n w >>= fun l => pure (.slices l)
  | .rest => Cursor.rest >>= fun w => pure (.ofOption w)
  | .finish => Cursor.finish >>= fun _ => pure .nothing

/-- A sequence of reads, which goes on after one that is refused; `none` is a panic. -/
def run : List Op → Cursor → Option (List (Except Error Reply) × Cursor)
  | [], c => some ([], c)
  | op :: ops, c =>
      match op.step c with
      | none => none
      | some (reply, c') =>
          match run ops c' with
          | none => none
          | some (replies, c'') => some (reply :: replies, c'')

/-- A reply is what the input has from the place `k` to the place `m`. -/
def Reply.Covers (b : Slice UInt8) (k m : ℕ) : Reply → Prop
  | .slice w => b.IsPart k m w ∧ w.cap = w.hi
  | .slices l => Tiles b k l m
  | .number x => k ≤ m ∧ m ≤ b.len ∧ x = bytesToNat ((b.toList.drop k).take (m - k))
  | .nothing => k = m

/-- The replies of a sequence of reads from the place `k` to the place `m`: each is what the
input has between the place where the one before it ended and the place where it ends, and a
refused read ends where it began. -/
def Consecutive (b : Slice UInt8) : ℕ → List (Except Error Reply) → ℕ → Prop
  | k, [], m => k = m
  | k, .error _ :: replies, m => Consecutive b k replies m
  | k, .ok reply :: replies, m => ∃ j, reply.Covers b k j ∧ Consecutive b j replies m

/-- The slices that are returned. -/
def Reply.parts : Reply → List (Slice UInt8)
  | .slice w => [w]
  | .slices l => l
  | .number _ => []
  | .nothing => []

def parts : List (Except Error Reply) → List (Slice UInt8)
  | [] => []
  | .error _ :: replies => parts replies
  | .ok reply :: replies => reply.parts ++ parts replies

section Runs

variable {c : Cursor} {b : Slice UInt8} {k : ℕ}

/-- What one read does: it covers what it moves over, or is refused and does not move. -/
def Stepped (b : Slice UInt8) (k : ℕ) (c : Cursor) (op : Op) : Prop :=
  (∃ reply c' m, op.step c = some (.ok reply, c') ∧ c'.At b m ∧ reply.Covers b k m) ∨
    ∃ why, op.step c = some (.error why, c)

theorem At.stepped_number {α : Type} (h : c.At b k) (n : UInt64) (f : List UInt8 → α)
    (value : α → ℕ) (hvalue : ∀ l, l.length = n.toNat → value (f l) = bytesToNat l) {op : Op}
    (hop : op.step = ((Cursor.bytes n >>= fun w => pure (f w.toList) : Read α) >>= fun x =>
      pure (.number (value x)))) : Stepped b k c op := by
  rw [Stepped, hop]
  rcases h.number n f with ⟨hinside, c', hread, hat⟩ | ⟨-, hread⟩
  · refine .inl ⟨_, c', _, Read.bind_of_ok hread, hat, Nat.le_add_right k _, hinside, ?_⟩
    rw [hvalue, Nat.add_sub_cancel_left]
    rw [List.length_take, List.length_drop, Slice.length_toList]
    omega
  · exact .inr ⟨_, Read.bind_of_error hread⟩

theorem bytesToNat_lt_width {l : List UInt8} {n : ℕ} (h : l.length = n) :
    bytesToNat l < 256 ^ n := by
  rw [← h]
  exact bytesToNat_lt l

/-- A byte is the first of the one byte that is returned. -/
theorem At.byte (h : c.At b k) : Stepped b k c .byte := by
  rw [Stepped, Op.step, Cursor.byte]
  rcases h.bytes 1 with ⟨hinside, w, c', hread, hat, hpart, -⟩ | ⟨-, hread⟩
  · have hone : w.toList.length = 1 := by
      rw [Slice.length_toList, hpart.len, Nat.add_sub_cancel_left]
      rfl
    obtain ⟨x, hx⟩ := List.length_eq_one_iff.mp hone
    refine .inl ⟨.number x.toNat, c', _, ?_, hat, Nat.le_add_right k _, hinside, ?_⟩
    · refine Read.bind_of_ok (a := x) ?_
      rw [Read.bind_of_ok hread, hx]
      rfl
    · rw [← hpart.toList, hx]
      simp [bytesToNat]
  · exact .inr ⟨.short, Read.bind_of_error (Read.bind_of_error hread)⟩

/-- Every read covers what it moves over, or is refused and does not move. -/
theorem At.stepped (h : c.At b k) (op : Op) : Stepped b k c op := by
  cases op with
  | bytes n =>
      rw [Stepped, Op.step]
      rcases h.bytes n with ⟨-, w, c', hread, hat, hpart, hcap⟩ | ⟨-, hread⟩
      · exact .inl ⟨.slice w, c', _, Read.bind_of_ok hread, hat, hpart, hcap⟩
      · exact .inr ⟨.short, Read.bind_of_error hread⟩
  | byte => exact h.byte
  | uint16 =>
      refine h.stepped_number 2 (fun l => UInt16.ofNat (bytesToNat l)) UInt16.toNat ?_ rfl
      intro l hl
      rw [UInt16.toNat_ofNat']
      exact Nat.mod_eq_of_lt (lt_of_lt_of_le (bytesToNat_lt_width hl) (by decide))
  | uint32 =>
      refine h.stepped_number 4 bytesToUint32 UInt32.toNat ?_ rfl
      intro l hl
      rw [bytesToUint32, UInt32.toNat_ofNat']
      exact Nat.mod_eq_of_lt (lt_of_lt_of_le (bytesToNat_lt_width hl) (by decide))
  | uint64 =>
      refine h.stepped_number 8 bytesToUint64 UInt64.toNat ?_ rfl
      intro l hl
      rw [bytesToUint64, UInt64.toNat_ofNat']
      exact Nat.mod_eq_of_lt (lt_of_lt_of_le (bytesToNat_lt_width hl) (by decide))
  | fields n w =>
      rw [Stepped, Op.step]
      by_cases hw : w = 0
      · have hread : Cursor.fields n w c = some (.ok [], c) := by rw [Cursor.fields, if_pos hw]
        exact .inl ⟨.slices [], c, k, Read.bind_of_ok hread, h, rfl⟩
      rcases h.fields n hw with ⟨hinside, hread⟩ | ⟨-, hread⟩
      · obtain ⟨l, c', htakes, -, hat, htiles, -, -⟩ := takes_eq w h hinside
        exact .inl ⟨.slices l, c', _, Read.bind_of_ok (hread.trans htakes), hat, htiles⟩
      · exact .inr ⟨.short, Read.bind_of_error hread⟩
  | rest =>
      obtain ⟨w, c', hread, hat, hpart, hcap⟩ := h.rest
      exact .inl ⟨.slice w, c', _, Read.bind_of_ok hread, hat, hpart, hcap⟩
  | finish =>
      rw [Stepped, Op.step]
      have hread := h.finish
      by_cases hend : k = b.len
      · rw [if_pos hend] at hread
        exact .inl ⟨.nothing, c, k, Read.bind_of_ok hread, h, rfl⟩
      · rw [if_neg hend] at hread
        exact .inr ⟨.trailing, Read.bind_of_error hread⟩

/-- A sequence of reads does not panic, and goes through the input part by part. -/
theorem At.run (ops : List Op) :
    ∀ {c : Cursor} {k : ℕ}, c.At b k → ∃ replies c' m,
      Cursor.run ops c = some (replies, c') ∧ c'.At b m ∧ Consecutive b k replies m := by
  induction ops with
  | nil => exact fun {c k} h => ⟨[], c, k, rfl, h, rfl⟩
  | cons op ops ih =>
      intro c k h
      rcases h.stepped op with ⟨reply, c', m, hstep, hat, hcovers⟩ | ⟨why, hstep⟩
      · obtain ⟨replies, c'', m', hrun, hat', hconsecutive⟩ := ih hat
        refine ⟨.ok reply :: replies, c'', m', ?_, hat', m, hcovers, hconsecutive⟩
        rw [Cursor.run, hstep]
        dsimp only
        rw [hrun]
      · obtain ⟨replies, c'', m', hrun, hat', hconsecutive⟩ := ih h
        refine ⟨.error why :: replies, c'', m', ?_, hat', hconsecutive⟩
        rw [Cursor.run, hstep]
        dsimp only
        rw [hrun]

/-- A refused read leaves the rest of a sequence as if it had not been made. -/
theorem At.run_refused (h : c.At b k) {op : Op} {c' : Cursor} {why : Error}
    (hstep : op.step c = some (.error why, c')) (ops : List Op) :
    c' = c ∧ Cursor.run (op :: ops) c =
      (Cursor.run ops c).map fun out => (.error why :: out.1, out.2) := by
  have hsame : c' = c := by
    rcases h.stepped op with ⟨reply, c'', m, hok, -, -⟩ | ⟨why', herror⟩
    · rw [hok] at hstep
      cases hstep
    · exact (Prod.mk.inj (Option.some.inj (hstep.symm.trans herror))).2
  refine ⟨hsame, ?_⟩
  rw [Cursor.run, hstep, hsame]
  dsimp only
  rcases Cursor.run ops c with _ | out
  · rfl
  · rfl

end Runs

/-! ## Places in the input -/

section Parts

variable {b : Slice UInt8} {k m : ℕ}

/-- A part of the input between two places, with no capacity beyond its end. -/
structure Within (b : Slice UInt8) (k m : ℕ) (w : Slice UInt8) : Prop where
  array : w.array = b.array
  start : b.lo + k ≤ w.lo
  stop : w.hi ≤ b.lo + m
  capped : w.cap = w.hi

/-- Parts that tile lie behind one another. -/
theorem Tiles.parts :
    ∀ {l : List (Slice UInt8)} {k : ℕ}, Tiles b k l m →
      k ≤ m ∧ (∀ w ∈ l, Within b k m w) ∧ l.Pairwise fun v w => v.hi ≤ w.lo := by
  intro l
  induction l with
  | nil =>
      rintro k rfl
      exact ⟨le_rfl, fun w hw => absurd hw List.not_mem_nil, .nil⟩
  | cons w l ih =>
      rintro k ⟨j, hpart, hcap, htiles⟩
      obtain ⟨hle, hwithin, hpairwise⟩ := ih htiles
      have hlo := hpart.lo
      have hhi := hpart.hi
      have hkj := hpart.le
      refine ⟨hkj.trans hle, List.forall_mem_cons.mpr ⟨?_, fun v hv => ?_⟩,
        List.pairwise_cons.mpr ⟨fun v hv => ?_, hpairwise⟩⟩
      · exact ⟨hpart.array, by omega, by omega, hcap⟩
      · have hv := hwithin v hv
        exact { hv with start := le_trans (Nat.add_le_add_left hkj _) hv.start }
      · rw [hhi]
        exact (hwithin v hv).start

theorem Reply.Covers.parts {reply : Reply} (h : reply.Covers b k m) :
    k ≤ m ∧ (∀ w ∈ reply.parts, Within b k m w) ∧
      reply.parts.Pairwise fun v w => v.hi ≤ w.lo := by
  rcases reply with w | l | x | _
  · obtain ⟨hpart, hcap⟩ := h
    exact Tiles.parts (l := [w]) ⟨m, hpart, hcap, rfl⟩
  · exact Tiles.parts h
  · exact ⟨h.1, fun w hw => absurd hw List.not_mem_nil, .nil⟩
  · exact ⟨le_of_eq h, fun w hw => absurd hw List.not_mem_nil, .nil⟩

/-- The slices of a sequence of reads lie in the input, each behind the ones before it. -/
theorem Consecutive.parts :
    ∀ {replies : List (Except Error Reply)} {k : ℕ}, Consecutive b k replies m →
      k ≤ m ∧ (∀ w ∈ Cursor.parts replies, Within b k m w) ∧
        (Cursor.parts replies).Pairwise fun v w => v.hi ≤ w.lo := by
  intro replies
  induction replies with
  | nil =>
      rintro k rfl
      exact ⟨le_rfl, fun w hw => absurd hw List.not_mem_nil, .nil⟩
  | cons reply replies ih =>
      intro k h
      rcases reply with why | reply
      · exact ih h
      · obtain ⟨j, hcovers, hrest⟩ := h
        obtain ⟨hkj, hfirst, hpairwise⟩ := hcovers.parts
        obtain ⟨hjm, hothers, hpairwise'⟩ := ih hrest
        refine ⟨hkj.trans hjm, fun w hw => ?_, ?_⟩
        · rcases List.mem_append.mp hw with hw | hw
          · have hin := hfirst w hw
            exact { hin with stop := le_trans hin.stop (Nat.add_le_add_left hjm _) }
          · have hin := hothers w hw
            exact { hin with start := le_trans (Nat.add_le_add_left hkj _) hin.start }
        · refine List.pairwise_append.mpr ⟨hpairwise, hpairwise', fun v hv w hw => ?_⟩
          exact (hfirst v hv).stop.trans (hothers w hw).start

end Parts

end Cursor

end LuxPrecompile.Wire
