import LuxPrecompile.Evm.CursorRuns

/-!
# What the cursor guarantees

The cursor over slices and machine integers reads what the reads over strings do.  Fields are
what successive reads return, for every number and every width but zero, of which there are
none; and a cursor that has refused a read goes on from where it was.
-/

namespace LuxPrecompile.Wire

open Evm Support

namespace Cursor

/-! ## Strings -/

section Strings

variable {c : Cursor} {b : Slice UInt8} {k : ℕ}

/-- Parts that tile make up what lies between the two places. -/
theorem Tiles.flatten {m : ℕ} :
    ∀ {l : List (Slice UInt8)} {k : ℕ}, Tiles b k l m →
      b.toList.drop k = (l.map Slice.toList).flatten ++ b.toList.drop m := by
  intro l
  induction l with
  | nil =>
      rintro k rfl
      rfl
  | cons w l ih =>
      rintro k ⟨j, hpart, -, htiles⟩
      have hsplit := List.take_append_drop (j - k) (b.toList.drop k)
      rw [List.drop_drop, Nat.add_sub_cancel' hpart.le, ← hpart.toList, ih htiles] at hsplit
      rw [List.map_cons, List.flatten_cons, List.append_assoc, hsplit]

theorem At.fields_eq_successive (h : c.At b k) (n : UInt64) {w : UInt64} (hw : w ≠ 0) :
    (k + n.toNat * w.toNat ≤ b.len ∧ Cursor.fields n w c = successive w n.toNat c) ∨
      b.len < k + n.toNat * w.toNat ∧ Cursor.fields n w c = some (.error .short, c) ∧
        ∃ c', successive w n.toNat c = some (.error .short, c') := by
  rcases h.fields n hw with ⟨hinside, hread⟩ | ⟨hshort, hread⟩
  · obtain ⟨l, c', htakes, hreads, -⟩ := takes_eq w h hinside
    exact .inl ⟨hinside, hread.trans (htakes.trans hreads.symm)⟩
  · exact .inr ⟨hshort, hread, successive_short w h hshort⟩

end Strings

/-! ## The cursor -/

/-- No sequence of reads panics; the slices that it returns lie in the input, each behind the ones
before it and without a gap.  Wherever a sequence has led, fields of some width are what so many
successive reads return, and refused exactly when one of these is, fields of width zero are
none, a refused read leaves the cursor where it was, and the final check tells whether bytes are
left. -/
theorem cursor_sound (b : Slice UInt8) :
    (∀ ops, ∃ replies c m, run ops (read b) = some (replies, c) ∧ c.At b m ∧
      Consecutive b 0 replies m ∧ (∀ w ∈ parts replies, Within b 0 b.len w) ∧
        (parts replies).Pairwise fun v w => v.hi ≤ w.lo) ∧
      ∀ ops replies c, run ops (read b) = some (replies, c) → ∃ k, c.At b k ∧
        (∀ n w, w ≠ 0 →
          (k + n.toNat * w.toNat ≤ b.len ∧ fields n w c = successive w n.toNat c) ∨
            b.len < k + n.toNat * w.toNat ∧ fields n w c = some (.error .short, c) ∧
              ∃ c', successive w n.toNat c = some (.error .short, c')) ∧
        (∀ n, fields n 0 c = some (.ok [], c)) ∧
        (∀ (op : Op) c' why, op.step c = some (.error why, c') → c' = c ∧
          ∀ more, run (op :: more) c =
            (run more c).map fun out => (.error why :: out.1, out.2)) ∧
        finish c = some (if k = b.len then .ok () else .error .trailing, c) := by
  refine ⟨fun ops => ?_, fun ops replies c hrun => ?_⟩
  · obtain ⟨replies, c, m, hrun, hat, hconsecutive⟩ := At.run ops (read_at b)
    obtain ⟨-, hwithin, hpairwise⟩ := hconsecutive.parts
    refine ⟨replies, c, m, hrun, hat, hconsecutive, fun w hw => ?_, hpairwise⟩
    have hin := hwithin w hw
    exact { hin with stop := le_trans hin.stop (Nat.add_le_add_left hat.le _) }
  · obtain ⟨replies', c', k, hrun', hat, -⟩ := At.run ops (read_at b)
    obtain ⟨-, rfl⟩ := Prod.mk.inj (Option.some.inj (hrun'.symm.trans hrun))
    refine ⟨k, hat, fun n w hw => hat.fields_eq_successive n hw, fun n => ?_, ?_, hat.finish⟩
    · rw [fields, if_pos rfl]
    · intro op c'' why hstep
      exact ⟨(hat.run_refused hstep []).1, fun more => (hat.run_refused hstep more).2⟩

/-- Four bytes. -/
def fourBytes : Slice UInt8 := Slice.ofList [1, 2, 3, 4] (by decide)

/-- A read of five bytes is refused, but all four are returned after it and the final check
passes; and one field of width zero is none, where one read of no bytes returns a slice. -/
theorem cursor_goes_on :
    (∃ w c, run [.bytes 5, .bytes 4, .finish] (read fourBytes) =
      some ([.error .short, .ok (.slice w), .ok .nothing], c) ∧ w.toList = [1, 2, 3, 4]) ∧
      (∃ c, fields 1 0 (read fourBytes) = some (.ok [], c)) ∧
        ∃ w c, successive 0 1 (read fourBytes) = some (.ok [w], c) :=
  ⟨⟨_, _, rfl, rfl⟩, ⟨_, rfl⟩, _, _, rfl⟩

end Cursor

end LuxPrecompile.Wire
