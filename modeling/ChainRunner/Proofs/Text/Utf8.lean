import Mathlib.Data.List.Basic
import ChainRunner.Text.Utf8

/-!
Decoding around a byte of ASCII. Such a byte continues no character: it ends the one that has
begun, and stands for itself.
-/

namespace ChainRunner.Text

namespace Decoder

variable {d : Decoder} {b : Nat}

/-- No byte of ASCII is waited for. -/
def Continues (d : Decoder) : Prop := ∀ r ∈ d.needs, 0x80 ≤ r.1

lemma le_of_mem_lead? (b : Nat) : ∀ p ∈ lead? b, ∀ r ∈ p.2, 0x80 ≤ r.1 := by
  unfold lead?
  dsimp only
  split_ifs <;> grind

lemma continues_emit (d : Decoder) (c : Char) : (d.emit c).Continues := by simp [Continues, emit]

lemma continues_begin (d : Decoder) (b : Nat) : (d.begin b).Continues := by
  unfold begin
  split
  · exact continues_emit d mark
  · exact continues_emit _ _
  · rename_i h
    exact le_of_mem_lead? b _ h

lemma Continues.step (h : d.Continues) (byte : UInt8) : (d.step byte).Continues := by
  unfold Decoder.step
  dsimp only
  split
  · exact continues_begin _ _
  · rename_i lo hi more hneeds
    split
    · split
      · exact continues_emit _ _
      · exact fun r hr => h r (hneeds ▸ List.mem_cons_of_mem _ hr)
    · exact continues_begin _ _

lemma Continues.run (h : d.Continues) (bs : Bytes) : (d.run bs).Continues := by
  induction bs generalizing d with
  | nil => exact h
  | cons b bs ih => exact ih (h.step b)

lemma begin_ascii (hb : b < 0x80) : d.begin b = d.emit (Char.ofNat b) := by
  simp [begin, lead?, hb]

lemma read_finish_step (h : d.Continues) {byte : UInt8} (hb : byte.toNat < 0x80) :
    (d.step byte).finish.read = d.finish.read ++ [Char.ofNat byte.toNat] := by
  unfold Decoder.step
  split
  · rename_i hneeds
    simp [begin_ascii hb, finish, emit, hneeds]
  · rename_i lo hi more hneeds
    have hlo : 0x80 ≤ lo := h (lo, hi) (by simp [hneeds])
    rw [if_neg (by omega), begin_ascii hb]
    simp [finish, emit, emitMark, hneeds]

end Decoder

/-- **A last byte of ASCII is a character of its own**, whatever stands before it. -/
theorem decodeLossy_concat (bs : Bytes) {b : UInt8} (hb : b.toNat < 0x80) :
    (decodeLossy (bs ++ [b])).toList = (decodeLossy bs).toList ++ [Char.ofNat b.toNat] := by
  have hstart : ({} : Decoder).Continues := by simp [Decoder.Continues]
  simp only [decodeLossy, String.toList_ofList, Decoder.run_append, Decoder.run_cons,
    Decoder.run_nil]
  exact Decoder.read_finish_step (hstart.run bs) hb

end ChainRunner.Text
