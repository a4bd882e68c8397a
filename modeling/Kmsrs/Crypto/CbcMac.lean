import Kmsrs.Crypto.Tags
import Kmsrs.Lib.Padding

/-! The version 4 tag as the chained tag of the padded message. Whole blocks are
taken off the message and the last one is put together apart, so the padded
message is never built; its blocks are those that are absorbed. -/

namespace Kmsrs.Crypto.CbcMacV4

/-- The message, the marker and the fewest zeros that complete a block. -/
def padded (message : List UInt8) : List UInt8 := Padding.pad 16 paddingMarker 0 message

theorem toList_finalBlock {tail : List UInt8} (h : tail.length < 16) :
    (finalBlock tail).toList = tail ++ paddingMarker :: List.replicate (15 - tail.length) 0 := by
  have hlen : (tail ++ List.replicate (16 - tail.length) (0 : UInt8)).length = 16 := by
    rw [List.length_append, List.length_replicate]
    omega
  have hzeros : 16 - tail.length = (15 - tail.length) + 1 := by omega
  rw [finalBlock, Vector.toList_setIfInBounds, Layout.toList_decode_bytes hlen, List.set_append_right _ _ le_rfl,
    Nat.sub_self, hzeros, List.replicate_succ, List.set_cons_zero]

/-- The blocks that are absorbed, in order. -/
def absorbed (message : List UInt8) : List Block :=
  block.chunksExact message ++ [finalBlock (block.remainder message)]

theorem flatMap_absorbed (message : List UInt8) : (absorbed message).flatMap Vector.toList = padded message := by
  have hrest := block.length_remainder message
  have hlt : (block.remainder message).length < 16 := by
    rw [hrest]
    exact Nat.mod_lt _ (by decide)
  have hfillers : 15 - (block.remainder message).length = Padding.fewest 16 message.length := by
    rw [hrest]
    rfl
  have hblocks : (block.chunksExact message).flatMap Vector.toList ++ block.remainder message = message :=
    block.flatMap_chunksExact_append message
  rw [absorbed, List.flatMap_append, List.flatMap_singleton, toList_finalBlock hlt, hfillers, ← List.append_assoc,
    hblocks, padded, Padding.pad]

/-- The tag folds the cipher over the blocks of the padded message, the padding
is the least that completes a block, and no two messages have one padded form. -/
theorem tag_folds_padded (mac : CbcMacV4) :
    (∀ message : List UInt8, ∃ blocks : List Block, blocks.flatMap Vector.toList = padded message ∧
      mac.tag message = blocks.foldl (fun state next => mac.schedule.encryptBlock (xorInto state next))
        (Vector.replicate 16 0)) ∧
    (∀ message : List UInt8, ∃ zeros : ℕ, IsLeast {n | 16 ∣ message.length + 1 + n} zeros ∧
      padded message = message ++ 0x80 :: List.replicate zeros 0) ∧
    Function.Injective padded := by
  refine ⟨fun message => ⟨absorbed message, flatMap_absorbed message, ?_⟩,
    fun message => ⟨_, Padding.fewest_isLeast (by decide) message.length, rfl⟩, Padding.pad_injective 16 (by decide)⟩
  rw [absorbed, List.foldl_append]
  rfl

end Kmsrs.Crypto.CbcMacV4
