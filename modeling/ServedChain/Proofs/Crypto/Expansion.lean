/-
  The expansion of a key into as many bytes as asked (RFC 5869, section 2.3).

  The blocks are made one after another, each from the one before, until there
  are enough bytes; what is behind the length asked for is cut off.

  * `stream`: the first blocks in a row;
  * `exists_stream_eq`: from any block on, the loop goes on with the stream and
    stops only when that is long enough;
  * `expand_eq_take`: so the result is the front of the stream, however many
    blocks of it one takes, if they are enough;
  * `expand_cuts_blocks`: the result against the blocks as the standard has them.
-/
import Mathlib.Data.List.Basic
import Mathlib.Tactic.WLOG
import ServedChain.Crypto.Hkdf

namespace ServedChain.Hkdf

section
variable (hash : Hash) (prk info : Bytes)

/-! ## The stream of blocks -/

/-- `T(1) ++ … ++ T(count)`. -/
def stream (count : Nat) : Bytes := (List.range' 1 count).flatMap (block hash prk info)

theorem stream_succ (count : Nat) :
    stream hash prk info (count + 1)
      = stream hash prk info count ++ block hash prk info (count + 1) := by
  simp [stream, List.range'_1_concat, Nat.add_comm]

theorem length_stream (count : Nat) : (stream hash prk info count).length = count * hash.size := by
  induction count with
  | zero => simp [stream]
  | succ count ih => rw [stream_succ, List.length_append, ih, length_block_succ, Nat.succ_mul]

theorem stream_isPrefix {a b : Nat} (h : a ≤ b) :
    stream hash prk info a <+: stream hash prk info b := by
  induction h with
  | refl => exact List.prefix_rfl
  | step _ ih => exact ih.trans (stream_succ hash prk info _ ▸ List.prefix_append ..)

/-- Two streams that are long enough have the same front. -/
theorem take_stream_eq {n a b : Nat} (ha : n ≤ a * hash.size) (hb : n ≤ b * hash.size) :
    (stream hash prk info a).take n = (stream hash prk info b).take n := by
  wlog hab : a ≤ b generalizing a b
  · exact (this hb ha (Nat.le_of_not_le hab)).symm
  obtain ⟨rest, hrest⟩ := stream_isPrefix hash prk info hab
  rw [← hrest, List.take_append_of_le_length (by rwa [length_stream])]

/-! ## The loop -/

/-- From block number `i` on the loop adds blocks of the stream, until that has `length` bytes. -/
theorem exists_stream_eq (length : Int) {i produced : Nat} {previous : Bytes}
    (hprevious : previous = block hash prk info i) (hproduced : produced = i * hash.size) :
    ∃ count, stream hash prk info i ++ (blocksFrom hash prk info length i previous produced).flatten
        = stream hash prk info count
      ∧ length ≤ (count * hash.size : Nat) := by
  induction i, previous, produced using blocksFrom.induct hash prk info length with
  | case1 i previous produced hless next ih =>
    have hnext : next = block hash prk info (i + 1) := by
      rw [block, ← hprevious]
    obtain ⟨count, hcount, henough⟩ := ih hnext (by
      rw [hnext, length_block_succ, hproduced, Nat.succ_mul])
    refine ⟨count, ?_, henough⟩
    rw [blocksFrom, if_pos hless, List.flatten_cons, ← List.append_assoc, ← hcount, stream_succ,
      ← hnext]
  | case2 i previous produced hdone =>
    refine ⟨i, ?_, ?_⟩
    · rw [blocksFrom, if_neg hdone]
      simp
    · rw [← hproduced]
      omega

/-! ## What is cut off the stream -/

theorem expand_eq_take {length : Int} {count : Nat} (h : length ≤ (count * hash.size : Nat)) :
    expand hash prk info length = (stream hash prk info count).take length.toNat := by
  obtain ⟨made, hmade, henough⟩ := exists_stream_eq hash prk info length (i := 0) rfl
    (Nat.zero_mul _).symm
  have hblocks : (blocksFrom hash prk info length 0 [] 0).flatten = stream hash prk info made :=
    hmade
  rw [expand, hblocks]
  exact take_stream_eq hash prk info (Int.toNat_le.2 henough) (Int.toNat_le.2 h)

/-- As many blocks as bytes are asked for are always enough. -/
theorem toNat_le_mul_size (length : Int) : length ≤ (length.toNat * hash.size : Nat) := by
  have hsize := Nat.le_mul_of_pos_right length.toNat hash.size_pos
  omega

theorem length_expand (length : Int) : (expand hash prk info length).length = length.toNat := by
  rw [expand_eq_take hash prk info (toNat_le_mul_size hash length), List.length_take, length_stream]
  exact Nat.min_eq_left (Nat.le_mul_of_pos_right _ hash.size_pos)

theorem expand_isPrefix {m n : Int} (h : m ≤ n) :
    expand hash prk info m <+: expand hash prk info n := by
  have henough := toNat_le_mul_size hash n
  rw [expand_eq_take hash prk info henough, expand_eq_take hash prk info (Int.le_trans h henough)]
  exact List.take_prefix_take_left (Int.toNat_le_toNat h)

/-! ## The blocks of the standard -/

/-- `T(0)`, `T(1)`, … as the standard has them, as far as a byte can count them. -/
structure IsBlocks (T : Nat → Bytes) : Prop where
  zero : T 0 = []
  succ : ∀ (i : Nat) (counter : UInt8), counter.toNat = i + 1 →
    T (i + 1) = hmac hash prk (T i ++ info ++ [counter])

theorem isBlocks_block : IsBlocks hash prk info (block hash prk info) where
  zero := rfl
  succ i counter hcounter := by
    rw [block, ← hcounter, UInt8.ofNat_toNat]

variable {hash prk info} in
theorem IsBlocks.eq_block {T : Nat → Bytes} (h : IsBlocks hash prk info T) {i : Nat}
    (hi : i ≤ 255) : T i = block hash prk info i := by
  induction i with
  | zero => exact h.zero
  | succ i ih =>
    have hcounter : (UInt8.ofNat (i + 1)).toNat = i + 1 := by
      rw [UInt8.toNat_ofNat']
      omega
    rw [h.succ i _ hcounter, ih (by omega), block]

/-- **The expansion is the one of the standard, for every length.**  As far as 255 blocks reach it
    is the front of `T(1) ++ T(2) ++ …`, whatever sequence `T` of blocks the standard allows.  It
    has as many bytes as asked, also where the counter wraps, and none if the length is not
    positive; and a shorter one is the front of a longer one. -/
theorem expand_cuts_blocks :
    (∀ T : Nat → Bytes, IsBlocks hash prk info T →
      ∀ count ≤ 255, ∀ length : Int, length ≤ (count * hash.size : Nat) →
        expand hash prk info length = ((List.range' 1 count).flatMap T).take length.toNat)
    ∧ (∀ length : Int, ((expand hash prk info length).length : Int) = max 0 length)
    ∧ ∀ m n : Int, m ≤ n → expand hash prk info m <+: expand hash prk info n := by
  refine ⟨fun T hT count hcount length hlength => ?_, fun length => ?_, fun m n => ?_⟩
  · have hblocks : (List.range' 1 count).flatMap T = stream hash prk info count := by
      refine List.flatMap_congr fun i hi => hT.eq_block ?_
      have hrange := (List.mem_range'_1.1 hi).2
      omega
    rw [hblocks, expand_eq_take hash prk info hlength]
  · rw [length_expand]
    omega
  · exact expand_isPrefix hash prk info

end

/-- A length inside the second block, and one that is not positive. -/
theorem expand_cuts_blocks_two :
    let T := block .sha256 [0x0b] [0xf0, 0xf1]
    IsBlocks .sha256 [0x0b] [0xf0, 0xf1] T
      ∧ expand .sha256 [0x0b] [0xf0, 0xf1] 42 = (T 1 ++ T 2).take 42
      ∧ (expand .sha256 [0x0b] [0xf0, 0xf1] 42).length = 42
      ∧ expand .sha256 [0x0b] [0xf0, 0xf1] (-1) <+: expand .sha256 [0x0b] [0xf0, 0xf1] 42 := by
  intro T
  have hT := isBlocks_block .sha256 [0x0b] [0xf0, 0xf1]
  obtain ⟨hfront, hlength, hprefix⟩ := expand_cuts_blocks .sha256 [0x0b] [0xf0, 0xf1]
  have htwo := hfront T hT 2 (by decide) 42 (by decide)
  refine ⟨hT, ?_, ?_, hprefix _ _ (by decide)⟩
  · rw [htwo]
    simp [List.range']
  · exact Int.ofNat_inj.1 (hlength 42)

end ServedChain.Hkdf
