import CourseDb.Cluster.ConsistentHash

/-! # The range of the hash

Every step of the hash can be undone, so that already keys of eight bytes reach
every 32-bit value. There is a node whose first point lies wherever one wants it.
-/

namespace CourseDb.Murmur

open Function

theorem mul_surjective (c c' : UInt32) (h : c * c' = 1) : Surjective fun x : UInt32 => x * c := by
  intro y
  refine ⟨y * c', ?_⟩
  simp only [UInt32.mul_assoc, UInt32.mul_comm c', h, UInt32.mul_one]

theorem xor_surjective (s : UInt32) : Surjective fun x : UInt32 => x ^^^ s := by
  intro y
  exact ⟨y ^^^ s, by simp only [UInt32.xor_assoc, UInt32.xor_self, UInt32.xor_zero]⟩

theorem add_surjective (c : UInt32) : Surjective fun x : UInt32 => x + c := by
  intro y
  exact ⟨y - c, by simp only [UInt32.sub_add_cancel]⟩

theorem rotate_back (y : BitVec 32) {n : ℕ} (hn : n < 32) :
    (((y <<< (32 - n)) ||| (y >>> n)) <<< n) ||| (((y <<< (32 - n)) ||| (y >>> n)) >>> (32 - n)) =
      y := by
  apply BitVec.eq_of_getLsbD_eq
  intro i hi
  simp only [BitVec.getLsbD_or, BitVec.getLsbD_shiftLeft, BitVec.getLsbD_ushiftRight]
  have hout : y.getLsbD (n + (32 - n + i)) = false := BitVec.getLsbD_of_ge _ _ (by omega)
  by_cases hin : i < n
  · have hback : 32 - n + i - (32 - n) = i := by omega
    simp [hin, hback, hout, show 32 - n + i < 32 by omega]
  · have hback : n + (i - n) = i := by omega
    simp [hin, hi, hback, hout, show i - n < 32 - n by omega, show ¬ 32 - n + i < 32 by omega]

theorem rotl32_surjective_15 : Surjective fun x => rotl32 x 15 := by
  intro y
  exact ⟨rotl32 y 17, UInt32.eq_of_toBitVec_eq (rotate_back y.toBitVec (n := 15) (by decide))⟩

theorem rotl32_surjective_13 : Surjective fun x => rotl32 x 13 := by
  intro y
  exact ⟨rotl32 y 19, UInt32.eq_of_toBitVec_eq (rotate_back y.toBitVec (n := 13) (by decide))⟩

theorem xorshift_surjective_16 : Surjective fun x : UInt32 => x ^^^ (x >>> 16) := by
  intro y
  refine ⟨y ^^^ (y >>> 16), UInt32.eq_of_toBitVec_eq (BitVec.eq_of_getLsbD_eq fun i hi => ?_)⟩
  have hout : y.toBitVec.getLsbD (16 + (16 + i)) = false := BitVec.getLsbD_of_ge _ _ (by omega)
  simp [hout]

theorem xorshift_surjective_13 : Surjective fun x : UInt32 => x ^^^ (x >>> 13) := by
  intro y
  refine ⟨y ^^^ (y >>> 13) ^^^ (y >>> 26),
    UInt32.eq_of_toBitVec_eq (BitVec.eq_of_getLsbD_eq fun i hi => ?_)⟩
  have hout : y.toBitVec.getLsbD (26 + (13 + i)) = false := BitVec.getLsbD_of_ge _ _ (by omega)
  have htwice : 13 + (13 + i) = 26 + i := by omega
  simp [hout, htwice]

theorem scramble_surjective : Surjective scramble :=
  (mul_surjective c2 0x56ed309b (by decide)).comp
    (rotl32_surjective_15.comp (mul_surjective c1 0xdee13bb1 (by decide)))

theorem finalize_surjective : Surjective finalize :=
  xorshift_surjective_16.comp <|
    (mul_surjective 0xc2b2ae35 0x7ed1b41d (by decide)).comp <|
      xorshift_surjective_13.comp <|
        (mul_surjective 0x85ebca6b 0xa5cb9243 (by decide)).comp
          xorshift_surjective_16

/-- What a block does to the state after its word has been mixed in. -/
def mix (h : UInt32) : UInt32 := rotl32 h 13 * 5 + 0xe6546b64

theorem mix_surjective : Surjective mix :=
  (add_surjective 0xe6546b64).comp <|
    (mul_surjective 5 0xcccccccd (by decide)).comp rotl32_surjective_13

/-- The byte of a word that starts at bit `s`. -/
def byteAt (k : UInt32) (s : ℕ) : Byte := Fin.ofNat 256 (k.toNat / 2 ^ s)

theorem getLsbD_word (k : UInt32) (s i : ℕ) :
    (word (byteAt k s)).toBitVec.getLsbD i = (decide (i < 8) && k.toBitVec.getLsbD (s + i)) := by
  have hbyte : (byteAt k s).val < 2 ^ 32 := (byteAt k s).isLt.trans (by decide)
  have hval : (word (byteAt k s)).toNat = k.toNat / 2 ^ s % 2 ^ 8 :=
    UInt32.toNat_ofNat_of_lt' hbyte
  have hbits : (word (byteAt k s)).toBitVec.getLsbD i = (k.toNat / 2 ^ s % 2 ^ 8).testBit i := by
    rw [← hval]
    rfl
  rw [hbits, Nat.testBit_mod_two_pow, Nat.testBit_div_two_pow, Nat.add_comm]
  rfl

theorem word_bytes (k : UInt32) :
    word (byteAt k 0) ||| (word (byteAt k 8) <<< 8) ||| (word (byteAt k 16) <<< 16) |||
      (word (byteAt k 24) <<< 24) = k := by
  refine UInt32.eq_of_toBitVec_eq (BitVec.eq_of_getLsbD_eq fun i hi => ?_)
  have hback : ∀ s ≤ i, s + (i - s) = i := fun s hs => by omega
  simp only [UInt32.toBitVec_or, UInt32.toBitVec_shiftLeft, UInt32.toBitVec_ofNat,
    BitVec.ofNat_eq_ofNat, BitVec.reduceMod, BitVec.shiftLeft_eq', BitVec.toNat_ofNat,
    Nat.reducePow, Nat.reduceMod, BitVec.getLsbD_or, getLsbD_word, zero_add,
    BitVec.getLsbD_shiftLeft]
  rcases Nat.lt_or_ge i 8 with h8 | h8
  · simp [h8, show i < 16 by omega, show i < 24 by omega]
  rcases Nat.lt_or_ge i 16 with h16 | h16
  · simp [hback, h8, h16, hi, show ¬ i < 8 by omega, show i - 8 < 8 by omega,
      show i < 24 by omega]
  rcases Nat.lt_or_ge i 24 with h24 | h24
  · simp [hback, h16, h24, hi, show ¬ i < 8 by omega, show ¬ i < 16 by omega,
      show ¬ i - 8 < 8 by omega, show i - 16 < 8 by omega]
  · simp [hback, h24, hi, show ¬ i < 8 by omega, show ¬ i < 16 by omega, show ¬ i < 24 by omega,
      show ¬ i - 8 < 8 by omega, show ¬ i - 16 < 8 by omega, show i - 24 < 8 by omega]

end CourseDb.Murmur

namespace CourseDb.ConsistentHashRing

open Murmur Function

def hashOfBlocks (k k' : UInt32) : UInt32 :=
  finalize (mix (mix (0x9747b28c ^^^ scramble k) ^^^ scramble k') ^^^ 8)

theorem blocks_cons (h : UInt32) (a b c d : Byte) (rest : ByteString) :
    blocks h (a :: b :: c :: d :: rest) =
      blocks (mix (h ^^^ scramble
        (word a ||| (word b <<< 8) ||| (word c <<< 16) ||| (word d <<< 24)))) rest := by
  conv_lhs => unfold blocks
  rfl

theorem blocks_nil (h : UInt32) : blocks h [] = h := rfl

theorem hash_eight (a b c d a' b' c' d' : Byte) :
    hash [a, b, c, d, a', b', c', d'] =
      (hashOfBlocks (word a ||| (word b <<< 8) ||| (word c <<< 16) ||| (word d <<< 24))
        (word a' ||| (word b' <<< 8) ||| (word c' <<< 16) ||| (word d' <<< 24))).toNat := by
  have hlength : UInt32.ofNat [a, b, c, d, a', b', c', d'].length = 8 := rfl
  rw [hash, hash32, hlength, blocks_cons, blocks_cons, blocks_nil, hashOfBlocks]

/-- The first block alone reaches every value. -/
theorem hashOfBlocks_surjective (k' : UInt32) : Surjective fun k => hashOfBlocks k k' := by
  have hseed : Surjective fun x : UInt32 => 0x9747b28c ^^^ x := fun y =>
    ⟨0x9747b28c ^^^ y, by simp only [← UInt32.xor_assoc, UInt32.xor_self, UInt32.zero_xor]⟩
  have hfirst : Surjective fun k => mix (0x9747b28c ^^^ scramble k) :=
    mix_surjective.comp (hseed.comp scramble_surjective)
  have hsecond : Surjective fun k => mix (mix (0x9747b28c ^^^ scramble k) ^^^ scramble k') :=
    mix_surjective.comp ((xor_surjective (scramble k')).comp hfirst)
  exact finalize_surjective.comp ((xor_surjective 8).comp hsecond)

/-- Every 32-bit value is the hash of the first point of some node. -/
theorem exists_nodeId {h : ℕ} (hh : h < 2 ^ 32) :
    ∃ nodeId, nodeId ≠ [] ∧ hash (vnodeKey nodeId 0) = h := by
  obtain ⟨k, hk⟩ := hashOfBlocks_surjective
    (word 0 ||| (word 0 <<< 8) ||| (word 35 <<< 16) ||| (word 48 <<< 24)) (UInt32.ofNat h)
  have hkey : vnodeKey [byteAt k 0, byteAt k 8, byteAt k 16, byteAt k 24, 0, 0] 0 =
      [byteAt k 0, byteAt k 8, byteAt k 16, byteAt k 24, 0, 0, 35, 48] := rfl
  refine ⟨[byteAt k 0, byteAt k 8, byteAt k 16, byteAt k 24, 0, 0], by simp, ?_⟩
  rw [hkey, hash_eight, word_bytes, show hashOfBlocks k _ = UInt32.ofNat h from hk,
    UInt32.toNat_ofNat_of_lt' hh]

end CourseDb.ConsistentHashRing
