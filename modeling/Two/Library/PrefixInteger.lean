import Mathlib.Tactic.Common
import Mathlib.Algebra.Order.Ring.Nat

/-!
# Prefix integers

A natural number shares its first byte with a tag: the low `p` bits of the byte hold the number if
it is below `2 ^ p - 1`. Otherwise they are all ones, and what the number exceeds them by follows in
groups of seven bits, the lowest group first, each but the last with the high bit set.

## Main definitions

* `PrefixInteger.groups`: the bytes behind the first one
* `PrefixInteger.encode p tag n`: the bytes of `n` behind the tag `tag`

## Main results

* `exists_encode_eq`: the first byte is the tag followed by the prefix; the other bytes do not
  depend on the tag
* `encode_append_inj`: tag and number are determined by any bytes that begin with them
-/

namespace PrefixInteger

/-- The groups of seven bits of a number, the lowest first. -/
def groups (n : ℕ) : List UInt8 :=
  if n < 128 then [UInt8.ofNat n] else UInt8.ofNat (n % 128 + 128) :: groups (n / 128)

/-- A number behind a tag, with a prefix of `p` bits. -/
def encode (p tag n : ℕ) : List UInt8 :=
  if n < 2 ^ p - 1 then [UInt8.ofNat (tag * 2 ^ p + n)]
  else UInt8.ofNat (tag * 2 ^ p + (2 ^ p - 1)) :: groups (n - (2 ^ p - 1))

theorem groups_of_lt {n : ℕ} (h : n < 128) : groups n = [UInt8.ofNat n] := by
  rw [groups, if_pos h]

theorem groups_of_le {n : ℕ} (h : 128 ≤ n) :
    groups n = UInt8.ofNat (n % 128 + 128) :: groups (n / 128) := by
  rw [groups, if_neg (by omega)]

variable {p tag : ℕ}

/-- A tag with a prefix below it fits into a byte. -/
theorem toNat_tag_add (hp : p ≤ 8) (htag : tag < 2 ^ (8 - p)) {m : ℕ} (hm : m < 2 ^ p) :
    (UInt8.ofNat (tag * 2 ^ p + m)).toNat = tag * 2 ^ p + m := by
  have h256 : 2 ^ (8 - p) * 2 ^ p = 2 ^ 8 := by rw [← pow_add, Nat.sub_add_cancel hp]
  have hle : (tag + 1) * 2 ^ p ≤ 2 ^ 8 := by
    rw [← h256]
    exact Nat.mul_le_mul_right _ htag
  rw [add_mul, one_mul] at hle
  rw [UInt8.toNat_ofNat', Nat.mod_eq_of_lt (by omega)]

/-- **The tag** changes nothing but the high bits of the first byte. -/
theorem exists_encode_eq (hp : p ≤ 8) (htag : tag < 2 ^ (8 - p)) (n : ℕ) :
    ∃ (b c : UInt8) (bs : List UInt8), encode p tag n = b :: bs ∧ encode p 0 n = c :: bs ∧
      b.toNat = tag * 2 ^ p + c.toNat ∧ c.toNat < 2 ^ p := by
  have hpos := Nat.two_pow_pos p
  have hzero : 0 < 2 ^ (8 - p) := Nat.two_pow_pos _
  by_cases h : n < 2 ^ p - 1
  · have hm : n < 2 ^ p := by omega
    refine ⟨_, _, [], by rw [encode, if_pos h], by rw [encode, if_pos h], ?_, ?_⟩
    · rw [toNat_tag_add hp htag hm, toNat_tag_add hp hzero hm, Nat.zero_mul, Nat.zero_add]
    · rw [toNat_tag_add hp hzero hm]
      omega
  · have hm : 2 ^ p - 1 < 2 ^ p := by omega
    refine ⟨_, _, _, by rw [encode, if_neg h], by rw [encode, if_neg h], ?_, ?_⟩
    · rw [toNat_tag_add hp htag hm, toNat_tag_add hp hzero hm, Nat.zero_mul, Nat.zero_add]
    · rw [toNat_tag_add hp hzero hm]
      omega

theorem groups_append_inj {n m : ℕ} {x y : List UInt8} (h : groups n ++ x = groups m ++ y) :
    n = m ∧ x = y := by
  induction n using Nat.strongRecOn generalizing m with
  | ind n ih =>
    rcases Nat.lt_or_ge n 128 with hn | hn
    all_goals rcases Nat.lt_or_ge m 128 with hm | hm
    · rw [groups_of_lt hn, groups_of_lt hm] at h
      obtain ⟨hb, rfl⟩ := List.cons.inj h
      have := congrArg UInt8.toNat hb
      rw [UInt8.toNat_ofNat', UInt8.toNat_ofNat'] at this
      exact ⟨by omega, rfl⟩
    -- the high bit tells the last group from the others
    · rw [groups_of_lt hn, groups_of_le hm] at h
      have := congrArg UInt8.toNat (List.cons.inj h).1
      rw [UInt8.toNat_ofNat', UInt8.toNat_ofNat'] at this
      omega
    · rw [groups_of_le hn, groups_of_lt hm] at h
      have := congrArg UInt8.toNat (List.cons.inj h).1
      rw [UInt8.toNat_ofNat', UInt8.toNat_ofNat'] at this
      omega
    · rw [groups_of_le hn, groups_of_le hm] at h
      obtain ⟨hb, htail⟩ := List.cons.inj h
      have := congrArg UInt8.toNat hb
      rw [UInt8.toNat_ofNat', UInt8.toNat_ofNat'] at this
      obtain ⟨hdiv, rfl⟩ := ih (n / 128) (by omega) htail
      exact ⟨by omega, rfl⟩

/-- **Prefix integers are self-delimiting**: what follows the tag and the number is known. -/
theorem encode_append_inj (hp : p ≤ 8) {tag' : ℕ} (htag : tag < 2 ^ (8 - p))
    (htag' : tag' < 2 ^ (8 - p)) {n m : ℕ} {x y : List UInt8}
    (h : encode p tag n ++ x = encode p tag' m ++ y) : tag = tag' ∧ n = m ∧ x = y := by
  have hpos := Nat.two_pow_pos p
  -- the first bytes agree, so their tags and their prefixes do
  have head : ∀ {i j : ℕ}, i < 2 ^ p → j < 2 ^ p →
      UInt8.ofNat (tag * 2 ^ p + i) = UInt8.ofNat (tag' * 2 ^ p + j) → tag = tag' ∧ i = j := by
    intro i j hi hj heq
    have := congrArg UInt8.toNat heq
    rw [toNat_tag_add hp htag hi, toNat_tag_add hp htag' hj] at this
    have hdiv := congrArg (· / 2 ^ p) this
    simp only [Nat.mul_comm _ (2 ^ p), Nat.mul_add_div hpos, Nat.div_eq_of_lt hi,
      Nat.div_eq_of_lt hj, Nat.add_zero] at hdiv
    subst hdiv
    exact ⟨rfl, by omega⟩
  by_cases hn : n < 2 ^ p - 1
  all_goals by_cases hm : m < 2 ^ p - 1
  · rw [encode, if_pos hn, encode, if_pos hm] at h
    obtain ⟨hb, rfl⟩ := List.cons.inj h
    obtain ⟨rfl, rfl⟩ := head (by omega) (by omega) hb
    exact ⟨rfl, rfl, rfl⟩
  · rw [encode, if_pos hn, encode, if_neg hm] at h
    have := (head (by omega) (by omega) (List.cons.inj h).1).2
    omega
  · rw [encode, if_neg hn, encode, if_pos hm] at h
    have := (head (by omega) (by omega) (List.cons.inj h).1).2
    omega
  · rw [encode, if_neg hn, encode, if_neg hm] at h
    obtain ⟨hb, htail⟩ := List.cons.inj h
    obtain ⟨rfl, -⟩ := head (by omega) (by omega) hb
    obtain ⟨hrest, rfl⟩ := groups_append_inj htail
    exact ⟨rfl, by omega, rfl⟩

end PrefixInteger
