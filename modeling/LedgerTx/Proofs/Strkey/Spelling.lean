import LedgerTx.Proofs.Strkey.Base32
import Mathlib.Algebra.Order.Floor.Div

namespace LedgerTx.Base32

/-! # The spelling of bytes

Bits, highest first, in groups of five: zeros fill the last group, and each group is the number of a
symbol in the alphabet. -/

/-- The symbols in the order of their numbers. -/
def alphabet : List Char :=
  "ABCDEFGHIJKLMNOPQRSTUVWXYZ234567".toList

/-- Bits with as many zeros behind them as fill the last group. -/
def filled (width : Nat) (bits : List Bool) : List Bool :=
  bits ++ List.replicate ((width - bits.length % width) % width) false

/-- Bits cut into groups from the front. -/
def groups (width : Nat) (bits : List Bool) : List (List Bool) :=
  (List.range (bits.length / width)).map fun i => (bits.drop (width * i)).take width

/-- The symbols stand in the alphabet in the order of their numbers. -/
theorem getElem?_alphabet {n : Nat} (h : n < 32) : alphabet[n]? = some (symbol n) := by
  have hall : ∀ i : Fin 32, alphabet[i.val]? = some (symbol i) := by
    decide +kernel
  exact hall ⟨n, h⟩

theorem length_groups (width : Nat) (bits : List Bool) :
    (groups width bits).length = bits.length / width := by
  rw [groups, List.length_map, List.length_range]

section

variable {width : Nat} {front : List Bool} (hfront : front.length = width)

include hfront

/-- A whole group in front is the first group. -/
theorem groups_append (hpos : 0 < width) (rest : List Bool) :
    groups width (front ++ rest) = front :: groups width rest := by
  -- one group more fits into the whole
  have hcount : (front ++ rest).length / width = rest.length / width + 1 := by
    rw [List.length_append, hfront, Nat.add_comm, Nat.add_div_right _ hpos]
  have hfirst : (front ++ rest).take width = front := List.take_left' hfront
  have hnext : ∀ i, (front ++ rest).drop (width * (i + 1)) = rest.drop (width * i) := by
    intro i
    rw [Nat.mul_succ, Nat.add_comm, ← List.drop_drop, List.drop_left' hfront]
  unfold groups
  rw [hcount, List.range_succ_eq_map, List.map_cons, List.map_map, Nat.mul_zero, List.drop_zero, hfirst]
  refine congrArg (front :: ·) (List.map_congr_left fun i _ => ?_)
  exact congrArg (List.take width) (hnext i)

/-- Only what follows a whole group has to be filled. -/
theorem filled_append (rest : List Bool) : filled width (front ++ rest) = front ++ filled width rest := by
  have hcount : (front ++ rest).length % width = rest.length % width := by
    rw [List.length_append, hfront, Nat.add_mod_left]
  unfold filled
  rw [hcount, List.append_assoc]

end

/-- The numbers of the groups, once the last one is filled. -/
theorem fives_eq (bits : List Bool) : fives bits = (groups 5 (filled 5 bits)).map Bits.toNat := by
  induction bits using fives.induct with
  | case1 a b c d e rest ih =>
    have hfive : [a, b, c, d, e].length = 5 := rfl
    have hfilled := filled_append hfive rest
    have hgroups := groups_append hfive (by decide) (filled 5 rest)
    rw [fives, ih]
    show _ = (groups 5 (filled 5 ([a, b, c, d, e] ++ rest))).map Bits.toNat
    rw [hfilled, hgroups, List.map_cons]
  | case2 => rfl
  | case3 rest hfive hnil =>
    have hlen := length_of_rest hfive hnil
    -- the last group is filled up to five
    have hzeros : (5 - rest.length % 5) % 5 = 5 - rest.length := by omega
    have hgroup : (rest ++ List.replicate (5 - rest.length) false).length = 5 := by
      rw [List.length_append, List.length_replicate]
      omega
    have hgroups := groups_append hgroup (by decide) []
    rw [List.append_nil] at hgroups
    rw [fives_of_lt hlen.1 hlen.2, filled, hzeros, hgroups]
    rfl

/-- Each group of five has a symbol. -/
theorem map_some_encode (bytes : List UInt8) :
    (encode bytes).map some
      = (groups 5 (filled 5 (bitsOf bytes))).map fun five => alphabet[Bits.toNat five]? := by
  have hsymbol : ∀ n ∈ fives (bitsOf bytes), some (symbol n) = alphabet[n]? :=
    fun n hn => (getElem?_alphabet (lt_of_mem_fives hn)).symm
  have hgroups : (groups 5 (filled 5 (bitsOf bytes))).map (fun five => alphabet[Bits.toNat five]?)
      = ((groups 5 (filled 5 (bitsOf bytes))).map Bits.toNat).map fun n => alphabet[n]? :=
    List.map_map.symm
  rw [encode_eq, List.map_map, hgroups, ← fives_eq]
  exact List.map_congr_left hsymbol

/-- Five bits a symbol, rounded up. -/
theorem length_encode (bytes : List UInt8) : (encode bytes).length = 8 * bytes.length ⌈/⌉ 5 := by
  have hbits := length_bitsOf bytes
  rw [encode_eq, List.length_map, fives_eq, List.length_map, length_groups, filled, List.length_append,
    List.length_replicate, hbits, Nat.ceilDiv_eq_add_pred_div]
  omega

end LedgerTx.Base32
