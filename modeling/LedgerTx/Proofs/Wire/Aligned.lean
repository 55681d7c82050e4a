import LedgerTx.Proofs.Wire.Composed

namespace LedgerTx

/-! # Groups of four bytes

What stands on the wire comes in groups of four bytes.  Byte strings of a fixed size are no exception as
long as their size is none. -/

/-- Codecs that write whole groups of four bytes. -/
class Codec.Aligned {α : Type} (codec : Codec α) : Prop where
  dvd_length : ∀ v, 4 ∣ (codec.encode v).length

namespace Codec.Aligned

variable {α β κ : Type}

/-! ## Single values -/

theorem bigEndian {n : Nat} (h : 4 ∣ n) (v : Nat) : 4 ∣ (BigEndian.ofNat n v).length :=
  (BigEndian.length_ofNat n v).symm ▸ h

instance uint32 : Aligned Codec.uint32 :=
  ⟨fun v => bigEndian (by decide) v.toNat⟩

instance uint64 : Aligned Codec.uint64 :=
  ⟨fun v => bigEndian (by decide) v.toNat⟩

theorem map {codec : Codec β} (h : Aligned codec) (view : Bijection α β) : Aligned (codec.map view) :=
  ⟨fun v => h.dvd_length (view.forth v)⟩

instance int32 : Aligned Codec.int32 := uint32.map _

instance int64 : Aligned Codec.int64 := uint64.map _

instance flag (fault : UInt32 → DecodeError) : Aligned (Codec.flag fault) :=
  ⟨fun b => uint32.dvd_length (if b then 1 else 0)⟩

instance bool : Aligned Codec.bool := flag _

theorem fixed {n : Nat} (h : 4 ∣ n) : Aligned (Codec.fixed n) :=
  ⟨fun v => v.length_toList.symm ▸ h⟩

instance fixed4 : Aligned (Codec.fixed 4) := fixed (by decide)

instance fixed12 : Aligned (Codec.fixed 12) := fixed (by decide)

instance fixed32 : Aligned (Codec.fixed 32) := fixed (by decide)

theorem count (what : String) (max : Nat) : Aligned (Codec.count what max) :=
  ⟨fun n => uint32.dvd_length (UInt32.ofNat n)⟩

/-- The zeros behind the bytes fill up the last group. -/
instance bytes (max : Nat) : Aligned (Codec.bytes max) where
  dvd_length v := by
    have hcount : ((Codec.count "opaque" max).encode v.length).length = 4 := BigEndian.length_ofNat 4 _
    show 4 ∣ (_ ++ v ++ List.replicate (padding v.length) 0 : List UInt8).length
    rw [List.length_append, List.length_append, List.length_replicate, hcount, padding]
    omega

instance string (max : Nat) : Aligned (Codec.string max) :=
  ⟨fun s => (bytes max).dvd_length (Utf8.encode s)⟩

section Constants

variable [Enumeration κ]

instance constant : Aligned (Codec.constant κ) :=
  ⟨fun k => int32.dvd_length (Enumeration.number k)⟩

instance openConstant {title : String} {last : κ} : Aligned (Codec.openConstant title last) :=
  ⟨fun k => int32.dvd_length (Enumeration.number k)⟩

instance arms {τ : Type} {title : String} {constantOf : τ → κ} {arm? : κ → Option τ} :
    Aligned (Codec.arms title constantOf arm?) :=
  ⟨fun t => constant.dvd_length (constantOf t)⟩

end Constants

/-! ## Compound values -/

instance unit : Aligned Codec.unit :=
  ⟨fun _ => Nat.dvd_zero 4⟩

theorem append {front back : List UInt8} (hfront : 4 ∣ front.length) (hback : 4 ∣ back.length) :
    4 ∣ (front ++ back).length := by
  rw [List.length_append]
  exact Nat.dvd_add hfront hback

theorem pair {first : Codec α} {second : Codec β} (hfirst : Aligned first) (hsecond : Aligned second) :
    Aligned (Codec.pair first second) :=
  ⟨fun v => append (hfirst.dvd_length v.1) (hsecond.dvd_length v.2)⟩

theorem sigma {π : κ → Type} {tag : Codec κ} {payload : (k : κ) → Codec (π k)} (htag : Aligned tag)
    (hpayload : ∀ k, Aligned (payload k)) : Aligned (Codec.sigma tag payload) :=
  ⟨fun v => append (htag.dvd_length v.1) ((hpayload v.1).dvd_length v.2)⟩

/-- A count and items are whole groups. -/
theorem list {item : Codec α} (h : Aligned item) (max : Nat) : Aligned (Codec.list max item) where
  dvd_length vs := by
    refine append ((count "array" max).dvd_length vs.length) ?_
    -- item by item
    induction vs with
    | nil => exact Nat.dvd_zero 4
    | cons v vs ih =>
      rw [List.flatMap_cons]
      exact append (h.dvd_length v) ih

theorem option {item : Codec α} (h : Aligned item) : Aligned (Codec.option item) where
  dvd_length o := by
    cases o with
    | none => exact (flag .invalidPresence).dvd_length false
    | some v => exact append ((flag .invalidPresence).dvd_length true) (h.dvd_length v)

theorem empty : Aligned (Codec.empty : Codec α) :=
  ⟨fun _ => Nat.dvd_zero 4⟩

end Codec.Aligned

end LedgerTx
