import LedgerTx.Wire.Codec
import LedgerTx.Proofs.Wire.Decoder

namespace LedgerTx

/-! # Slices within bounds

Lists have no places to go out of bounds of, so a reader of lists does not say that the same reader of
an array stays inside it.  Here slices are taken and copied by their places, and a slice that is not
there ends the computation with no result at all, not even an error. -/

/-- Enough bytes need no filling up. -/
theorem FixedBytes.toList_ofListPadded {n : Nat} {bytes : List UInt8} (h : n ≤ bytes.length) :
    (ofListPadded n bytes).toList = bytes.take n := by
  unfold ofListPadded
  dsimp only
  exact List.take_append_of_le_length h

/-- Just as many bytes as there is room for are kept as they are. -/
theorem FixedBytes.toList_ofListPadded_length {n : Nat} {bytes : List UInt8} (h : bytes.length = n) :
    (ofListPadded n bytes).toList = bytes := by
  rw [toList_ofListPadded (Nat.le_of_eq h.symm), List.take_of_length_le (Nat.le_of_eq h)]

/-- A computation that fails with an error, or ends with nothing at a slice out of bounds. -/
abbrev Guarded (ε : Type) := ExceptT ε Option

namespace Guarded

variable {ε ε' α β : Type}

/-- What a computation gives that takes no slices. -/
def result (x : Except ε α) : Guarded ε α :=
  ExceptT.mk (some x)

/-- The difference of two lengths, which is no length if it is negative. -/
def minus (length less : Nat) : Guarded ε Nat :=
  ExceptT.mk (if less ≤ length then some (.ok (length - less)) else none)

/-- The bytes from one place up to another. -/
def slice (bytes : List UInt8) (start stop : Nat) : Guarded ε (List UInt8) :=
  ExceptT.mk
    (if start ≤ stop ∧ stop ≤ bytes.length then some (.ok ((bytes.take stop).drop start)) else none)

/-- The byte at a place. -/
def byteAt (bytes : List UInt8) (place : Nat) : Guarded ε UInt8 :=
  ExceptT.mk (bytes[place]?.map .ok)

/-- The copy of a slice into an array of `n` bytes, which must be just as long. -/
def copy (n : Nat) (bytes : List UInt8) : Guarded ε (FixedBytes n) :=
  ExceptT.mk ((FixedBytes.ofList? bytes).map .ok)

/-- The copy of the `n` bytes from a place on. -/
def copySlice (n : Nat) (bytes : List UInt8) (start : Nat) : Guarded ε (FixedBytes n) := do
  let front ← slice bytes start (start + n)
  copy n front

/-! ## Within bounds -/

theorem minus_eq {length less : Nat} (h : less ≤ length) :
    (minus length less : Guarded ε Nat) = result (.ok (length - less)) := by
  unfold minus
  rw [if_pos h]
  rfl

/-- A slice between two places of a byte string is there. -/
theorem slice_eq {bytes : List UInt8} {start stop : Nat} (hstart : start ≤ stop)
    (hstop : stop ≤ bytes.length) :
    (slice bytes start stop : Guarded ε _) = result (.ok ((bytes.take stop).drop start)) := by
  unfold slice
  rw [if_pos ⟨hstart, hstop⟩]
  rfl

/-- A slice up to the end. -/
theorem slice_to_length {bytes : List UInt8} {start : Nat} (h : start ≤ bytes.length) :
    (slice bytes start bytes.length : Guarded ε _) = result (.ok (bytes.drop start)) := by
  rw [slice_eq h (Nat.le_refl _), List.take_length]

/-- A copy of as many bytes as the array has is there. -/
theorem copy_eq {n : Nat} {bytes : List UInt8} (h : bytes.length = n) :
    (copy n bytes : Guarded ε _) = result (.ok ⟨bytes, h⟩) := by
  have hsome : FixedBytes.ofList? bytes = some (⟨bytes, h⟩ : FixedBytes n) := dif_pos h
  unfold copy
  rw [hsome]
  rfl

/-- A copy of bytes that are there is a copy with nothing to fill up. -/
theorem copy_eq_ofListPadded {n : Nat} {bytes : List UInt8} (h : bytes.length = n) :
    (copy n bytes : Guarded ε _) = result (.ok (.ofListPadded n bytes)) := by
  have hkey : (⟨bytes, h⟩ : FixedBytes n) = FixedBytes.ofListPadded n bytes :=
    FixedBytes.ext (FixedBytes.toList_ofListPadded_length h).symm
  rw [copy_eq h, hkey]

/-- A slice that is as long as the array, and is there, can be copied into it. -/
theorem copySlice_eq {n : Nat} {bytes : List UInt8} {start : Nat} (h : start + n ≤ bytes.length) :
    (copySlice n bytes start : Guarded ε _) = result (.ok (.ofListPadded n (bytes.drop start))) := by
  -- what is cut off behind first is as good as what is taken in front afterwards
  have hslice : (bytes.take (start + n)).drop start = (bytes.drop start).take n := by
    rw [List.drop_take, Nat.add_sub_cancel_left]
  have hroom : n ≤ (bytes.drop start).length := by
    rw [List.length_drop]
    omega
  have hfull : ((bytes.drop start).take n).length = n := by
    rw [List.length_take, Nat.min_eq_left hroom]
  have hcopy : (⟨(bytes.drop start).take n, hfull⟩ : FixedBytes n)
      = FixedBytes.ofListPadded n (bytes.drop start) :=
    FixedBytes.ext (FixedBytes.toList_ofListPadded hroom).symm
  unfold copySlice
  rw [slice_eq (Nat.le_add_right _ _) h, hslice]
  exact (copy_eq hfull).trans (congrArg (fun v => result (.ok v)) hcopy)

/-! ## One after the other -/

theorem result_ok_bind (a : α) (f : α → Guarded ε β) : (result (.ok a) >>= f) = f a :=
  rfl

/-- A sequence takes no slice out of bounds if what follows takes none after a success. -/
theorem result_bind {x : Except ε α} {f : α → Guarded ε β} {g : α → Except ε β}
    (h : ∀ a, x = .ok a → f a = result (g a)) : (result x >>= f) = result (x >>= g) := by
  cases x with
  | error cause => rfl
  | ok a => exact h a rfl

end Guarded

/-! ## Reading by places -/

/-- A byte string and the place up to which it has been read. -/
structure Cursor where
  bytes : List UInt8
  place : Nat

namespace Cursor

open Guarded

/-- The bytes that are still to be read. -/
def rest (cursor : Cursor) : List UInt8 :=
  cursor.bytes.drop cursor.place

/-- Whether the place is one in the byte string. -/
def InBounds (cursor : Cursor) : Prop :=
  cursor.place ≤ cursor.bytes.length

/-- Takes the next `n` bytes. -/
def take (cursor : Cursor) (n : Nat) : Guarded DecodeError (List UInt8 × Cursor) := do
  let remaining ← minus cursor.bytes.length cursor.place
  if remaining < n then throw (.tooShort n remaining)
  let front ← slice cursor.bytes cursor.place (cursor.place + n)
  return (front, ⟨cursor.bytes, cursor.place + n⟩)

/-- Takes an unsigned number of 32 bits. -/
def word (cursor : Cursor) : Guarded DecodeError (UInt32 × Cursor) := do
  let (front, cursor) ← cursor.take 4
  let word ← copy 4 front
  return (UInt32.ofNat (BigEndian.toNat word.toList), cursor)

/-- Takes a count of at most `max`. -/
def count (cursor : Cursor) (max : Nat) : Guarded DecodeError (Nat × Cursor) := do
  let (word, cursor) ← cursor.word
  if word.toNat > max then throw (.lengthExceeded "opaque" max word.toNat)
  return (word.toNat, cursor)

/-- Takes a byte string of at most `max` bytes after their count, and the zeros that fill it up. -/
def counted (cursor : Cursor) (max : Nat) : Guarded DecodeError (List UInt8 × Cursor) := do
  let (length, cursor) ← cursor.count max
  let (v, cursor) ← cursor.take length
  let (zeros, cursor) ← cursor.take (Codec.padding length)
  if zeros.all (· == 0) then return (v, cursor) else throw .nonZeroPadding

/-- Succeeds at the end of the byte string only. -/
def finish (cursor : Cursor) : Guarded DecodeError Unit := do
  let remaining ← minus cursor.bytes.length cursor.place
  if remaining = 0 then return () else throw (.trailingBytes remaining)

/-- Reads a value that takes up the whole byte string. -/
def whole {α : Type} (read : Cursor → Guarded DecodeError (α × Cursor)) (bytes : List UInt8) :
    Guarded DecodeError α := do
  let (v, cursor) ← read ⟨bytes, 0⟩
  cursor.finish
  return v

/-- Reading by places stays in bounds and gives what reading from the front gives. -/
inductive Agrees {α : Type} :
    Guarded DecodeError (α × Cursor) → Except Decoder.Failure (α × List UInt8) → Prop
  | ok (v : α) {cursor : Cursor} (h : cursor.InBounds) :
    Agrees (result (.ok (v, cursor))) (.ok (v, cursor.rest))
  | error (failure : Decoder.Failure) : Agrees (result (.error failure.cause)) (.error failure)

variable {α β : Type} {cursor : Cursor}

/-- Reading on by places from where one has stopped agrees with reading on from the rest. -/
theorem Agrees.bind {x : Guarded DecodeError (α × Cursor)}
    {y : Except Decoder.Failure (α × List UInt8)} (h : Agrees x y)
    {f : α × Cursor → Guarded DecodeError (β × Cursor)}
    {g : α × List UInt8 → Except Decoder.Failure (β × List UInt8)}
    (hnext : ∀ v cursor, cursor.InBounds → y = .ok (v, cursor.rest) →
      Agrees (f (v, cursor)) (g (v, cursor.rest))) :
    Agrees (x >>= f) (y >>= g) := by
  cases h with
  | ok v hbounds => exact hnext v _ hbounds rfl
  | error failure => exact .error failure

/-- The next bytes by their places are those at the front of the rest. -/
theorem agrees_take (h : cursor.InBounds) (n : Nat) :
    Agrees (cursor.take n) (Decoder.take n cursor.rest) := by
  have hplace : cursor.place ≤ cursor.bytes.length := h
  have hremaining : cursor.rest.length = cursor.bytes.length - cursor.place := List.length_drop
  unfold take Decoder.take
  rw [minus_eq hplace, result_ok_bind]
  dsimp only
  rw [List.length_take]
  -- the two ways ask in different words whether there are enough bytes
  by_cases hshort : cursor.bytes.length - cursor.place < n
  · have hfail : ¬min n cursor.rest.length = n := by omega
    rw [if_pos hshort, if_neg hfail, hremaining]
    exact .error ⟨.tooShort n (cursor.bytes.length - cursor.place), cursor.rest⟩
  · have hfull : min n cursor.rest.length = n := by omega
    have hstop : cursor.place + n ≤ cursor.bytes.length := by omega
    have hfront : (cursor.bytes.take (cursor.place + n)).drop cursor.place = cursor.rest.take n := by
      rw [List.drop_take, Nat.add_sub_cancel_left]
      rfl
    have hrest : cursor.rest.drop n = (Cursor.mk cursor.bytes (cursor.place + n)).rest :=
      List.drop_drop
    rw [if_neg hshort, if_pos hfull, hrest, slice_eq (Nat.le_add_right _ _) hstop, hfront]
    exact .ok (cursor.rest.take n) hstop

/-- A word is four bytes, which can be copied as an array of four. -/
theorem agrees_word (h : cursor.InBounds) :
    Agrees cursor.word (Codec.uint32.decode .standard cursor.rest) := by
  unfold word
  refine (agrees_take h 4).bind fun front cursor hbounds hread => ?_
  -- what is copied has the size of the copy, since that many bytes were taken
  have hfour : front.length = 4 := (Decoder.take_eq_ok.mp hread).1
  dsimp only
  rw [copy_eq hfour]
  exact .ok _ hbounds

/-- Counts are limited in both ways of reading. -/
theorem agrees_count (h : cursor.InBounds) {max : Nat} (hmax : max ≤ Rules.maxCount) :
    Agrees (cursor.count max) ((Codec.count "opaque" max).decode .standard cursor.rest) := by
  have hlimit : Rules.standard.limit max = max := Nat.min_eq_left hmax
  unfold count
  refine (agrees_word h).bind fun word cursor hbounds _ => ?_
  dsimp only
  rw [hlimit]
  by_cases hlong : word.toNat > max
  · rw [if_pos hlong, if_neg (Nat.not_le_of_gt hlong)]
    exact .error ⟨.lengthExceeded "opaque" max word.toNat, cursor.rest⟩
  · rw [if_neg hlong, if_pos (Nat.le_of_not_gt hlong)]
    exact .ok _ hbounds

/-- A byte string is read with its count and its padding. -/
theorem agrees_counted (h : cursor.InBounds) {max : Nat} (hmax : max ≤ Rules.maxCount) :
    Agrees (cursor.counted max) ((Codec.bytes max).decode .standard cursor.rest) := by
  unfold counted
  -- the count, the bytes, and the padding, each from where the last one has stopped
  refine (agrees_count h hmax).bind fun length cursor hbounds _ => ?_
  refine (agrees_take hbounds length).bind fun v cursor hbounds _ => ?_
  refine (agrees_take hbounds _).bind fun zeros cursor hbounds _ => ?_
  dsimp only
  by_cases hzeros : (zeros.all fun b => b == 0) = true
  · rw [if_pos hzeros, if_pos hzeros]
    exact .ok v hbounds
  · rw [if_neg hzeros, if_neg hzeros]
    exact .error ⟨.nonZeroPadding, cursor.rest⟩

/-- The end of the byte string is where nothing is left. -/
theorem finish_eq (h : cursor.InBounds) :
    cursor.finish = result (Decoder.finish cursor.rest) := by
  have hplace : cursor.place ≤ cursor.bytes.length := h
  have hremaining : cursor.rest.length = cursor.bytes.length - cursor.place := List.length_drop
  unfold finish
  rw [minus_eq hplace, result_ok_bind, ← hremaining]
  cases hrest : cursor.rest with
  | nil => rfl
  | cons b more => rfl

/-- What takes up all of a byte string is read alike both ways. -/
theorem whole_eq {read : Cursor → Guarded DecodeError (α × Cursor)} {decode : Decoder α}
    (h : ∀ cursor, cursor.InBounds → Agrees (read cursor) (decode cursor.rest)) (bytes : List UInt8) :
    whole read bytes = result (Decoder.whole decode bytes) := by
  have hbegin := h ⟨bytes, 0⟩ (Nat.zero_le _)
  have hrest : (Cursor.mk bytes 0).rest = bytes := List.drop_zero
  rw [hrest] at hbegin
  unfold whole Decoder.whole
  generalize read ⟨bytes, 0⟩ = x at hbegin
  generalize decode bytes = y at hbegin
  cases hbegin with
  | error failure => rfl
  | @ok v cursor hbounds =>
    dsimp only [result_ok_bind]
    rw [finish_eq hbounds]
    exact result_bind fun _ _ => rfl

end Cursor

end LedgerTx
