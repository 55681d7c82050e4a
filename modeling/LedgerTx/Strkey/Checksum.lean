namespace LedgerTx.Checksum

/-! # The checksum of strkeys

The cyclic redundancy check CRC-16/XMODEM: polynomial `x^16 + x^12 + x^5 + 1`, starting from zero. -/

/-- Multiplies by `x` modulo the polynomial. -/
def shift (crc : UInt16) : UInt16 :=
  if crc &&& 0x8000 ≠ 0 then (crc <<< 1) ^^^ 0x1021 else crc <<< 1

/-- Takes one byte into the checksum. -/
def update (crc : UInt16) (b : UInt8) : UInt16 :=
  Nat.repeat shift 8 (crc ^^^ (b.toUInt16 <<< 8))

/-- The checksum of a byte string. -/
def crc (bytes : List UInt8) : UInt16 :=
  bytes.foldl update 0

/-- The checksum as it stands in a strkey, low byte first. -/
def bytesOf (bytes : List UInt8) : List UInt8 :=
  let sum := crc bytes
  [sum.toUInt8, (sum >>> 8).toUInt8]

end LedgerTx.Checksum
