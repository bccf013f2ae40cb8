/-
# Common.Crc32c — the checksum of log frames and snapshots

`crc32c_extend` of `common/crc32c.cpp`, as its hardware variant computes it: the
documented step of the CRC32 instruction (reflected polynomial `0x82F63B78`) once
for each byte, inverted before and after.  Everything proved about the log uses
the checksum as a function of the bytes only; the concrete runs evaluate it.
-/

namespace Baton

set_option autoImplicit false

def kPolynomialReflected : UInt32 := 0x82F63B78

/-- One bit of the reflected division. -/
def crcShift (c : UInt32) : UInt32 :=
  if c &&& 1 ≠ 0 then (c >>> 1) ^^^ kPolynomialReflected else c >>> 1

/-- `_mm_crc32_u8`: one byte, as eight bits. -/
def crcByte (c : UInt32) (b : UInt8) : UInt32 :=
  crcShift (crcShift (crcShift (crcShift (crcShift (crcShift (crcShift (crcShift
    (c ^^^ b.toUInt32))))))))

def crc32cExtend (crc : UInt32) (data : List UInt8) : UInt32 :=
  ~~~(data.foldl crcByte (~~~crc))

def crc32c (data : List UInt8) : UInt32 := crc32cExtend 0 data

/-- The check value of CRC-32C: the checksum of the nine ASCII digits. -/
example : crc32c [0x31, 0x32, 0x33, 0x34, 0x35, 0x36, 0x37, 0x38, 0x39] = 0xE3069283 := by
  decide +kernel

end Baton
