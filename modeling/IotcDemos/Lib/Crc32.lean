import IotcDemos.Lib.Bytes

set_option autoImplicit false

/-! # CRC-32 (IEEE 802.3)

The reflected CRC-32 with polynomial `0xEDB88320`, initial value and final exclusive or
`0xFFFFFFFF`, one bit at a time: `crc32_ieee` of the devices and `zlib.crc32` of the tools. The
model blobs, the flash store and the PNG files are modelled with it. The spool is modelled over an
arbitrary checksum, and takes this one in its concrete runs.
-/

namespace IotcDemos.Crc32

/-- One bit of the division. -/
def shift (r : UInt32) : UInt32 :=
  if r &&& 1 = 1 then (r >>> 1) ^^^ 0xEDB88320 else r >>> 1

def shifts : ℕ → UInt32 → UInt32
  | 0, r => r
  | k + 1, r => shifts k (shift r)

/-- One byte of the division. -/
def step (r : UInt32) (b : UInt8) : UInt32 := shifts 8 (r ^^^ b.toUInt32)

def ieee (b : Bytes) : UInt32 := b.foldl step 0xFFFFFFFF ^^^ 0xFFFFFFFF

-- the check value of the standard: the checksum of "123456789"
example : ieee [49, 50, 51, 52, 53, 54, 55, 56, 57] = 0xCBF43926 := by decide +kernel

end IotcDemos.Crc32
