import Loom.Bytes

set_option autoImplicit false

namespace Loom.Checksum

def polynomial : UInt32 := 0xEDB88320

def bitStep (register : UInt32) : UInt32 :=
  if register &&& 1 = 1 then (register >>> 1) ^^^ polynomial else register >>> 1

def bitSteps : Nat → UInt32 → UInt32
  | 0, register => register
  | n + 1, register => bitSteps n (bitStep register)

def byteStep (register : UInt32) (byte : UInt8) : UInt32 :=
  bitSteps 8 (register ^^^ byte.toUInt32)

def crc32 (bytes : Bytes) : UInt32 :=
  bytes.foldl byteStep 0xFFFFFFFF ^^^ 0xFFFFFFFF

-- The check value that the standard gives for the nine digits.
example : crc32 (Bytes.ofText "123456789") = 0xCBF43926 := by decide +kernel

end Loom.Checksum
