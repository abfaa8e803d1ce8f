/-!
# Digests of state vectors

A 64-bit digest that spreads a state vector over the whole word: bytes are folded in one by one and
the result is mixed, so that its high and its low bits can be used apart from each other.
-/

namespace Hazard

abbrev Bytes := List UInt8

namespace Digest

def seed : UInt64 := 0xcbf29ce484222325

def multiplier : UInt64 := 0x00000100000001b3

def absorb (accumulator : UInt64) (byte : UInt8) : UInt64 :=
  (accumulator ^^^ byte.toUInt64) * multiplier

def foldHigh (word : UInt64) : UInt64 := word ^^^ (word >>> 33)

def mix (word : UInt64) : UInt64 :=
  foldHigh (foldHigh (foldHigh word * 0xff51afd7ed558ccd) * 0xc4ceb9fe1a85ec53)

end Digest

def Bytes.digest (bytes : Bytes) : UInt64 := Digest.mix (bytes.foldl Digest.absorb Digest.seed)

end Hazard
