import BankTrace.RequestError
import BankTrace.Text.Blank

/-!
# Channel masks

A request goes to a set of channels, given by one bit a channel: bit `c` selects channel `c`.
-/

namespace BankTrace

structure ChannelMask where
  bits : BitVec 32
deriving DecidableEq, Repr

namespace ChannelMask

/-- Every channel at once. -/
def all : ChannelMask := ⟨BitVec.allOnes 32⟩

instance : Inhabited ChannelMask := ⟨all⟩

/-- The mask whose bits are those of a 32-bit word. -/
def ofWord (word : UInt32) : ChannelMask := ⟨word.toBitVec⟩

/-- The mask that selects one channel. -/
def single (channel : Nat) : Except RequestError ChannelMask :=
  if channel < maxChannelCount then .ok ⟨1#32 <<< channel⟩ else .error (.channelOutOfRange channel)

/-- The mask that selects the first `count` channels, at least one and at most all. -/
def firstChannels (count : Nat) : Except RequestError ChannelMask :=
  if count = 0 ∨ maxChannelCount < count then .error (.channelCountOutOfRange count)
  else .ok ⟨BitVec.allOnes 32 >>> (maxChannelCount - count)⟩

def isEmpty (mask : ChannelMask) : Bool := mask.bits == 0#32

/-- Whether the mask selects a channel. No channel from 32 on is selected. -/
def contains (mask : ChannelMask) (channel : Nat) : Bool := mask.bits.getLsbD channel

/-- The selected channels in ascending order. -/
def channels (mask : ChannelMask) : List Nat :=
  (List.range maxChannelCount).filter mask.contains

/-- The number of selected channels. -/
def channelCount (mask : ChannelMask) : Nat := mask.bits.cpop.toNat

/-- The mask as a hexadecimal literal. -/
def literal (mask : ChannelMask) : String := "0x" ++ Numeral.write 16 mask.bits.toNat

/-- The mask in diagnostic text. -/
def label (mask : ChannelMask) : String := "ChannelMask(" ++ Numeral.write 10 mask.bits.toNat ++ ")"

/-- The number a literal stands for: hexadecimal behind `0x` or `0X`, else decimal. -/
def numberOfLiteral? : List Char → Option Nat
  | '0' :: 'x' :: digits => Numeral.read? 16 digits
  | '0' :: 'X' :: digits => Numeral.read? 16 digits
  | digits => Numeral.read? 10 digits

/-- The mask a literal stands for. Blanks around the literal do not count. -/
def ofString (s : String) : Except RequestError ChannelMask :=
  match numberOfLiteral? (Blank.trim s.toList) with
  | some n => if n < UInt32.size then .ok ⟨BitVec.ofNat 32 n⟩ else .error (.invalidChannelMask s)
  | none => .error (.invalidChannelMask s)

end ChannelMask

end BankTrace
