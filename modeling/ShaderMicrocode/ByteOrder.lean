/-!
# Byte order

Microcode dumps store each dword as four bytes, least or most significant first.
-/
namespace ShaderMicrocode

inductive ByteOrder where
  | little
  | big
deriving DecidableEq, Inhabited

namespace ByteOrder

def word (order : ByteOrder) (a b c d : UInt8) : UInt32 :=
  match order with
  | little => a.toUInt32 ||| b.toUInt32 <<< 8 ||| c.toUInt32 <<< 16 ||| d.toUInt32 <<< 24
  | big => d.toUInt32 ||| c.toUInt32 <<< 8 ||| b.toUInt32 <<< 16 ||| a.toUInt32 <<< 24

def bytes (order : ByteOrder) (w : UInt32) : List UInt8 :=
  let rising := [w.toUInt8, (w >>> 8).toUInt8, (w >>> 16).toUInt8, (w >>> 24).toUInt8]
  match order with
  | little => rising
  | big => rising.reverse

/-- The dwords of a dump; nothing when the last dword is cut short. -/
def words? (order : ByteOrder) : List UInt8 → Option (List UInt32)
  | [] => some []
  | a :: b :: c :: d :: rest => (words? order rest).map (order.word a b c d :: ·)
  | _ => none

/-- The dump of a list of dwords. -/
def dump (order : ByteOrder) (ws : List UInt32) : List UInt8 := ws.flatMap order.bytes

end ByteOrder

end ShaderMicrocode
