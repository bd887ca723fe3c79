/-!
# ALU opcode tables

Name and operand shape of each ALU opcode. A look-up past the end of a table, or at an unassigned opcode,
finds nothing.
-/
namespace ShaderMicrocode.Alu

structure OpcodeInfo where
  name : String
  argumentCount : UInt32
  /-- Swizzle components read from each source. -/
  componentCount : UInt32
deriving DecidableEq, Inhabited

structure OpcodeTable where
  entries : List (Option OpcodeInfo)

namespace OpcodeTable

def get? (t : OpcodeTable) (opcode : UInt32) : Option OpcodeInfo := t.entries[opcode.toNat]?.join

def length (t : OpcodeTable) : Nat := t.entries.length

def isEmpty (t : OpcodeTable) : Bool := t.entries.isEmpty

end OpcodeTable

namespace Vector

/-- Vector opcodes 0 to 31. -/
def opcodes : OpcodeTable where
  entries :=
    [ some ⟨"add", 2, 4⟩, some ⟨"mul", 2, 4⟩, some ⟨"max", 2, 4⟩, some ⟨"min", 2, 4⟩
    , some ⟨"seq", 2, 4⟩, some ⟨"sgt", 2, 4⟩, some ⟨"sge", 2, 4⟩, some ⟨"sne", 2, 4⟩
    , some ⟨"frc", 1, 4⟩, some ⟨"trunc", 1, 4⟩, some ⟨"floor", 1, 4⟩, some ⟨"mad", 3, 4⟩
    , some ⟨"cndeq", 3, 4⟩, some ⟨"cndge", 3, 4⟩, some ⟨"cndgt", 3, 4⟩, some ⟨"dp4", 2, 4⟩
    , some ⟨"dp3", 2, 4⟩, some ⟨"dp2add", 3, 4⟩, some ⟨"cube", 2, 4⟩, some ⟨"max4", 1, 4⟩
    , some ⟨"setp_eq_push", 2, 4⟩, some ⟨"setp_ne_push", 2, 4⟩, some ⟨"setp_gt_push", 2, 4⟩, some ⟨"setp_ge_push", 2, 4⟩
    , some ⟨"kill_eq", 2, 4⟩, some ⟨"kill_gt", 2, 4⟩, some ⟨"kill_ge", 2, 4⟩, some ⟨"kill_ne", 2, 4⟩
    , some ⟨"dst", 2, 4⟩, some ⟨"maxa", 2, 4⟩, some ⟨"opc_30", 2, 4⟩, some ⟨"opc_31", 2, 4⟩ ]

/-- Opcodes that act even when nothing is written: the predicate pushes, the kills and `maxa`. -/
def hasSideEffects (opcode : UInt32) : Bool := (20 ≤ opcode && opcode ≤ 27) || opcode == 29

end Vector

namespace Scalar

/-- Scalar opcodes 0 to 63; 41 and those from 51 up are unassigned. -/
def opcodes : OpcodeTable where
  entries :=
    [ some ⟨"adds", 1, 2⟩, some ⟨"adds_prev", 1, 1⟩, some ⟨"muls", 1, 2⟩, some ⟨"muls_prev", 1, 1⟩
    , some ⟨"muls_prev2", 1, 2⟩, some ⟨"maxs", 1, 2⟩, some ⟨"mins", 1, 2⟩, some ⟨"seqs", 1, 1⟩
    , some ⟨"sgts", 1, 1⟩, some ⟨"sges", 1, 1⟩, some ⟨"snes", 1, 1⟩, some ⟨"frcs", 1, 1⟩
    , some ⟨"truncs", 1, 1⟩, some ⟨"floors", 1, 1⟩, some ⟨"exp", 1, 1⟩, some ⟨"logc", 1, 1⟩
    , some ⟨"log", 1, 1⟩, some ⟨"rcpc", 1, 1⟩, some ⟨"rcpf", 1, 1⟩, some ⟨"rcp", 1, 1⟩
    , some ⟨"rsqc", 1, 1⟩, some ⟨"rsqf", 1, 1⟩, some ⟨"rsq", 1, 1⟩, some ⟨"maxas", 1, 2⟩
    , some ⟨"maxasf", 1, 2⟩, some ⟨"subs", 1, 2⟩, some ⟨"subs_prev", 1, 1⟩, some ⟨"setp_eq", 1, 1⟩
    , some ⟨"setp_ne", 1, 1⟩, some ⟨"setp_gt", 1, 1⟩, some ⟨"setp_ge", 1, 1⟩, some ⟨"setp_inv", 1, 1⟩
    , some ⟨"setp_pop", 1, 1⟩, some ⟨"setp_clr", 0, 0⟩, some ⟨"setp_rstr", 1, 1⟩, some ⟨"kills_eq", 1, 1⟩
    , some ⟨"kills_gt", 1, 1⟩, some ⟨"kills_ge", 1, 1⟩, some ⟨"kills_ne", 1, 1⟩, some ⟨"kills_one", 1, 1⟩
    , some ⟨"sqrt", 1, 1⟩, none, some ⟨"mulsc", 2, 1⟩, some ⟨"mulsc", 2, 1⟩
    , some ⟨"addsc", 2, 1⟩, some ⟨"addsc", 2, 1⟩, some ⟨"subsc", 2, 1⟩, some ⟨"subsc", 2, 1⟩
    , some ⟨"sin", 1, 1⟩, some ⟨"cos", 1, 1⟩, some ⟨"retain_prev", 0, 0⟩ ] ++ List.replicate 13 none

/-- The opcode that leaves the previous scalar result alone. -/
def retainPrev : UInt32 := 50

end Scalar

end ShaderMicrocode.Alu
