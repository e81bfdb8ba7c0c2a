import SicXe.Catalog.Basic

/-!
# The standard catalog

The 59 machine instructions of the SIC/XE architecture. Instructions of format 3 may be written in
format 4.
-/
namespace SicXe.Catalog

/-- The SIC/XE instruction set. -/
def standard : Catalog where
  entries := [
    .machine "ADD" 0x18 .three,
    .machine "ADDF" 0x58 .three,
    .machine "ADDR" 0x90 .two,
    .machine "AND" 0x40 .three,
    .machine "CLEAR" 0xB4 .two,
    .machine "COMP" 0x28 .three,
    .machine "COMPF" 0x88 .three,
    .machine "COMPR" 0xA0 .two,
    .machine "DIV" 0x24 .three,
    .machine "DIVF" 0x64 .three,
    .machine "DIVR" 0x9C .two,
    .machine "FIX" 0xC4 .one,
    .machine "FLOAT" 0xC0 .one,
    .machine "HIO" 0xF4 .one,
    .machine "J" 0x3C .three,
    .machine "JEQ" 0x30 .three,
    .machine "JGT" 0x34 .three,
    .machine "JLT" 0x38 .three,
    .machine "JSUB" 0x48 .three,
    .machine "LDA" 0x00 .three,
    .machine "LDB" 0x68 .three,
    .machine "LDCH" 0x50 .three,
    .machine "LDF" 0x70 .three,
    .machine "LDL" 0x08 .three,
    .machine "LDS" 0x6C .three,
    .machine "LDT" 0x74 .three,
    .machine "LDX" 0x04 .three,
    .machine "LPS" 0xD0 .three,
    .machine "MUL" 0x20 .three,
    .machine "MULF" 0x60 .three,
    .machine "MULR" 0x98 .two,
    .machine "NORM" 0xC8 .one,
    .machine "OR" 0x44 .three,
    .machine "RD" 0xD8 .three,
    .machine "RMO" 0xAC .two,
    .machine "RSUB" 0x4C .three,
    .machine "SHIFTL" 0xA4 .two,
    .machine "SHIFTR" 0xA8 .two,
    .machine "SIO" 0xF0 .one,
    .machine "SSK" 0xEC .three,
    .machine "STA" 0x0C .three,
    .machine "STB" 0x78 .three,
    .machine "STCH" 0x54 .three,
    .machine "STF" 0x80 .three,
    .machine "STI" 0xD4 .three,
    .machine "STL" 0x14 .three,
    .machine "STS" 0x7C .three,
    .machine "STSW" 0xE8 .three,
    .machine "STT" 0x84 .three,
    .machine "STX" 0x10 .three,
    .machine "SUB" 0x1C .three,
    .machine "SUBF" 0x5C .three,
    .machine "SUBR" 0x94 .two,
    .machine "SVC" 0xB0 .two,
    .machine "TD" 0xE0 .three,
    .machine "TIO" 0xF8 .one,
    .machine "TIX" 0x2C .three,
    .machine "TIXR" 0xB8 .two,
    .machine "WD" 0xDC .three]

/-- No opcode is used twice. -/
theorem nodup_opcodes_standard : (standard.entries.map Instruction.opcode?).Nodup := by decide

end SicXe.Catalog
