import StackMachine.Encoding

namespace StackMachine

inductive ListingItem where
  | instruction (i : Instruction)
  | data (b : UInt8)
  deriving DecidableEq

structure ListingLine where
  offset : Nat
  item : ListingItem
  deriving DecidableEq

namespace ListingItem

/-- The number of bytes that a line stands for. -/
def size : ListingItem → Nat
  | .instruction i => i.op.size
  | .data _ => 1

def text : ListingItem → Bytes
  | .instruction i => i.text
  | .data b => utf8 "DB " ++ hexByte b

end ListingItem

def ListingLine.text (line : ListingLine) : Bytes :=
  offsetText line.offset ++ utf8 ": " ++ line.item.text ++ [newline]

/-- What stands at a byte. -/
def itemAt (offset : Nat) (first : UInt8) (rest : Bytes) : ListingItem :=
  match readInstruction offset first rest with
  | .ok i => .instruction i
  | .error _ => .data first

/-- The lines for the code from an offset on, after the bytes that still belong to the line before. -/
def listingFrom (offset skip : Nat) : Bytes → List ListingLine
  | [] => []
  | first :: rest =>
    match skip with
    | n + 1 => listingFrom (offset + 1) n rest
    | 0 =>
      let item := itemAt offset first rest
      ⟨offset, item⟩ :: listingFrom (offset + 1) (item.size - 1) rest

def listing (code : Bytes) : List ListingLine := listingFrom 0 0 code

def disassemble (code : Bytes) : Bytes :=
  utf8 "; " ++ decimalNat code.length ++ utf8 " bytes\n" ++ (listing code).flatMap ListingLine.text

end StackMachine
