import StackMachine.Bytes

namespace StackMachine

/-- The parts of what is left of a text, the first of them after what was read of it, last byte first. -/
def splitAt (separator : UInt8) (part : Bytes) : Bytes → List Bytes
  | [] => [part.reverse]
  | c :: rest =>
    if c = separator then part.reverse :: splitAt separator [] rest else splitAt separator (c :: part) rest

/-- The parts of a text between separators; there is always one more than separators. -/
def splitOn (separator : UInt8) (text : Bytes) : List Bytes := splitAt separator [] text

end StackMachine
