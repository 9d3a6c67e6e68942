import Clausification.Text.Interval

/-!
# Blanks

The characters that count as white space, between tokens and at the ends of a text.
-/

namespace Clausification.Text

/-- Tabs and line breaks, the four information separators, the space, and the Unicode spaces and
line and paragraph separators. Zero-width characters are not blank. -/
def blanks : List Interval := [
  ⟨0x9, 0xd⟩, ⟨0x1c, 0x20⟩, ⟨0x85, 0x85⟩, ⟨0xa0, 0xa0⟩, ⟨0x1680, 0x1680⟩, ⟨0x2000, 0x200a⟩,
  ⟨0x2028, 0x2029⟩, ⟨0x202f, 0x202f⟩, ⟨0x205f, 0x205f⟩, ⟨0x3000, 0x3000⟩]

def isBlank (c : Char) : Bool := inIntervals blanks c

def stripEnd (cs : List Char) : List Char := (cs.reverse.dropWhile isBlank).reverse

def stripList (cs : List Char) : List Char := stripEnd (cs.dropWhile isBlank)

def strip (s : String) : String := String.ofList (stripList s.toList)

def isBlankText (s : String) : Bool := s.toList.all isBlank

@[simp] theorem stripEnd_nil : stripEnd [] = [] := rfl

@[simp] theorem stripList_nil : stripList [] = [] := rfl

end Clausification.Text
