namespace Handheld.Decimal

/-- Why a text is not a count. -/
inductive Error
  | empty
  /-- A character that is no decimal digit was met. -/
  | invalidDigit
  /-- The digits read so far say more than 64 bits can hold. -/
  | tooLarge
  deriving DecidableEq, Repr, Inhabited

def Error.message : Error → String
  | .empty => "cannot parse integer from empty string"
  | .invalidDigit => "invalid digit found in string"
  | .tooLarge => "number too large to fit in target type"

/-- One more than the largest count. -/
def limit : Nat := UInt64.size

/-- Reads digits from left to right on top of the value read so far. The first offence counts. -/
def digits (value : Nat) : List Char → Except Error Nat
  | [] => .ok value
  | c :: rest =>
    if !c.isDigit then .error .invalidDigit
    else
      let value := 10 * value + (c.toNat - '0'.toNat)
      if value < limit then digits value rest else .error .tooLarge

/-- Reads a count, which one plus sign may precede. A sign alone has no digit to read. -/
def parse (text : String) : Except Error Nat :=
  match text.toList with
  | [] => .error .empty
  | ['+'] => .error .invalidDigit
  | '+' :: rest => digits 0 rest
  | cs => digits 0 cs

end Handheld.Decimal
