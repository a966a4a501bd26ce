namespace Handheld

inductive Button
  | a | b | select | start | right | left | up | down
  deriving DecidableEq, Repr, Inhabited

namespace Button

/-- The button belongs to the directions and not to the actions. -/
def isDirection : Button → Bool
  | .a | .b | .select | .start => false
  | .right | .left | .up | .down => true

/-- The bit of the button within its group. -/
def mask : Button → UInt8
  | .a | .right => 0x01
  | .b | .left => 0x02
  | .select | .up => 0x04
  | .start | .down => 0x08

/-- The button with a given name. -/
def named? : String → Option Button
  | "A" => some .a
  | "B" => some .b
  | "Select" => some .select
  | "Start" => some .start
  | "Right" => some .right
  | "Left" => some .left
  | "Up" => some .up
  | "Down" => some .down
  | _ => none

end Button

/-- The keys, as bits that are zero while a key is held, and the group selected for reading. -/
structure Joypad where
  actions : UInt8 := 0x0F
  directions : UInt8 := 0x0F
  select : UInt8 := 0
  deriving DecidableEq, Repr, Inhabited

namespace Joypad

/-- The value of the register: the keys of the selected group, or zero unless exactly one group is
    selected. -/
def read (j : Joypad) : UInt8 :=
  if j.select = 0x10 then j.actions
  else if j.select = 0x20 then j.directions
  else 0

/-- Selects a group; only bits 4 and 5 count. -/
def write (j : Joypad) (v : UInt8) : Joypad :=
  { j with select := v &&& 0x30 }

/-- A group of keys after one of them is pressed or released. -/
def setKey (keys mask : UInt8) (pressed : Bool) : UInt8 :=
  if pressed then keys &&& ~~~mask else keys ||| mask

/-- Presses or releases a button. -/
def set (j : Joypad) (button : Button) (pressed : Bool) : Joypad :=
  if button.isDirection then { j with directions := setKey j.directions button.mask pressed }
  else { j with actions := setKey j.actions button.mask pressed }

end Joypad

end Handheld
