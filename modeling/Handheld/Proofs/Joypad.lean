import Handheld.Joypad

namespace Handheld

namespace Button

/-- A group of buttons, which share the low four bits of the register. -/
inductive Group
  | actions
  | directions
  deriving DecidableEq, Repr

/-- The buttons of a group, in the order of their bits. -/
def Group.button : Group → Fin 4 → Button
  | .actions, 0 => .a
  | .actions, 1 => .b
  | .actions, 2 => .select
  | .actions, 3 => .start
  | .directions, 0 => .right
  | .directions, 1 => .left
  | .directions, 2 => .up
  | .directions, 3 => .down

/-- The group that bits 4 and 5 of a byte select, if they select just one. -/
def Group.selectedBy? (v : UInt8) : Option Group :=
  if v &&& 0x30 = 0x10 then some .actions
  else if v &&& 0x30 = 0x20 then some .directions
  else none

/-- Every button has its place in a group. -/
theorem Group.exists_button : ∀ button : Button, ∃ g i, Group.button g i = button
  | .a => ⟨.actions, 0, rfl⟩
  | .b => ⟨.actions, 1, rfl⟩
  | .select => ⟨.actions, 2, rfl⟩
  | .start => ⟨.actions, 3, rfl⟩
  | .right => ⟨.directions, 0, rfl⟩
  | .left => ⟨.directions, 1, rfl⟩
  | .up => ⟨.directions, 2, rfl⟩
  | .down => ⟨.directions, 3, rfl⟩

theorem isDirection_button (g : Group) (i : Fin 4) :
    (g.button i).isDirection = decide (g = .directions) := by
  cases g <;> revert i <;> decide

theorem Group.button_ne {g g' : Group} (h : g' ≠ g) (i k : Fin 4) : g.button i ≠ g'.button k := by
  intro heq
  have hdirection := congrArg Button.isDirection heq
  rw [isDirection_button, isDirection_button] at hdirection
  cases g <;> cases g' <;> first | exact h rfl | cases hdirection

end Button

namespace Joypad

open Button (Group)

/-- Address of the register. -/
def addr : UInt16 := 0xFF00

/-- The keys of a group. -/
def keys (j : Joypad) : Group → UInt8
  | .actions => j.actions
  | .directions => j.directions

/-- The byte that shows a group: a bit for each button, clear while it is held, and no others. -/
def activeLow (held : Button → Bool) (g : Group) : UInt8 :=
  (if held (g.button 0) then 0 else 0x01) ||| (if held (g.button 1) then 0 else 0x02) |||
    (if held (g.button 2) then 0 else 0x04) ||| (if held (g.button 3) then 0 else 0x08)

/-- The buttons held after one of them is pressed or released. -/
def afterEvent (held : Button → Bool) (button : Button) (pressed : Bool) (x : Button) : Bool :=
  if button = x then pressed else held x

/-- The keys stand as they should while these buttons are held. -/
def Shows (j : Joypad) (held : Button → Bool) : Prop :=
  ∀ g, j.keys g = activeLow held g

/-- The buttons that the keys give as held. -/
def holds (j : Joypad) (button : Button) : Bool :=
  j.keys (if button.isDirection then .directions else .actions) &&& button.mask == 0

variable {j : Joypad} {held : Button → Bool}

theorem activeLow_lt (held : Button → Bool) (g : Group) : activeLow held g < 0x10 := by
  unfold activeLow
  cases held (g.button 0) <;> cases held (g.button 1) <;> cases held (g.button 2) <;>
    cases held (g.button 3) <;> decide

/-- The bit of a button is clear if and only if the button is held. -/
theorem testBit_activeLow (held : Button → Bool) (g : Group) (i : Fin 4) :
    (activeLow held g).toNat.testBit i = !held (g.button i) := by
  unfold activeLow
  match i with
  | 0 | 1 | 2 | 3 =>
    cases held (g.button 0) <;> cases held (g.button 1) <;> cases held (g.button 2) <;>
      cases held (g.button 3) <;> rfl

/-- A press clears the button's bit and a release sets it; the bits of other buttons stay. -/
theorem setKey_activeLow (held : Button → Bool) (g : Group) (i : Fin 4) (pressed : Bool) :
    setKey (activeLow held g) (g.button i).mask pressed =
      activeLow (afterEvent held (g.button i) pressed) g := by
  unfold activeLow afterEvent
  cases held (g.button 0) <;> cases held (g.button 1) <;> cases held (g.button 2) <;>
    cases held (g.button 3) <;> cases g <;> revert i pressed <;> decide

theorem activeLow_congr {held' : Button → Bool} {g : Group}
    (h : ∀ i, held (g.button i) = held' (g.button i)) : activeLow held g = activeLow held' g := by
  simp only [activeLow, h]

theorem afterEvent_of_ne {button x : Button} (h : button ≠ x) (held : Button → Bool)
    (pressed : Bool) : afterEvent held button pressed x = held x :=
  if_neg h

/-- Events on different buttons commute. -/
theorem afterEvent_comm {button other : Button} (h : button ≠ other) (held : Button → Bool)
    (pressed pressed' : Bool) :
    afterEvent (afterEvent held button pressed) other pressed' =
      afterEvent (afterEvent held other pressed') button pressed := by
  funext x
  unfold afterEvent
  by_cases hother : other = x
  · have hbutton : ¬ button = x := fun hx => h (hx.trans hother.symm)
    rw [if_pos hother, if_neg hbutton, if_pos hother]
  · rw [if_neg hother, if_neg hother]

/-- Of two events on a button the second counts. -/
theorem afterEvent_afterEvent (held : Button → Bool) (button : Button) (pressed pressed' : Bool) :
    afterEvent (afterEvent held button pressed) button pressed' =
      afterEvent held button pressed' := by
  funext x
  unfold afterEvent
  by_cases hx : button = x
  · rw [if_pos hx, if_pos hx]
  · rw [if_neg hx, if_neg hx, if_neg hx]

@[simp]
theorem select_set (j : Joypad) (button : Button) (pressed : Bool) :
    (j.set button pressed).select = j.select := by
  unfold set
  cases button.isDirection <;> rfl

theorem keys_set (j : Joypad) (g g' : Group) (i : Fin 4) (pressed : Bool) :
    (j.set (g.button i) pressed).keys g' =
      if g' = g then setKey (j.keys g) (g.button i).mask pressed else j.keys g' := by
  unfold set
  rw [Button.isDirection_button]
  cases g <;> cases g' <;> rfl

/-- A joypad that is switched on shows no button as held. -/
theorem shows_released : ({} : Joypad).Shows fun _ => false := by
  intro g
  cases g <;> rfl

theorem Shows.write (h : j.Shows held) (v : UInt8) : (j.write v).Shows held := by
  intro g
  rw [← h g]
  cases g <;> rfl

theorem Shows.set (h : j.Shows held) (button : Button) (pressed : Bool) :
    (j.set button pressed).Shows (afterEvent held button pressed) := by
  obtain ⟨g, i, rfl⟩ := Group.exists_button button
  intro g'
  rw [keys_set]
  by_cases hg : g' = g
  · subst hg
    rw [if_pos rfl, h, setKey_activeLow]
  · rw [if_neg hg, h]
    exact activeLow_congr fun k => (afterEvent_of_ne (Group.button_ne hg i k) held pressed).symm

/-- What is selected and which buttons are held is all that there is to a joypad. -/
theorem Shows.eq {k : Joypad} (h : j.Shows held) (hk : k.Shows held)
    (hselect : j.select = k.select) : j = k := by
  have hactions : j.actions = k.actions := (h .actions).trans (hk .actions).symm
  have hdirections : j.directions = k.directions := (h .directions).trans (hk .directions).symm
  cases j
  cases k
  subst hactions hdirections hselect
  rfl

theorem Shows.set_comm (h : j.Shows held) {button other : Button} (hne : button ≠ other)
    (pressed pressed' : Bool) :
    (j.set button pressed).set other pressed' = (j.set other pressed').set button pressed := by
  have hswapped := (h.set other pressed').set button pressed
  rw [← afterEvent_comm hne] at hswapped
  exact ((h.set button pressed).set other pressed').eq hswapped (by simp only [select_set])

theorem Shows.set_set (h : j.Shows held) (button : Button) (pressed pressed' : Bool) :
    (j.set button pressed).set button pressed' = j.set button pressed' := by
  have htwice := (h.set button pressed).set button pressed'
  rw [afterEvent_afterEvent] at htwice
  exact htwice.eq (h.set button pressed') (by simp only [select_set])

/-- The keys tell which buttons are held. -/
theorem holds_eq (h : j.Shows held) : j.holds = held := by
  funext button
  obtain ⟨g, i, rfl⟩ := Group.exists_button button
  have hgroup : (if (g.button i).isDirection then Group.directions else .actions) = g := by
    rw [Button.isDirection_button]
    cases g <;> rfl
  unfold holds
  rw [hgroup, h]
  unfold activeLow
  match i with
  | 0 | 1 | 2 | 3 =>
    cases held (g.button 0) <;> cases held (g.button 1) <;> cases held (g.button 2) <;>
      cases held (g.button 3) <;> cases g <;> rfl

/-- The register shows the keys of the group that was selected. -/
theorem read_of_select {v : UInt8} (h : j.select = v &&& 0x30) :
    j.read = (Group.selectedBy? v).elim 0 j.keys := by
  unfold read Group.selectedBy?
  rw [h]
  by_cases hactions : v &&& 0x30 = 0x10
  · rw [if_pos hactions, if_pos hactions]
    rfl
  · rw [if_neg hactions, if_neg hactions]
    by_cases hdirections : v &&& 0x30 = 0x20
    · rw [if_pos hdirections, if_pos hdirections]
      rfl
    · rw [if_neg hdirections, if_neg hdirections]
      rfl

theorem Shows.read (h : j.Shows held) {v : UInt8} (hselect : j.select = v &&& 0x30) :
    j.read = (Group.selectedBy? v).elim 0 (activeLow held) := by
  rw [read_of_select hselect]
  cases Group.selectedBy? v with
  | none => rfl
  | some g => exact h g

end Joypad

end Handheld
