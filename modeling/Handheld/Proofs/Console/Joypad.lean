import Handheld.Proofs.Board.Registers
import Handheld.Proofs.Console.History
import Handheld.Proofs.Console.Interrupts
import Handheld.Proofs.Console.Program
import Handheld.Proofs.History

namespace Handheld

open Button (Group)

/-- What can happen to a board: the calls of the bus, and the presses and releases of buttons. -/
inductive Happening
  | call (call : BusCall)
  | button (button : Button) (pressed : Bool)

namespace Happening

/-- What a happening says of a button. -/
def held? (button : Button) : Happening → Option Bool
  | .button x pressed => if x = button then some pressed else none
  | .call _ => none

/-- What a happening writes to the joypad's register. -/
def selection? : Happening → Option UInt8
  | .call (.write addr v) => if addr = Joypad.addr then some v else none
  | _ => none

/-- What a happening says of the request for the joypad's interrupt. A release says nothing. -/
def request? : Happening → Option Bool
  | .button _ true => some true
  | .call (.write addr v) =>
    if addr = Interrupts.requestAddr then some (Interrupts.ofByte v).joypad else none
  | _ => none

theorem eq_of_request?_eq_some_false {happening : Happening}
    (h : happening.request? = some false) :
    ∃ v, happening = .call (.write Interrupts.requestAddr v) ∧
      (Interrupts.ofByte v).joypad = false := by
  cases happening with
  | button button pressed => cases pressed <;> cases h
  | call call =>
    cases call with
    | write addr v =>
      by_cases haddr : addr = Interrupts.requestAddr
      · subst haddr
        rw [request?, if_pos rfl, Option.some.injEq] at h
        exact ⟨v, rfl, h⟩
      · rw [request?, if_neg haddr] at h
        cases h
    | _ => cases h

end Happening

section Past

/-- The button was pressed and has not been released since. -/
def heldAfter (past : List Happening) (button : Button) : Bool :=
  History.latest (fun _ => Happening.held? button) false past

/-- The byte written last to the joypad's register. -/
def selectionAfter : List Happening → UInt8 :=
  History.latest (fun _ => Happening.selection?) 0

/-- The joypad's interrupt was requested, by a press or by a byte, and has not been withdrawn. -/
def requestedAfter : List Happening → Bool :=
  History.latest (fun _ => Happening.request?) false

variable {past : List Happening} {addr : UInt16} {v : UInt8}

theorem heldAfter_call (call : BusCall) : heldAfter (.call call :: past) = heldAfter past := by
  funext button
  exact History.latest_cons_of_none rfl

theorem heldAfter_button (button : Button) (pressed : Bool) :
    heldAfter (.button button pressed :: past) =
      Joypad.afterEvent (heldAfter past) button pressed := by
  funext x
  exact History.latest_cons_of_ite rfl

theorem selectionAfter_write : selectionAfter (.call (.write addr v) :: past) =
    if addr = Joypad.addr then v else selectionAfter past :=
  History.latest_cons_of_ite rfl

theorem requestedAfter_write : requestedAfter (.call (.write addr v) :: past) =
    if addr = Interrupts.requestAddr then (Interrupts.ofByte v).joypad else requestedAfter past :=
  History.latest_cons_of_ite rfl

theorem requestedAfter_button (button : Button) (pressed : Bool) :
    requestedAfter (.button button pressed :: past) = (requestedAfter past || pressed) := by
  cases pressed with
  | true =>
    rw [Bool.or_true]
    exact History.latest_cons_of_some rfl
  | false =>
    rw [Bool.or_false]
    exact History.latest_cons_of_none rfl

/-- A request goes only with a byte that is written to the register of requests without it. -/
theorem requestedAfter_append (more : List Happening) (h : requestedAfter past = true) :
    requestedAfter (more ++ past) = true ∨ ∃ v,
      .call (.write Interrupts.requestAddr v) ∈ more ∧ (Interrupts.ofByte v).joypad = false := by
  induction more with
  | nil => exact .inl h
  | cons happening more ih =>
    rw [List.cons_append, requestedAfter]
    cases hsays : happening.request? with
    | none =>
      rw [History.latest_cons_of_none hsays]
      exact ih.imp_right fun ⟨v, hmem, hv⟩ => ⟨v, List.mem_cons_of_mem _ hmem, hv⟩
    | some requested =>
      rw [History.latest_cons_of_some hsays]
      cases requested with
      | true => exact .inl rfl
      | false =>
        obtain ⟨v, rfl, hv⟩ := Happening.eq_of_request?_eq_some_false hsays
        exact .inr ⟨v, List.mem_cons_self, hv⟩

end Past

namespace Board

/-- The joypad and its request are what the past has made of them. -/
structure RemembersButtons (b : Board) (past : List Happening) : Prop where
  select : b.joypad.select = selectionAfter past &&& 0x30
  keys : b.joypad.Shows (heldAfter past)
  requested : b.requested.joypad = requestedAfter past

variable {b t : Board} {past : List Happening} {addr : UInt16} {v : UInt8}

theorem joypad_of_write8 (h : write8 addr v b = .ok () t) :
    t.joypad = if addr = Joypad.addr then b.joypad.write v else b.joypad := by
  by_cases haddr : addr = Joypad.addr
  · subst haddr
    cases h
    rfl
  · have hchange := after_write8_change addr v b
    rw [Access.after_of_ok h] at hchange
    rw [if_neg haddr]
    exact hchange.joypad.resolve_right fun hset => haddr hset.1

theorem requested_of_write8 (h : write8 addr v b = .ok () t) :
    t.requested = if addr = Interrupts.requestAddr then .ofByte v else b.requested := by
  by_cases haddr : addr = Interrupts.requestAddr
  · subst haddr
    cases h
    rfl
  · have hchange := after_write8_change addr v b
    rw [Access.after_of_ok h] at hchange
    rw [if_neg haddr]
    exact hchange.requested.resolve_right fun hset => haddr hset.1

theorem remembersButtons_restarted (b : Board) (scheme : Cartridge.Scheme) :
    (b.reset scheme).RemembersButtons [] :=
  ⟨rfl, Joypad.shows_released, rfl⟩

namespace RemembersButtons

/-- A call that writes nothing is of no consequence. -/
theorem call (h : b.RemembersButtons past) (hjoypad : t.joypad = b.joypad)
    (hrequested : t.requested.joypad = b.requested.joypad) {call : BusCall}
    (hcall : ∀ addr v, call ≠ .write addr v) : t.RemembersButtons (.call call :: past) := by
  have hsilent :
      (Happening.call call).selection? = none ∧ (Happening.call call).request? = none := by
    cases call with
    | write addr v => exact absurd rfl (hcall addr v)
    | _ => exact ⟨rfl, rfl⟩
  refine ⟨?_, ?_, ?_⟩
  · rw [hjoypad, h.select, selectionAfter, History.latest_cons_of_none hsilent.1]
  · rw [hjoypad, heldAfter_call]
    exact h.keys
  · rw [hrequested, h.requested, requestedAfter, History.latest_cons_of_none hsilent.2]

theorem write (h : b.RemembersButtons past) (hwrite : write8 addr v b = .ok () t) :
    t.RemembersButtons (.call (.write addr v) :: past) := by
  refine ⟨?_, ?_, ?_⟩
  · rw [joypad_of_write8 hwrite, selectionAfter_write]
    by_cases haddr : addr = Joypad.addr
    · rw [if_pos haddr, if_pos haddr]
      rfl
    · rw [if_neg haddr, if_neg haddr, h.select]
  · rw [joypad_of_write8 hwrite, heldAfter_call]
    by_cases haddr : addr = Joypad.addr
    · rw [if_pos haddr]
      exact h.keys.write v
    · rw [if_neg haddr]
      exact h.keys
  · rw [requested_of_write8 hwrite, requestedAfter_write]
    by_cases haddr : addr = Interrupts.requestAddr
    · rw [if_pos haddr, if_pos haddr]
    · rw [if_neg haddr, if_neg haddr, h.requested]

theorem button (h : b.RemembersButtons past) (button : Button) (pressed : Bool) :
    (b.setButton button pressed).RemembersButtons (.button button pressed :: past) := by
  refine ⟨?_, ?_, ?_⟩
  · rw [selectionAfter, History.latest_cons_of_none rfl]
    exact (Joypad.select_set b.joypad button pressed).trans h.select
  · rw [heldAfter_button]
    exact h.keys.set button pressed
  · rw [requestedAfter_button, ← h.requested]
    rfl

theorem setButton_comm (h : b.RemembersButtons past) {button other : Button}
    (hne : button ≠ other) (pressed pressed' : Bool) :
    (b.setButton button pressed).setButton other pressed' =
      (b.setButton other pressed').setButton button pressed := by
  unfold setButton
  simp only [h.keys.set_comm hne, Bool.or_right_comm]

theorem setButton_setButton (h : b.RemembersButtons past) (button : Button) (pressed : Bool) :
    (b.setButton button pressed).setButton button pressed = b.setButton button pressed := by
  unfold setButton
  simp only [h.keys.set_set, Bool.or_assoc, Bool.or_self]

/-- The register shows the buttons of the group that was selected last. -/
theorem read_joypad (h : b.RemembersButtons past) : b.joypad.read =
    (Group.selectedBy? (selectionAfter past)).elim 0 (Joypad.activeLow (heldAfter past)) :=
  h.keys.read h.select

end RemembersButtons

end Board

namespace Console

variable {c : Console} {past : List Happening} {ops : List Operation}

/-- What happens to the board when the host performs an operation. -/
def Operation.happenings (c : Console) : Operation → List Happening
  | .setButton button pressed => [.button button pressed]
  | op => (op.calls c).map .call

theorem Operation.mem_calls {op : Operation} {call : BusCall}
    (h : .call call ∈ op.happenings c) : call ∈ op.calls c := by
  cases op with
  | setButton button pressed => simp [happenings] at h
  | _ =>
    obtain ⟨_, hmem, heq⟩ := List.mem_map.mp h
    cases heq
    exact hmem

/-- What happens to the board in a run of operations, the latest first. -/
def happenings : List Operation → Console → List Happening
  | [], _ => []
  | op :: ops, c => happenings ops (op.perform c).1 ++ op.happenings c

/-- The joypad stays what the past makes of it when the board is called. -/
theorem remembersButtons_traces (past : List Happening) :
    Traces fun _ b calls => b.RemembersButtons (calls.map .call ++ past) where
  read _ h := h.call rfl rfl (by simp)
  write _ h hwrite := h.write hwrite
  begin {_ b _} pc h := h.call (t := b.beginStep pc) rfl rfl (by simp)
  tick {_ b _} n h := h.call (t := (b.advance n).1) rfl rfl (by simp)

theorem remembersButtons_perform {op : Operation} (hrestarts : ¬ op.Restarts)
    (hc : c.board.WellFormed) (h : c.board.RemembersButtons past) :
    (op.perform c).1.board.RemembersButtons (op.happenings c ++ past) := by
  by_cases hbutton : ∃ button pressed, op = .setButton button pressed
  · obtain ⟨button, pressed, rfl⟩ := hbutton
    exact h.button button pressed
  · have hcalls : (op.perform c).1.board.RemembersButtons ((op.calls c ++ []).map .call ++ past) :=
      (remembersButtons_traces past).perform hrestarts
        (fun button pressed heq => hbutton ⟨button, pressed, heq⟩)
        (op.adjustsBy_of_forall fun _ _ _ _ h => h) hc h
    rw [List.append_nil] at hcalls
    cases op with
    | setButton button pressed => exact absurd ⟨button, pressed, rfl⟩ hbutton
    | _ => exact hcalls

/-- What happens in a run of operations makes of the joypad what its history says. -/
theorem remembersButtons_play (hops : ∀ op ∈ ops, ¬ op.Restarts) (hc : c.board.WellFormed)
    (h : c.board.RemembersButtons past) :
    (c.play ops).1.board.RemembersButtons (happenings ops c ++ past) := by
  induction ops generalizing c past with
  | nil => exact h
  | cons op ops ih =>
    rw [List.forall_mem_cons] at hops
    have hrest := ih hops.2 (wellFormed_perform hc op) (remembersButtons_perform hops.1 hc h)
    rwa [← List.append_assoc] at hrest

/-- Bit 4 is set in the register of requests. -/
def RequestsJoypad (c : Console) : Prop :=
  ∃ r, (c.read8 Interrupts.requestAddr).result = .ok r ∧ r &&& 0x10 ≠ 0

theorem requestsJoypad_iff : c.RequestsJoypad ↔ c.board.requested.joypad = true := by
  have hread : (c.read8 Interrupts.requestAddr).result = .ok c.board.requested.toByte :=
    read8_result c Interrupts.requestAddr
  have hbit : c.board.requested.toByte &&& 0x10 = if c.board.requested.joypad then 0x10 else 0 :=
    c.board.requested.toByte_and_mask .joypad
  unfold RequestsJoypad
  rw [hread]
  simp only [Except.ok.injEq, exists_eq_left', hbit]
  cases c.board.requested.joypad <;> decide

/-- The step itself withdraws the request: its work, or the push of an entry that follows, writes a
    byte without it to the register of requests. -/
def WithdrawsJoypad (c : Console) : Prop :=
  Withdraws .joypad (Exec.workCalls c.circuit) ∨
    ∃ n u t, Exec.work c.circuit = .ok n u ∧ Exec.Entry (Exec.elapsed n u) t ∧
      Withdraws .joypad (Exec.pushCalls u.cpu.regs)

/-- No step loses the request for the joypad's interrupt, whether or not it succeeds and whether or
    not an interrupt is served. -/
theorem requestsJoypad_step (hc : c.board.WellFormed) (h : c.RequestsJoypad) :
    c.step.console.RequestsJoypad ∨ c.WithdrawsJoypad := by
  rw [requestsJoypad_iff] at h ⊢
  cases hresult : c.step.result with
  | ok n =>
    obtain hkept | hwork | ⟨n, u, t, hwork, hentry, -, hpush⟩ :=
      (settles_of_step hc hresult).requests .joypad h
    · exact .inl hkept
    · exact .inr (.inl hwork)
    · exact .inr (.inr ⟨n, u, t, hwork, hentry, hpush.resolve_left (by decide)⟩)
  | error e =>
    obtain ⟨t, -, -, hconsole, -⟩ | ⟨n, s, t, hwork, -, hconsole, -⟩ := step_fails hc hresult
    · rw [hconsole]
      exact .inl h
    · rw [hconsole]
      have haccounted := Exec.work_accounted (s := c.circuit) (x := .joypad) hc h hwork
      obtain hkept | hwithdrawn := haccounted
      · exact .inl (Board.advance_requested s.bus.board n .joypad hkept)
      · exact .inr (.inl hwithdrawn)

/-- The console's joypad is as its past, the latest first, has made it. -/
structure FollowsButtons (c : Console) (past : List Happening) : Prop where
  unselected : Group.selectedBy? (selectionAfter past) = none →
    (c.read8 Joypad.addr).result = .ok 0
  selected : ∀ g, Group.selectedBy? (selectionAfter past) = some g →
    ∃ p, (c.read8 Joypad.addr).result = .ok p ∧ p < 0x10 ∧
      ∀ i : Fin 4, p.toNat.testBit i = !heldAfter past (g.button i)
  commute : ∀ button other pressed pressed', button ≠ other →
    (c.setButton button pressed).setButton other pressed' =
      (c.setButton other pressed').setButton button pressed
  idempotent : ∀ button pressed,
    (c.setButton button pressed).setButton button pressed = c.setButton button pressed
  requested : c.RequestsJoypad ↔ requestedAfter past = true
  press : ∀ button, (c.setButton button true).RequestsJoypad
  release : ∀ button, c.RequestsJoypad → (c.setButton button false).RequestsJoypad
  kept : ∀ op : Operation, ¬ op.Restarts → c.RequestsJoypad → (op.perform c).1.RequestsJoypad ∨
    ∃ v, .write Interrupts.requestAddr v ∈ op.calls c ∧ v &&& 0x10 = 0
  step : c.RequestsJoypad → c.step.console.RequestsJoypad ∨ c.WithdrawsJoypad

theorem followsButtons (hc : c.board.WellFormed) (h : c.board.RemembersButtons past) :
    c.FollowsButtons past := by
  have hread : (c.read8 Joypad.addr).result = .ok
      ((Group.selectedBy? (selectionAfter past)).elim 0 (Joypad.activeLow (heldAfter past))) := by
    rw [← h.read_joypad]
    exact read8_result c Joypad.addr
  refine ⟨fun hgroup => ?_, fun g hgroup => ?_, fun button other pressed pressed' hne => ?_,
    fun button pressed => ?_, ?_, fun button => ?_, fun button hrequested => ?_,
    fun op hrestarts hrequested => ?_, requestsJoypad_step hc⟩
  · rw [hread, hgroup]
    rfl
  · rw [hgroup] at hread
    exact ⟨_, hread, Joypad.activeLow_lt _ g, Joypad.testBit_activeLow _ g⟩
  · exact congrArg (fun b => { c with board := b }) (h.setButton_comm hne pressed pressed')
  · exact congrArg (fun b => { c with board := b }) (h.setButton_setButton button pressed)
  · rw [requestsJoypad_iff, h.requested]
  · rw [requestsJoypad_iff]
    exact Bool.or_true _
  · rw [requestsJoypad_iff] at hrequested ⊢
    exact (Bool.or_false _).trans hrequested
  · have hafter := remembersButtons_perform hrestarts hc h
    rw [requestsJoypad_iff, h.requested] at hrequested
    rw [requestsJoypad_iff, hafter.requested]
    obtain hkept | ⟨v, hmem, hv⟩ := requestedAfter_append (op.happenings c) hrequested
    · exact .inl hkept
    · exact .inr ⟨v, Operation.mem_calls hmem, bne_eq_false_iff_eq.mp hv⟩

/-- From a restart on, whatever the host and the programs do, the joypad's register shows the last
    event of each button of the group selected last, and a request for its interrupt goes only with
    a byte written to the register of requests. -/
theorem followsButtons_of_play (hc : c.Restarted) (hops : ∀ op ∈ ops, ¬ op.Restarts) :
    (c.play ops).1.FollowsButtons (happenings ops c) := by
  have hstart : c.board.RemembersButtons [] := by
    obtain ⟨d, -, rfl⟩ := hc.eq_powerOn
    exact Board.remembersButtons_restarted d.board d.scheme
  have hplayed := remembersButtons_play hops hc.reachable.wellFormed hstart
  rw [List.append_nil] at hplayed
  exact followsButtons (hc.reachable.play ops).wellFormed hplayed

/-- Presses and releases between a selection and two instructions. -/
def fingering : List Operation :=
  [.setButton .start true, .write8 Joypad.addr 0xDF, .setButton .left true, .step,
    .setButton .b true, .setButton .b false, .write8 Interrupts.requestAddr 0, .step]

/-- Of the actions only Start is held in the end, and the request is withdrawn. -/
theorem followsButtons_fingering :
    (new {}).Restarted ∧ (∀ op ∈ fingering, ¬ op.Restarts) ∧
      selectionAfter (happenings fingering (new {})) = 0xDF ∧
      Joypad.activeLow (heldAfter (happenings fingering (new {}))) .actions = 0x07 ∧
      requestedAfter (happenings fingering (new {})) = false ∧
      ((new {}).play fingering).1.FollowsButtons (happenings fingering (new {})) := by
  have hops : ∀ op ∈ fingering, ¬ op.Restarts := by
    simp [fingering, Operation.Restarts]
  have hpast : selectionAfter (happenings fingering (new {})) = 0xDF ∧
      Joypad.activeLow (heldAfter (happenings fingering (new {}))) .actions = 0x07 ∧
      requestedAfter (happenings fingering (new {})) = false := by decide +kernel
  obtain ⟨hselection, hheld, hrequested⟩ := hpast
  exact ⟨.new {}, hops, hselection, hheld, hrequested, followsButtons_of_play (.new {}) hops⟩

end Console

end Handheld
