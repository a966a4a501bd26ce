import Handheld.Proofs.Board.Divider
import Handheld.Proofs.Console.Display
import Handheld.Proofs.Console.History
import Handheld.Proofs.Console.Program
import Handheld.Proofs.History

namespace Handheld

/-- The cycles that had passed when the divider was cleared last, by whomever. -/
def divClearedAt : List BusCall → Nat :=
  History.latest (History.atWrite fun past addr _ =>
    if addr = Timer.divAddr then some (History.cycles past) else none) 0

section Cleared

variable {past : List BusCall} {addr : UInt16} {v : UInt8}

theorem divClearedAt_write : divClearedAt (.write addr v :: past) =
    if addr = Timer.divAddr then History.cycles past else divClearedAt past :=
  History.latest_cons_of_ite rfl

theorem divClearedAt_of_not_write {call : BusCall} (h : ∀ addr v, call ≠ .write addr v) :
    divClearedAt (call :: past) = divClearedAt past :=
  History.latest_of_not_write h

end Cleared

namespace Console

/-- The clock has counted the cycles of the history, and the divider is in phase with it. -/
def Divided (k : Nat) (b : Board) (past : List BusCall) : Prop :=
  k = History.cycles past ∧ b.timer.InPhase (divClearedAt past) k

theorem divided_chronicles : Chronicles Divided where
  read addr h := by
    obtain ⟨hclock, hphase⟩ := h
    refine ⟨hclock, ?_⟩
    rwa [divClearedAt_of_not_write (by simp)]
  write {k past addr v b t} _ h hwrite := by
    obtain ⟨hclock, hphase⟩ := h
    refine ⟨hclock, ?_⟩
    rw [divClearedAt_write]
    by_cases haddr : addr = Timer.divAddr
    · subst haddr
      rw [if_pos rfl, ← hclock]
      rw [Board.write8_divAddr] at hwrite
      cases hwrite
      exact hphase.clearDiv
    · rw [if_neg haddr]
      have hchange := Board.after_write8_change addr v b
      rw [Access.after_of_ok hwrite] at hchange
      exact hphase.congr (hchange.sameDivider haddr)
  begin pc h := by
    obtain ⟨hclock, hphase⟩ := h
    refine ⟨hclock, ?_⟩
    rwa [divClearedAt_of_not_write (by simp)]
  tick n h := by
    obtain ⟨hclock, hphase⟩ := h
    refine ⟨congrArg (· + n) hclock, ?_⟩
    rw [divClearedAt_of_not_write (by simp)]
    exact hphase.advance n
  button _ _ h := h

/-- The divider is in step with the clock, `past` being what was asked of the board. -/
structure InLockstep (c : Console) (past : List BusCall) : Prop where
  clock : c.cpu.clock = History.cycles past
  subTicks_lt : c.board.timer.subTicks < 4
  sinceDiv_lt : c.board.timer.sinceDiv < 16
  fractions : c.board.timer.subTicks + 4 * c.board.timer.sinceDiv = c.cpu.clock % 64
  cleared_le : divClearedAt past ≤ c.cpu.clock
  div : ∃ v, (c.read8 Timer.divAddr).result = .ok v ∧
    v.toNat = (c.cpu.clock / 64 - divClearedAt past / 64) % 256

/-- Changes of the processor by hand leave its count of machine cycles alone. -/
def Operation.KeepsClock (op : Operation) : Prop :=
  op.AdjustsBy fun f => ∀ cpu, (f cpu).clock = cpu.clock

variable {c : Console} {ops : List Operation}

theorem powerOn_divided (c : Console) : Divided c.powerOn.cpu.clock c.powerOn.board [] := by
  rw [(counters_powerOn c).1]
  exact ⟨rfl, Timer.InPhase.powerOn⟩

/-- From a restart on, the divider shows the periods that have ended since it was cleared last, by
    an instruction, by the push of an interrupt or by the host. -/
theorem divider_inLockstep (hc : c.Restarted) (hops : ∀ op ∈ ops, ¬ op.Restarts ∧ op.KeepsClock) :
    (c.play ops).1.InLockstep (history ops c) := by
  have hdivided : Divided c.cpu.clock c.board [] := by
    obtain ⟨d, -, rfl⟩ := hc.eq_powerOn
    exact powerOn_divided d
  have hkept : ∀ op ∈ ops, ¬ op.Restarts ∧ op.AdjustsBy fun f =>
      ∀ cpu b past, Divided cpu.clock b past → Divided (f cpu).clock b past := by
    intro op hop
    obtain ⟨hrestarts, hclock⟩ := hops op hop
    refine ⟨hrestarts, hclock.mono fun f hf cpu b past h => ?_⟩
    rwa [hf cpu]
  obtain ⟨hclock, hphase⟩ := divided_chronicles.play hkept hc.reachable.wellFormed hdivided
  rw [List.append_nil] at hclock hphase
  obtain ⟨hsub, hsince, hfractions⟩ := hphase.fractions
  refine ⟨hclock, hsub, hsince, hfractions, hphase.cleared_le, _, ?_, hphase.toNat_div⟩
  rw [read8_result, Board.read8_divAddr]

/-- The divider is cleared by the host between two instructions. -/
def clearing : List Operation :=
  [.step, .write8 Timer.divAddr 0xFF, .step, .adjustCpu Cpu.stop, .step]

theorem divider_inLockstep_cleared :
    (new {}).Restarted ∧ (∀ op ∈ clearing, ¬ op.Restarts ∧ op.KeepsClock) ∧
      divClearedAt (history clearing (new {})) = 1 ∧
      ((new {}).play clearing).1.InLockstep (history clearing (new {})) := by
  have hops : ∀ op ∈ clearing, ¬ op.Restarts ∧ op.KeepsClock := by
    simp [clearing, Operation.Restarts, Operation.KeepsClock, Operation.AdjustsBy, Cpu.stop]
  have hcleared : divClearedAt (history clearing (new {})) = 1 := by decide +kernel
  exact ⟨.new {}, hops, hcleared, divider_inLockstep (.new {}) hops⟩

end Console

end Handheld
