import Handheld.Proofs.Board.Overlay
import Handheld.Proofs.Console.History
import Handheld.Proofs.Console.Program

namespace Handheld.Console

variable {c : Console} {op : Operation} {ops : List Operation} {addr : UInt16}

/-- The boot program and whether it comes first are as configured, and without a cartridge there is
    nothing under it. -/
structure SetUp (c : Console) : Prop where
  boot : c.board.boot = Board.bootBank c.config
  bootsFirst : c.board.bootsFirst = !c.config.skipBoot
  rom : c.cartridge = none → c.board.rom = .zeroed "rom" (2 * Board.romBankSize) 0

theorem firstPage_lasting (page : MemoryBank × MemoryBank × Bool) :
    Lasting fun _ o => o.board.firstPage = page :=
  .ofBoard (P := fun b => b.firstPage = page)
    (fun addr v b h => (Board.after_write8_change addr v b).firstPage.trans h) (fun _ _ h => h)
    (fun _ _ h => h) fun _ _ _ h => h

/-- Nothing but an insertion changes what is in the first page. -/
theorem firstPage_perform (hloads : ¬ op.Loads) :
    (op.perform c).1.board.firstPage = c.board.firstPage := by
  by_cases hrestarts : op.Restarts
  · cases op with
    | reset => rfl
    | load cartridge => exact absurd trivial hloads
    | _ => exact hrestarts.elim
  · exact (firstPage_lasting c.board.firstPage).perform_board
      (P := fun b => b.firstPage = c.board.firstPage) hrestarts rfl

theorem SetUp.perform (h : c.SetUp) (op : Operation) : (op.perform c).1.SetUp := by
  obtain ⟨hcartridge, hconfig⟩ := perform_setup (c := c) op
  by_cases hloads : op.Loads
  · cases op with
    | load cartridge => exact ⟨h.boot, h.bootsFirst, nofun⟩
    | _ => exact hloads.elim
  · have hpage := firstPage_perform (c := c) hloads
    simp only [Board.firstPage, Prod.mk.injEq] at hpage
    obtain ⟨hboot, hrom, hfirst⟩ := hpage
    refine ⟨?_, ?_, fun hnone => ?_⟩
    · rw [hboot, hconfig, h.boot]
    · rw [hfirst, hconfig, h.bootsFirst]
    · rw [hcartridge, op.cartridgeAfter_of_not_loads hloads] at hnone
      rw [hrom, h.rom hnone]

theorem Reachable.setUp (h : c.Reachable) : c.SetUp := by
  obtain ⟨config, ops, rfl⟩ := h
  exact play_induction (P := fun c _ => c.SetUp) (fun op _ _ _ h => h.perform op)
    ⟨rfl, rfl, fun _ => rfl⟩

/-- A step of a running processor would begin at the cartridge's entry. -/
def AtEntry (c : Console) : Prop :=
  c.cpu.stopped = false ∧ c.cpu.regs.pc = 0x0100

/-- The first page is covered, or it is not. -/
def Covered (mapped : Bool) (_ : Cpu) (o : Observed) : Prop :=
  o.board.overlay = mapped

theorem covered_cpu (mapped : Bool) : Cpu.Stable Exec.StepChange (Covered mapped) :=
  ⟨fun _ _ _ h => h, fun _ _ _ _ h => h⟩

theorem covered_bus (mapped : Bool) (cpu : Cpu) : Bus.Stable (Covered mapped cpu) :=
  Observed.stable (P := fun b _ => b.overlay = mapped) fun _ addr v b h =>
    (Board.after_write8_change addr v b).overlay.trans h

/-- Nothing in a step but its beginning has a part in the overlay. -/
theorem overlay_step (c : Console) :
    c.step.console.board.overlay = true ↔ c.board.overlay = true ∧ ¬ c.AtEntry := by
  cases hstopped : c.cpu.stopped with
  | true =>
    have hnot : ¬ c.AtEntry := by
      rintro ⟨hrunning, -⟩
      rw [hstopped] at hrunning
      cases hrunning
    rw [step_of_stopped hstopped]
    exact (and_iff_left hnot).symm
  | false =>
    have hbegan : Covered (c.board.overlay && c.cpu.regs.pc != 0x0100) (Exec.began c.circuit).cpu
        (Exec.began c.circuit).bus := by
      change (Observed.beginStep c.cpu.regs.pc ⟨c.board, #[]⟩).board.overlay = _
      rw [Observed.board_beginStep]
      rfl
    have hafter : (Access.after Exec.step c.circuit).bus.board.overlay =
        (c.board.overlay && c.cpu.regs.pc != 0x0100) :=
      Exec.step_keeps_of_began (covered_cpu _) (covered_bus _) (fun _ _ h => h) hstopped hbegan
    rw [(step_console c).2, hafter]
    simp [AtEntry, hstopped]

/-- The overlay survives an operation that does not restart the console, unless this is a step from
    the cartridge's entry. -/
theorem overlay_perform (hrestarts : ¬ op.Restarts) :
    (op.perform c).1.board.overlay = true ↔
      c.board.overlay = true ∧ ¬ (op = .step ∧ c.AtEntry) := by
  have hkept (hop : op ≠ .step)
      (h : (op.perform c).1.board.overlay = c.board.overlay) :
      (op.perform c).1.board.overlay = true ↔
        c.board.overlay = true ∧ ¬ (op = .step ∧ c.AtEntry) := by
    rw [h]
    exact (and_iff_left fun hstep => hop hstep.1).symm
  cases op with
  | step =>
    rw [and_iff_right rfl]
    exact overlay_step c
  | read8 addr => exact hkept nofun (read8_preserves (covered_cpu _) (covered_bus _) addr rfl)
  | write8 addr v => exact hkept nofun (write8_preserves (covered_cpu _) (covered_bus _) addr v rfl)
  | setButton | adjustCpu => exact hkept nofun rfl
  | reset | load => exact absurd trivial hrestarts

/-- In a run of operations a step of a running processor begins at the cartridge's entry. -/
def EntersCartridge (ops : List Operation) (c : Console) : Prop :=
  ∃ before after, ops = before ++ .step :: after ∧ (play before c).1.AtEntry

theorem entersCartridge_cons :
    EntersCartridge (op :: ops) c ↔
      (op = .step ∧ c.AtEntry) ∨ EntersCartridge ops (op.perform c).1 := by
  constructor
  · rintro ⟨before, after, hsplit, hentry⟩
    cases before with
    | nil =>
      cases hsplit
      exact .inl ⟨rfl, hentry⟩
    | cons first before =>
      cases hsplit
      exact .inr ⟨before, after, rfl, hentry⟩
  · rintro (⟨rfl, hentry⟩ | ⟨before, after, rfl, hentry⟩)
    · exact ⟨[], ops, rfl, hentry⟩
    · exact ⟨op :: before, after, rfl, hentry⟩

/-- What is covered stays so until a step begins at the cartridge's entry, and what is not covered
    stays so in any case. -/
theorem overlay_play (hops : ∀ op ∈ ops, ¬ op.Restarts) :
    (play ops c).1.board.overlay = true ↔
      c.board.overlay = true ∧ ¬ EntersCartridge ops c := by
  induction ops generalizing c with
  | nil =>
    have hnever : ¬ EntersCartridge [] c := by
      rintro ⟨before, after, hsplit, -⟩
      simp at hsplit
    exact (and_iff_left hnever).symm
  | cons op ops ih =>
    rw [List.forall_mem_cons] at hops
    rw [entersCartridge_cons, not_or, ← and_assoc, ← overlay_perform hops.1]
    exact ih hops.2

/-- A byte of the cartridge's program, or zero if there is no cartridge. -/
def programByte (c : Console) (i : Nat) : UInt8 :=
  match c.cartridge with
  | some cart => cart.byte i
  | none => 0

theorem read8_of_covered (hc : c.Reachable) (hoverlay : c.board.overlay = true)
    (haddr : addr < 0x100) : (c.read8 addr).result = .ok (c.config.bootByte addr.toNat) := by
  have hlt : addr.toNat < Board.bootSize := UInt16.lt_iff_toNat_lt.mp haddr
  rw [read8_result, Board.read8_covered hoverlay haddr, hc.setUp.boot, Board.bootBank_read8 _ hlt]

theorem read8_of_uncovered (hc : c.Reachable) (hoverlay : c.board.overlay = false)
    (haddr : addr < 0x100) : (c.read8 addr).result = .ok (c.programByte addr.toNat) := by
  have hlt : addr.toNat < 0x100 := UInt16.lt_iff_toNat_lt.mp haddr
  rw [read8_result]
  cases hcart : c.cartridge with
  | none =>
    rw [Board.read8_uncovered hoverlay haddr, hc.setUp.rom hcart, MemoryBank.zeroed_eq_holding,
      MemoryBank.read8_holding _ (Nat.zero_le _), if_pos (Nat.lt_trans hlt (by decide)),
      programByte, hcart]
    rfl
  | some cart =>
    have hbank : addr < 0x4000 := UInt16.lt_trans haddr (by decide)
    have hnot : ¬ (c.board.overlay = true ∧ addr < 0x100) := by simp [hoverlay]
    rw [(hc.carries hcart).read8_fixed hbank hnot, programByte, hcart]

theorem boot_play (hc : c.Reachable) (ops : List Operation) :
    (play ops c).1.board.boot = c.board.boot := by
  rw [(hc.play ops).setUp.boot, hc.setUp.boot, play_config]

/-- The console as it would be if nothing covered the first page. -/
def uncovered (c : Console) : Console :=
  { c with board := { c.board with overlay := false } }

/-- The overlay of a console that has come to be `now` by `ops` since `start`. -/
structure BootOverlay (start now : Console) (ops : List Operation) : Prop where
  mapped : now.board.overlay = true ↔
    start.config.skipBoot = false ∧ ¬ EntersCartridge ops start
  covered : now.board.overlay = true → ∀ addr, addr < 0x100 →
    (now.read8 addr).result = .ok (start.config.bootByte addr.toNat)
  above : ∀ addr, 0x100 ≤ addr → (now.read8 addr).result = (now.uncovered.read8 addr).result
  forGood : now.board.overlay = false → ∀ later : List Operation, (∀ op ∈ later, ¬ op.Restarts) →
    (now.play later).1.board.overlay = false ∧ ∀ addr, addr < 0x100 →
      ((now.play later).1.read8 addr).result = .ok ((now.play later).1.programByte addr.toNat)
  boot : ∀ later : List Operation, (now.play later).1.board.boot = start.board.boot

theorem Restarted.overlay (h : c.Restarted) : c.board.overlay = !c.config.skipBoot := by
  have hfirst := h.reachable.setUp.bootsFirst
  obtain ⟨d, -, rfl⟩ := h.eq_powerOn
  exact hfirst

/-- From a start on, the boot program covers the first page exactly if it is not skipped and no step
    of a running processor has begun at the cartridge's entry. Meanwhile the page shows the boot
    image, filled up with zeros, and nothing else is affected. Once the page shows the cartridge it
    does so until the next restart, and the boot program itself never changes. -/
theorem boot_overlay_of_play (hc : c.Restarted) (hops : ∀ op ∈ ops, ¬ op.Restarts) :
    BootOverlay c (play ops c).1 ops := by
  have hnow : (play ops c).1.Reachable := hc.reachable.play ops
  have hconfig : (play ops c).1.config = c.config := play_config ops c
  refine ⟨?_, fun hoverlay addr haddr => ?_, fun addr haddr => ?_,
    fun hoverlay later hlater => ?_, fun later => ?_⟩
  · rw [overlay_play hops, hc.overlay, Bool.not_eq_true']
  · rw [← hconfig]
    exact read8_of_covered hnow hoverlay haddr
  · rw [read8_result, read8_result]
    exact Board.read8_above _ haddr
  · have hstays : ((play ops c).1.play later).1.board.overlay = false := by
      rw [← Bool.not_eq_true, overlay_play hlater, hoverlay]
      exact fun h => Bool.false_ne_true h.1
    exact ⟨hstays, fun addr haddr => read8_of_uncovered (hnow.play later) hstays haddr⟩
  · rw [boot_play hnow, boot_play hc.reachable]

/-- A console whose boot program jumps to the cartridge's entry. -/
def handingOver : Console :=
  ((new { bootImage := some #[0xC3, 0x00, 0x01] }).load twoBanks).console

theorem handingOver_restarted : handingOver.Restarted := by
  have hnew : (new { bootImage := some #[0xC3, 0x00, 0x01] }).Reachable := ⟨_, [], rfl⟩
  have hload : (Operation.load twoBanks).Restarts := trivial
  exact .perform hnew hload

/-- The boot program covers the first page after its jump, and no longer after the next step. -/
theorem boot_overlay_handingOver :
    handingOver.Restarted ∧ (∀ op ∈ [Operation.step, .step], ¬ op.Restarts) ∧
      BootOverlay handingOver (play [.step, .step] handingOver).1 [.step, .step] ∧
      (play [.step] handingOver).1.board.overlay = true ∧
      (play [.step, .step] handingOver).1.board.overlay = false := by
  have hsteps : ∀ op ∈ [Operation.step, .step], ¬ op.Restarts := by
    simp [Operation.Restarts]
  have hfirst : (play [.step] handingOver).1.board.overlay = true ∧
      (play [.step] handingOver).1.cpu.stopped = false ∧
      (play [.step] handingOver).1.cpu.regs.pc = 0x0100 := by
    decide +kernel
  have hoverlay := boot_overlay_of_play handingOver_restarted hsteps
  have henters : EntersCartridge [.step, .step] handingOver := ⟨[.step], [], rfl, hfirst.2⟩
  refine ⟨handingOver_restarted, hsteps, hoverlay, hfirst.1, ?_⟩
  rw [← Bool.not_eq_true, hoverlay.mapped]
  exact fun h => h.2 henters

end Handheld.Console
