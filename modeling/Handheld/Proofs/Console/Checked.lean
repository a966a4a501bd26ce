import Handheld.Proofs.Board.Checked
import Handheld.Proofs.Console.Pace
import Handheld.Proofs.Console.Program

namespace Handheld

/-- A board on the processor's bus, and whether all that was done with it so far has a result in
    checked arithmetic. -/
structure Watched where
  observed : Observed
  sound : Bool := true

namespace Watched

variable {α γ : Type}

/-- An access to the board that is done as `checked` in checked arithmetic. -/
def watching (checked : Board → Option γ) (act : Access Observed α) : Access Watched α := fun w =>
  let sound := w.sound && (checked w.observed.board).isSome
  match act w.observed with
  | .ok a o => .ok a ⟨o, sound⟩
  | .error e o => .error e ⟨o, sound⟩

/-- Writes a byte. -/
def write8 (addr : UInt16) (v : UInt8) : Access Watched Unit :=
  watching (Board.write8? addr v) (Bus.write8 addr v)

/-- Writes a word, of which no half is left behind by a refusal. -/
def write16 (addr w : UInt16) : Access Watched Unit := do
  watching (fun b => b.checkWrite? (addr + 1) (Word.hi w))
    (Observed.tryWrite (addr + 1) (Word.hi w))
  write8 addr (Word.lo w)
  write8 (addr + 1) (Word.hi w)

instance : Bus Watched where
  read8 addr := watching (fun b => b.read8? addr) (Bus.read8 addr)
  write8 := write8
  write16 := write16
  beginStep pc w := { w with observed := Bus.beginStep pc w.observed }
  tick n w := ⟨Bus.tick n w.observed, w.sound && (w.observed.board.advance? n).isSome⟩
  report n w := { w with observed := Bus.report n w.observed }

theorem watching_follows (checked : Board → Option γ) (act : Access Observed α) :
    Access.Follows Watched.observed (watching checked act) act := by
  intro w
  unfold watching
  cases act w.observed <;> rfl

/-- Watching changes nothing. -/
theorem hom : Bus.Hom Watched.observed where
  read8 _ := watching_follows _ _
  read16 _ := (watching_follows _ _).bind fun _ => (watching_follows _ _).bind fun _ => .pure _
  write8 _ _ := watching_follows _ _
  write16 _ _ := (watching_follows _ _).bind fun _ => (watching_follows _ _).bind fun _ =>
    watching_follows _ _
  beginStep _ _ := rfl
  tick _ _ := rfl
  report _ _ := rfl

/-- Everything so far has had a result, and the board is regular. -/
def Sound (w : Watched) : Prop :=
  w.sound = true ∧ w.observed.board.Regular

theorem watching_preserves {checked : Board → Option γ} {act : Access Observed α}
    (hchecked : ∀ b : Board, b.Regular → (checked b).isSome = true)
    (hact : Access.Preserves (fun o => o.board.Regular) act) :
    Access.Preserves Sound (watching checked act) := by
  rintro w ⟨hsound, hw⟩
  have hafter := hact w.observed hw
  have hflag : (w.sound && (checked w.observed.board).isSome) = true := by
    rw [hsound, hchecked _ hw]
    rfl
  unfold Access.after at hafter ⊢
  unfold watching
  cases hrun : act w.observed <;> rw [hrun] at hafter <;> exact ⟨hflag, hafter⟩

/-- No access is without a result. -/
theorem sound_stable : Bus.Stable Sound := by
  have hbus : Bus.Stable fun o : Observed => o.board.Regular :=
    Observed.stable (P := fun b _ => b.Regular) fun _ addr v b hb =>
      (Board.after_write8_change addr v b).regular hb
  have hread (addr : UInt16) : Access.Preserves Sound
      (watching (fun b => b.read8? addr) (Bus.read8 addr)) :=
    watching_preserves (fun b hb => by rw [hb.read8?_eq]; rfl) (hbus.read8 addr)
  have hwrite (addr : UInt16) (v : UInt8) : Access.Preserves Sound (write8 addr v) :=
    watching_preserves (fun b hb => by rw [hb.write8?_eq]; rfl) (hbus.write8 addr v)
  have hcheck (addr : UInt16) (v : UInt8) : Access.Preserves Sound
      (watching (fun b => b.checkWrite? addr v) (Observed.tryWrite addr v)) := by
    refine watching_preserves (fun b hb => by rw [hb.checkWrite?_eq]; rfl) ?_
    refine Observed.perform_preserves (P := fun b _ => b.Regular) (fun _ b hb => ?_) none
    rw [Access.after_observe]
    exact hb
  refine ⟨⟨fun _ _ h => h, hread, fun addr => ?_⟩, hwrite, fun addr w => ?_⟩
  · exact (hread addr).bind fun _ => (hread (addr + 1)).bind fun _ _ h => h
  · exact (hcheck _ _).bind fun _ => (hwrite _ _).bind fun _ => hwrite _ _

/-- Nor is a step, since it takes so little time. -/
theorem step_sound : Access.Preserves (fun s => Sound s.bus) (Exec.step : Exec Watched Nat) := by
  refine Exec.step_preserves_of_cost (P := fun _ => Sound) ⟨fun _ _ _ h => h, fun _ _ _ _ h => h⟩
    (fun _ => sound_stable) (fun cpu w hw => ?_) fun n hn s hs => ?_
  · refine ⟨hw.1, ?_⟩
    change (w.observed.beginStep cpu.regs.pc).board.Regular
    rw [Observed.board_beginStep]
    exact hw.2.beginStep cpu.regs.pc
  · refine ⟨?_, hs.2.advance n⟩
    change (s.bus.sound && (s.bus.observed.board.advance? n).isSome) = true
    rw [hs.1, hs.2.advance?_eq (by omega)]
    rfl

end Watched

namespace Console

/-- The processor and the board, which is watched from now on. -/
def watched (c : Console) : Circuit Watched :=
  ⟨c.cpu, ⟨⟨c.board, #[]⟩, true⟩⟩

/-- Runs an operation of the processor and the board in checked arithmetic. -/
def exec? {α : Type} (c : Console) (act : Exec Watched α) : Option (Reply α) :=
  let reply (s : Circuit Watched) (result : Except Fault α) : Option (Reply α) :=
    if s.bus.sound then
      some ⟨{ c with cpu := s.cpu, board := s.bus.observed.board }, result, s.bus.observed.events⟩
    else none
  match act c.watched with
  | .ok a s => reply s (.ok a)
  | .error e s => reply s (.error e)

/-- One step, whose machine cycles are counted in 32 bits. -/
def step? (c : Console) : Option (Reply Nat) := do
  let r ← c.exec? Exec.step
  match r.result with
  | .ok n => if n < 2 ^ 32 then return r else none
  | .error _ => return { r with console := { r.console with cpu := r.console.cpu.stop } }

/-- The console after an operation, and what happened meanwhile. -/
def Operation.perform? (op : Operation) (c : Console) : Option (Console × Array Event) :=
  match op with
  | .step => c.step?.map fun r => (r.console, r.events)
  | .read8 addr => (c.exec? (Exec.read8 addr)).map fun r => (r.console, r.events)
  | .write8 addr v => (c.exec? (Exec.write8 addr v)).map fun r => (r.console, r.events)
  | op => some (op.perform c)

/-- Takes at most `fuel` steps, until the number of frames is no longer `start`. -/
def stepWhile? (start : Nat) : Nat → Console → Array Event → Option (Reply Unit)
  | 0, c, events => some ⟨c, .ok (), events⟩
  | fuel + 1, c, events =>
    if c.frames ≠ start ∨ c.cpu.stopped then some ⟨c, .ok (), events⟩
    else do
      let r ← c.step?
      match r.result with
      | .ok _ => stepWhile? start fuel r.console (events ++ r.events)
      | .error e => return ⟨r.console, .error e, events ++ r.events⟩

/-- Runs until a frame is finished or the processor stops. -/
def stepFrame? (c : Console) : Option (Reply Unit) :=
  stepWhile? c.frames stepsPerFrame c #[]

section Run

variable {σ : Type}

/-- Takes at most `fuel` steps, looking before each whether there is cause to end. -/
def runLoop? (host : Host σ) : Nat → Console → σ → Option (Run σ)
  | 0, c, s => some ⟨c, s, .unfinished⟩
  | fuel + 1, c, s =>
    if host.cancelled s then
      some ⟨c, host.tell s (.runCancelled c.frames), .cancelled⟩
    else if c.cpu.stopped then
      some ⟨c, host.tell s (.runStopped c.cpu.regs.pc c.frames), .stopped⟩
    else do
      let r ← c.step?
      let s := r.events.foldl host.react s
      match r.result with
      | .ok _ => runLoop? host fuel r.console s
      | .error e => return ⟨r.console, host.tell s (.runFailed e), .failed e⟩

/-- Runs until the host calls it off, the processor stops or a step fails. -/
def run? (host : Host σ) (frames : Nat) (c : Console) (s : σ) : Option (Run σ) :=
  runLoop? host (stepsPerFrame * frames + 1) c (host.tell s (.runStart c.cpu.regs.pc))

end Run

variable {c : Console}

theorem exec?_eq {α : Type} {act : Exec Watched α} {plain : Exec Observed α}
    (hfollows : Exec.Follows Watched.observed act plain)
    (hsound : Access.Preserves (fun s => s.bus.Sound) act) (hc : c.board.Regular) :
    c.exec? act = some (c.exec plain) := by
  have hafter := (hsound c.watched ⟨rfl, hc⟩).1
  have hplain : plain c.circuit = _ := hfollows c.watched
  unfold Access.after at hafter
  unfold exec?
  cases hrun : act c.watched with
  | ok a s =>
    rw [hrun] at hafter hplain
    rw [exec_of_ok hplain]
    exact if_pos hafter
  | error e s =>
    rw [hrun] at hafter hplain
    rw [exec_of_error hplain]
    exact if_pos hafter

theorem step_result_le {n : Nat} (h : c.step.result = .ok n) : n ≤ 8 := by
  cases hstopped : c.cpu.stopped with
  | true =>
    rw [step_of_stopped hstopped] at h
    cases h
    decide
  | false =>
    cases hstep : Exec.step c.circuit with
    | ok k s =>
      rw [step_of_ok hstep] at h
      cases h
      exact (Exec.settles_of_step_eq_ok hstopped hstep).bounds.2
    | error e s =>
      rw [step_of_error hstep] at h
      cases h

theorem step?_eq (hc : c.board.Regular) : c.step? = some c.step := by
  have hexec : c.exec? Exec.step = some (c.exec Exec.step) :=
    exec?_eq (Exec.step_follows Watched.hom) Watched.step_sound hc
  have hresult (n : Nat) (h : (c.exec Exec.step).result = .ok n) : n ≤ 8 := by
    refine step_result_le (c := c) ?_
    simp only [step, h]
  unfold step? step
  rw [hexec]
  simp only [Option.bind_eq_bind, Option.bind_some]
  cases h : (c.exec Exec.step).result with
  | ok n =>
    have hlt : n < 2 ^ 32 := Nat.lt_of_le_of_lt (hresult n h) (by decide)
    simp only [if_pos hlt]
    rfl
  | error e => rfl

theorem perform?_eq (hc : c.board.Regular) (op : Operation) :
    op.perform? c = some (op.perform c) := by
  cases op with
  | step => exact congrArg (Option.map _) (step?_eq hc)
  | read8 addr =>
    have hread : c.exec? (Exec.read8 addr) = some (c.read8 addr) :=
      exec?_eq (Exec.read8_follows Watched.hom addr)
        (Exec.onBus_preserves fun _ => Watched.sound_stable.read8 addr) hc
    exact congrArg (Option.map _) hread
  | write8 addr v =>
    have hwrite : c.exec? (Exec.write8 addr v) = some (c.write8 addr v) :=
      exec?_eq (Exec.write8_follows Watched.hom addr v)
        (Exec.onBus_preserves fun _ => Watched.sound_stable.write8 addr v) hc
    exact congrArg (Option.map _) hwrite
  | setButton | adjustCpu | reset | load => rfl

/-- A board stays regular, whatever the host does. -/
theorem regular_invariant : Invariant Board.Regular where
  lasting := .ofBoard (fun addr v b h => (Board.after_write8_change addr v b).regular h)
    (fun _ pc h => h.beginStep pc) (fun _ n h => h.advance n)
    fun _ button pressed h => h.setButton button pressed
  new := Board.new_regular
  insert cartridge h := h.insert cartridge
  reset _ h := h.reset _

theorem Reachable.board_regular (hc : c.Reachable) : c.board.Regular :=
  regular_invariant.reachable hc

theorem stepWhile?_eq (hc : c.board.Regular) (start fuel : Nat) (events : Array Event) :
    stepWhile? start fuel c events = some (stepWhile start fuel c events) := by
  induction fuel generalizing c events with
  | zero => rfl
  | succ fuel ih =>
    have hnext : c.step.console.board.Regular := regular_invariant.perform hc .step
    unfold stepWhile? stepWhile
    rw [step?_eq hc]
    simp only [Option.bind_eq_bind, Option.bind_some]
    split
    · rfl
    · cases c.step.result with
      | ok n => exact ih hnext _
      | error e => rfl

theorem runLoop?_eq {σ : Type} (hc : c.board.Regular) (host : Host σ) (fuel : Nat) (s : σ) :
    runLoop? host fuel c s = some (runLoop host fuel c s) := by
  induction fuel generalizing c s with
  | zero => rfl
  | succ fuel ih =>
    have hnext : c.step.console.board.Regular := regular_invariant.perform hc .step
    unfold runLoop? runLoop
    rw [step?_eq hc]
    simp only [Option.bind_eq_bind, Option.bind_some]
    split
    · rfl
    · split
      · rfl
      · cases c.step.result with
        | ok n => exact ih hnext _
        | error e => rfl

/-- What a host can have in hand: it switched the console on, and used it by single operations, by
    frames and in runs. -/
inductive Driven : Console → Prop
  | new (config : Config) : Driven (new config)
  | perform {c : Console} (op : Operation) : Driven c → Driven (op.perform c).1
  | stepFrame {c : Console} : Driven c → Driven c.stepFrame.console
  | run {c : Console} {σ : Type} (host : Host σ) (frames : Nat) (s : σ) :
    Driven c → Driven (c.run host frames s).console

theorem Driven.reachable (h : c.Driven) : c.Reachable := by
  induction h with
  | new config => exact ⟨config, [], rfl⟩
  | perform op _ ih => exact ih.play [op]
  | stepFrame _ ih => exact ih.stepFrame
  | run host frames s _ ih => exact ih.run host frames s

theorem Driven.play {c : Console} (h : c.Driven) (ops : List Operation) :
    (play ops c).1.Driven := by
  induction ops generalizing c with
  | nil => exact h
  | cons op ops ih => exact ih (h.perform op)

theorem Reachable.driven (h : c.Reachable) : c.Driven := by
  obtain ⟨config, ops, rfl⟩ := h
  exact (Driven.new config).play ops

/-- Everything is within its bounds: the banks have their sizes, the program consists of whole banks
    and its controller is that of the cartridge, and the registers of the controller, the display,
    the timer and the processor hold no more than they can. -/
structure Regular (c : Console) : Prop where
  rom : 0x4000 ∣ c.board.rom.size ∧ 0x8000 ≤ c.board.rom.size
  externalRam : c.board.externalRam.size = 0x8000
  workRam : c.board.workRam.size = 0x2000
  zeroPage : c.board.zeroPage.size = 0x7F
  videoRam : c.board.lcd.vram.size = 0x2000
  oam : c.board.lcd.oam.size = 0xA0
  scheme : c.board.mapper.scheme = c.scheme
  romBank : 1 ≤ c.board.mapper.romBank ∧ c.board.mapper.romBank ≤ 127
  ramBank : c.board.mapper.ramBank ≤ 3
  vblank : c.board.lcd.raster.mode = .vBlank ↔
    144 ≤ c.board.lcd.raster.line ∧ c.board.lcd.raster.line ≤ 153
  line : c.board.lcd.raster.line ≤ 153
  clock : c.board.lcd.raster.clock < c.board.lcd.raster.mode.budget
  timer : c.board.timer.InRange
  requested : c.board.requested.toByte < 0x20
  flags : c.cpu.regs.f.toByte &&& 0x0F = 0
  saved : ∀ r, c.cpu.saved = some r → r.f.toByte &&& 0x0F = 0

/-- Whatever is done next has a result in checked arithmetic, which is the one that it has without
    bounds, and only the switchable window of the program can be asked for a byte that is not
    there. -/
structure StaysInBounds (c : Console) : Prop where
  perform : ∀ op : Operation, op.perform? c = some (op.perform c)
  stepFrame : c.stepFrame? = some c.stepFrame
  run : ∀ {σ : Type} (host : Host σ) (frames : Nat) (s : σ),
    c.run? host frames s = some (c.run host frames s)
  read8 : ∀ addr, c.board.read8? addr = some (c.board.read8 addr)
  write8 : ∀ addr v, Board.write8? addr v c.board = some (Board.write8 addr v c.board)
  advance : ∀ n ≤ 2 ^ 29, c.board.advance? n = some (c.board.advance n)
  operate : ∀ op v, Alu.operate? op c.cpu.regs.a c.cpu.regs.f v =
    some (Alu.apply op c.cpu.regs.a c.cpu.regs.f v)
  addWord : ∀ w, Alu.addWord? c.cpu.regs.hl w c.cpu.regs.f =
    some (Alu.addWord c.cpu.regs.hl w c.cpu.regs.f)
  addOffset : ∀ e, Alu.addOffset? c.cpu.regs.sp e = some (Alu.addOffset c.cpu.regs.sp e)
  reads : ∀ addr, ¬ (0x4000 ≤ addr ∧ addr < 0x8000) → ∃ v, c.board.read8 addr = .ok v
  writes : ∀ addr v, addr ≠ 0xFF46 → ∃ b, Board.write8 addr v c.board = .ok () b

theorem Reachable.regular (hc : c.Reachable) : c.Regular := by
  have hb := hc.board_regular
  obtain ⟨t, ht⟩ := hb.raster
  have hbank := hb.mapper
  have hram := hb.toWellFormed.ramBank_lt
  refine ⟨⟨hb.rom_whole, hb.rom_size⟩, hb.externalRam.size_eq, hb.workRam.size_eq,
    hb.zeroPage.size_eq, hb.vram.size_eq, hb.oam.size_eq, hc.mapper_scheme, ⟨?_, ?_⟩,
    Nat.le_of_lt_succ hram, ht.vblank_iff, (ht.follows 0).line_le, ht.clock_lt, hb.timer,
    c.board.requested.toByte_lt, c.cpu.regs.f.toByte_low, fun r _ => r.f.toByte_low⟩
  · have hlow := hbank.romBank_low
    omega
  · exact Nat.le_of_lt_succ hbank.romBank_lt

theorem Reachable.staysInBounds (hc : c.Reachable) : c.StaysInBounds := by
  have hb := hc.board_regular
  exact {
    perform := perform?_eq hb
    stepFrame := stepWhile?_eq hb _ _ _
    run := fun host frames s => runLoop?_eq hb host _ _
    read8 := hb.read8?_eq
    write8 := hb.write8?_eq
    advance := fun _ hn => hb.advance?_eq hn
    operate := fun op v => Alu.operate?_eq op _ _ v
    addWord := fun w => Alu.addWord?_eq _ w _
    addOffset := fun e => Alu.addOffset?_eq _ e
    reads := fun _ haddr => hb.toWellFormed.read8_outside haddr
    writes := fun _ v haddr => hb.toWellFormed.write8_eq_ok <|
      hb.toWellFormed.checkWrite_eq_ok_iff.mpr fun hdma =>
        absurd (IoRegister.of_eq_dma_iff.mp hdma) haddr }

/-- Whatever the host has done with a console, everything is within its bounds, and whatever it does
    next stays within them. -/
theorem Driven.bounded (h : c.Driven) : c.Regular ∧ c.StaysInBounds :=
  ⟨h.reachable.regular, h.reachable.staysInBounds⟩

theorem bounded_missingBank :
    missingBank.stepFrame.console.Driven ∧ missingBank.stepFrame.console.Regular ∧
      missingBank.stepFrame.console.StaysInBounds := by
  have hdriven : missingBank.stepFrame.console.Driven := missingBank_reachable.driven.stepFrame
  exact ⟨hdriven, hdriven.bounded⟩

end Console

end Handheld
