import Handheld.Console.Run
import Handheld.Proofs.Board.Observed
import Handheld.Proofs.Cpu.Step

namespace Handheld.Console

/-- The processor and the board, with nothing observed yet. -/
def circuit (c : Console) : Circuit Observed :=
  ⟨c.cpu, ⟨c.board, #[]⟩⟩

section Exec

variable {α : Type} {c : Console} {act : Exec Observed α} {s : Circuit Observed} {e : Fault}

theorem exec_of_ok {a : α} (h : act c.circuit = .ok a s) :
    c.exec act = ⟨{ c with cpu := s.cpu, board := s.bus.board }, .ok a, s.bus.events⟩ := by
  unfold circuit at h
  simp only [exec, h]

theorem exec_of_error (h : act c.circuit = .error e s) :
    c.exec act = ⟨{ c with cpu := s.cpu, board := s.bus.board }, .error e, s.bus.events⟩ := by
  unfold circuit at h
  simp only [exec, h]

theorem step_of_ok {n : Nat} (h : Exec.step c.circuit = .ok n s) :
    c.step = ⟨{ c with cpu := s.cpu, board := s.bus.board }, .ok n, s.bus.events⟩ := by
  simp only [step, exec_of_ok h]

/-- A failed step raises the stop flag. -/
theorem step_of_error (h : Exec.step c.circuit = .error e s) :
    c.step = ⟨{ c with cpu := s.cpu.stop, board := s.bus.board }, .error e, s.bus.events⟩ := by
  simp only [step, exec_of_error h]

theorem step_of_stopped (h : c.cpu.stopped = true) : c.step = ⟨c, .ok 0, #[]⟩ :=
  step_of_ok (s := c.circuit) (Exec.step_of_stopped h)

variable {P : Cpu → Observed → Prop}

theorem exec_preserves (hact : Access.Preserves (fun s => P s.cpu s.bus) act)
    (h : P c.cpu ⟨c.board, #[]⟩) :
    P (c.exec act).console.cpu ⟨(c.exec act).console.board, (c.exec act).events⟩ := by
  have hafter := hact c.circuit h
  cases hrun : act c.circuit with
  | ok a s =>
    rw [Access.after_of_ok hrun] at hafter
    rw [exec_of_ok hrun]
    exact hafter
  | error e s =>
    rw [Access.after_of_error hrun] at hafter
    rw [exec_of_error hrun]
    exact hafter

end Exec

/-- What a host can do with a console. -/
inductive Operation
  | step
  | read8 (addr : UInt16)
  | write8 (addr : UInt16) (v : UInt8)
  | setButton (button : Button) (pressed : Bool)
  /-- The host changes the processor's state by hand, as it does to stop it. -/
  | adjustCpu (f : Cpu → Cpu)
  | reset
  | load (cartridge : Cartridge)

namespace Operation

/-- The console after an operation, and what happened meanwhile. -/
def perform : Operation → Console → Console × Array Event
  | .step, c => (c.step.console, c.step.events)
  | .read8 addr, c => ((c.read8 addr).console, (c.read8 addr).events)
  | .write8 addr v, c => ((c.write8 addr v).console, (c.write8 addr v).events)
  | .setButton button pressed, c => (c.setButton button pressed, #[])
  | .adjustCpu f, c => ({ c with cpu := f c.cpu }, #[])
  | .reset, c => (c.reset.console, c.reset.events)
  | .load cartridge, c => ((c.load cartridge).console, (c.load cartridge).events)

/-- The operation brings the console to its power-on state. -/
def Restarts : Operation → Prop
  | .reset | .load _ => True
  | _ => False

/-- The operation puts in a cartridge. -/
def Loads : Operation → Prop
  | .load _ => True
  | _ => False

theorem not_loads_of_not_restarts {op : Operation} (h : ¬ op.Restarts) : ¬ op.Loads := by
  cases op with
  | load cartridge => exact absurd trivial h
  | _ => exact not_false

/-- The cartridge that is in after the operation, if `present` is in before. -/
def cartridgeAfter (present : Option Cartridge) : Operation → Option Cartridge
  | .load cartridge => some cartridge
  | _ => present

theorem cartridgeAfter_of_not_loads {op : Operation} (h : ¬ op.Loads) (present : Option Cartridge) :
    op.cartridgeAfter present = present := by
  cases op with
  | load cartridge => exact absurd trivial h
  | _ => rfl

/-- What the operation changes of the processor by hand, if anything, has the property `K`. -/
def AdjustsBy (K : (Cpu → Cpu) → Prop) : Operation → Prop
  | .adjustCpu f => K f
  | _ => True

theorem AdjustsBy.mono {K L : (Cpu → Cpu) → Prop} {op : Operation} (h : op.AdjustsBy K)
    (hKL : ∀ f, K f → L f) : op.AdjustsBy L := by
  cases op with
  | adjustCpu f => exact hKL f h
  | _ => trivial

/-- What every change has needs no attention. -/
theorem adjustsBy_of_forall {K : (Cpu → Cpu) → Prop} (h : ∀ f, K f) (op : Operation) :
    op.AdjustsBy K := by
  cases op with
  | adjustCpu f => exact h f
  | _ => trivial

end Operation

/-- The console after a run of operations, and what happened meanwhile. -/
def play : List Operation → Console → Console × Array Event
  | [], c => (c, #[])
  | op :: ops, c =>
    let first := op.perform c
    let rest := play ops first.1
    (rest.1, first.2 ++ rest.2)

/-- The console can be reached from power-on, by whatever the host does. -/
def Reachable (c : Console) : Prop :=
  ∃ config ops, (play ops (new config)).1 = c

theorem play_append (ops more : List Operation) (c : Console) :
    play (ops ++ more) c =
      ((play more (play ops c).1).1, (play ops c).2 ++ (play more (play ops c).1).2) := by
  induction ops generalizing c with
  | nil => simp [play]
  | cons op ops ih => simp [play, ih]

theorem counters_powerOn (c : Console) :
    c.powerOn.cpu.clock = 0 ∧ c.powerOn.cpu.clockCycles = 0 := by
  unfold powerOn
  cases c.config.skipBoot <;> exact ⟨rfl, rfl⟩

section Setup

variable {c : Console}

theorem exec_setup {α : Type} (act : Exec Observed α) :
    (c.exec act).console.cartridge = c.cartridge ∧ (c.exec act).console.config = c.config := by
  unfold exec
  split <;> exact ⟨rfl, rfl⟩

theorem step_setup : c.step.console.cartridge = c.cartridge ∧ c.step.console.config = c.config := by
  cases hstep : Exec.step c.circuit with
  | ok n s =>
    rw [step_of_ok hstep]
    exact ⟨rfl, rfl⟩
  | error e s =>
    rw [step_of_error hstep]
    exact ⟨rfl, rfl⟩

/-- No operation but an insertion changes the cartridge, and none changes the configuration. -/
theorem perform_setup (op : Operation) :
    (op.perform c).1.cartridge = op.cartridgeAfter c.cartridge ∧
      (op.perform c).1.config = c.config := by
  cases op with
  | step => exact step_setup
  | read8 addr => exact exec_setup _
  | write8 addr v => exact exec_setup _
  | setButton | adjustCpu | reset | load => exact ⟨rfl, rfl⟩

theorem play_cartridge_of_not_loads {ops : List Operation} (hops : ∀ op ∈ ops, ¬ op.Loads) :
    (play ops c).1.cartridge = c.cartridge := by
  induction ops generalizing c with
  | nil => rfl
  | cons op ops ih =>
    rw [List.forall_mem_cons] at hops
    have hop := (perform_setup (c := c) op).1
    rw [op.cartridgeAfter_of_not_loads hops.1] at hop
    exact (ih hops.2).trans hop

end Setup

section Induction

variable {P : Console → Array Event → Prop} {ops : List Operation} {c : Console}

private theorem play_induction_from
    (hop : ∀ op ∈ ops, ∀ c events, P c events → P (op.perform c).1 (events ++ (op.perform c).2))
    {events : Array Event} (h : P c events) : P (play ops c).1 (events ++ (play ops c).2) := by
  induction ops generalizing c events with
  | nil => simpa [play] using h
  | cons op ops ih =>
    rw [List.forall_mem_cons] at hop
    have hrest := ih hop.2 (hop.1 c events h)
    rwa [Array.append_assoc] at hrest

/-- What each operation keeps of a console and of the events so far, a run keeps. -/
theorem play_induction
    (hop : ∀ op ∈ ops, ∀ c events, P c events → P (op.perform c).1 (events ++ (op.perform c).2))
    (h : P c #[]) : P (play ops c).1 (play ops c).2 := by
  have hrun := play_induction_from hop h
  rwa [Array.empty_append] at hrun

theorem play_config (ops : List Operation) (c : Console) : (play ops c).1.config = c.config := by
  refine play_induction (P := fun d _ => d.config = c.config) (fun op _ d _ h => ?_) rfl
  rw [(perform_setup op).2, h]

end Induction

/-- A property of processor and board that neither a step nor a button destroys. -/
structure Lasting (P : Cpu → Observed → Prop) : Prop extends Exec.Lasting P where
  button : ∀ cpu o button pressed, P cpu o →
    P cpu { o with board := o.board.setButton button pressed }

/-- What the board keeps lasts, whatever the processor does. -/
theorem Lasting.ofBoard {P : Board → Prop}
    (hwrite : ∀ addr v, Access.Preserves P (Board.write8 addr v))
    (hbegin : ∀ b pc, P b → P (b.beginStep pc))
    (hadvance : ∀ b cycles, P b → P (b.advance cycles).1)
    (hbutton : ∀ b button pressed, P b → P (b.setButton button pressed)) :
    Lasting fun _ o => P o.board where
  cpu := ⟨fun _ _ _ h => h, fun _ _ _ _ h => h⟩
  bus _ := Observed.stable (P := fun b _ => P b) fun _ => hwrite
  begin cpu o h := by
    change P (o.beginStep cpu.regs.pc).board
    rw [Observed.board_beginStep]
    exact hbegin _ _ h
  tick n _ h := hadvance _ n h
  button _ _ button pressed h := hbutton _ button pressed h

section Lasting

variable {P : Cpu → Observed → Prop} {c : Console}

theorem Lasting.step (h : Lasting P) (hc : P c.cpu ⟨c.board, #[]⟩) :
    P c.step.console.cpu ⟨c.step.console.board, c.step.events⟩ := by
  cases hstep : Exec.step c.circuit with
  | ok n s =>
    rw [step_of_ok hstep]
    exact h.step_preserves.of_ok hc hstep
  | error e s =>
    rw [step_of_error hstep]
    exact h.cpu.change _ _ _ (.perform .undefined) (h.step_preserves.of_error hc hstep)

/-- Reads and writes keep what single accesses keep. -/
theorem read8_preserves (hcpu : Cpu.Stable Exec.StepChange P) (hbus : ∀ cpu, Bus.Stable (P cpu))
    (addr : UInt16) (hc : P c.cpu ⟨c.board, #[]⟩) :
    P (c.read8 addr).console.cpu ⟨(c.read8 addr).console.board, (c.read8 addr).events⟩ := by
  have hread : Exec.Reading Exec.StepChange (Exec.read8 addr : Exec Observed UInt8) := .read8 addr
  exact exec_preserves (hread.preserves hcpu fun cpu => (hbus cpu).toReadStable) hc

theorem write8_preserves (hcpu : Cpu.Stable Exec.StepChange P) (hbus : ∀ cpu, Bus.Stable (P cpu))
    (addr : UInt16) (v : UInt8) (hc : P c.cpu ⟨c.board, #[]⟩) :
    P (c.write8 addr v).console.cpu
      ⟨(c.write8 addr v).console.board, (c.write8 addr v).events⟩ := by
  have hwrite : Exec.Orderly Exec.StepChange (Exec.write8 addr v : Exec Observed Unit) :=
    .write8 addr v
  exact exec_preserves (hwrite.preserves hcpu hbus) hc

/-- What lasts is kept by every operation, unless it restarts the console or breaks it by hand. -/
theorem Lasting.perform (h : Lasting P) {op : Operation} (hrestarts : ¬ op.Restarts)
    (hadjusts : op.AdjustsBy fun f => ∀ cpu o, P cpu o → P (f cpu) o)
    (hc : P c.cpu ⟨c.board, #[]⟩) :
    P (op.perform c).1.cpu ⟨(op.perform c).1.board, (op.perform c).2⟩ := by
  cases op with
  | step => exact h.step hc
  | read8 addr => exact read8_preserves h.cpu h.bus addr hc
  | write8 addr v => exact write8_preserves h.cpu h.bus addr v hc
  | setButton button pressed => exact h.button c.cpu _ button pressed hc
  | adjustCpu f => exact hadjusts c.cpu _ hc
  | reset | load cartridge => exact absurd trivial hrestarts

/-- The processor has no part in what lasts of the board alone. -/
theorem Lasting.perform_board {P : Board → Prop} (h : Lasting fun _ o => P o.board) {op : Operation}
    (hrestarts : ¬ op.Restarts) (hc : P c.board) : P (op.perform c).1.board :=
  h.perform hrestarts (op.adjustsBy_of_forall fun _ _ _ h => h) hc

end Lasting

variable {c : Console}

theorem Reachable.play (h : c.Reachable) (ops : List Operation) : (c.play ops).1.Reachable := by
  obtain ⟨config, before, rfl⟩ := h
  exact ⟨config, before ++ ops, by rw [play_append]⟩

/-- A frame is a run of steps. -/
theorem stepWhile_eq_play (start fuel : Nat) (c : Console) (events : Array Event) :
    ∃ n, (stepWhile start fuel c events).console = (play (List.replicate n .step) c).1 := by
  induction fuel generalizing c events with
  | zero => exact ⟨0, rfl⟩
  | succ fuel ih =>
    unfold stepWhile
    split
    · exact ⟨0, rfl⟩
    · cases hr : c.step.result with
      | ok _ =>
        obtain ⟨n, hn⟩ := ih c.step.console (events ++ c.step.events)
        simp only [hr]
        exact ⟨n + 1, hn⟩
      | error e =>
        simp only [hr]
        exact ⟨1, rfl⟩

theorem Reachable.stepFrame (h : c.Reachable) : c.stepFrame.console.Reachable := by
  obtain ⟨n, hn⟩ := stepWhile_eq_play c.frames stepsPerFrame c #[]
  exact hn ▸ h.play _

/-- So is what happens until the host has had enough. -/
theorem runLoop_eq_play {σ : Type} (host : Host σ) (fuel : Nat) (c : Console) (s : σ) :
    ∃ n, (runLoop host fuel c s).console = (play (List.replicate n .step) c).1 := by
  induction fuel generalizing c s with
  | zero => exact ⟨0, rfl⟩
  | succ fuel ih =>
    unfold runLoop
    split
    · exact ⟨0, rfl⟩
    · split
      · exact ⟨0, rfl⟩
      · cases hr : c.step.result with
        | ok _ =>
          obtain ⟨n, hn⟩ := ih c.step.console (c.step.events.foldl host.react s)
          simp only [hr]
          exact ⟨n + 1, hn⟩
        | error e =>
          simp only [hr]
          exact ⟨1, rfl⟩

theorem Reachable.run {σ : Type} (h : c.Reachable) (host : Host σ) (frames : Nat) (s : σ) :
    (c.run host frames s).console.Reachable := by
  obtain ⟨n, hn⟩ := runLoop_eq_play host (stepsPerFrame * frames + 1) c
    (host.tell s (.runStart c.cpu.regs.pc))
  exact hn ▸ h.play _

/-- A property of boards that lasts and that neither an insertion nor a reset destroys. -/
structure Invariant (P : Board → Prop) : Prop where
  lasting : Lasting fun _ o => P o.board
  new : ∀ config, P (.new config)
  insert : ∀ {b} cartridge, P b → P (b.insert cartridge)
  reset : ∀ {b} scheme, P b → P (b.reset scheme)

section Invariant

variable {P : Board → Prop}

theorem Invariant.perform (h : Invariant P) (hc : P c.board) (op : Operation) :
    P (op.perform c).1.board := by
  by_cases hrestarts : op.Restarts
  · cases op with
    | reset => exact h.reset _ hc
    | load cartridge => exact h.reset _ (h.insert cartridge hc)
    | _ => exact hrestarts.elim
  · exact h.lasting.perform_board hrestarts hc

theorem Invariant.reachable (h : Invariant P) (hc : c.Reachable) : P c.board := by
  obtain ⟨config, ops, rfl⟩ := hc
  refine play_induction (P := fun c _ => P c.board) (fun op _ c _ hc => h.perform hc op) ?_
  exact h.reset _ (h.new config)

end Invariant

/-- The board of a reachable console is well-formed. -/
theorem wellFormed_lasting : Lasting fun _ o => o.board.WellFormed :=
  .ofBoard Board.write8_preserves_wellFormed (fun _ pc h => h.beginStep pc)
    (fun _ cycles h => h.advance cycles) fun _ button pressed h => h.setButton button pressed

theorem wellFormed_invariant : Invariant Board.WellFormed where
  lasting := wellFormed_lasting
  new := Board.new_wellFormed
  insert cartridge h := h.insert cartridge
  reset _ h := h.reset _

theorem wellFormed_perform (h : c.board.WellFormed) (op : Operation) :
    (op.perform c).1.board.WellFormed :=
  wellFormed_invariant.perform h op

theorem Reachable.wellFormed (h : c.Reachable) : c.board.WellFormed :=
  wellFormed_invariant.reachable h

variable {e : Fault}

/-- A frame fails only if one of its steps does. -/
theorem stepWhile_fails {start fuel : Nat} {events : Array Event}
    (h : (stepWhile start fuel c events).result = .error e) :
    ∃ n, (play (List.replicate n .step) c).1.step.result = .error e := by
  induction fuel generalizing c events with
  | zero => cases h
  | succ fuel ih =>
    unfold stepWhile at h
    split at h
    · cases h
    · cases hr : c.step.result with
      | ok _ =>
        simp only [hr] at h
        obtain ⟨n, hn⟩ := ih h
        exact ⟨n + 1, hn⟩
      | error e' =>
        simp only [hr] at h
        cases h
        exact ⟨0, hr⟩

theorem runLoop_fails {σ : Type} {host : Host σ} {fuel : Nat} {s : σ}
    (h : (runLoop host fuel c s).ending = .failed e) :
    ∃ n, (play (List.replicate n .step) c).1.step.result = .error e := by
  induction fuel generalizing c s with
  | zero => cases h
  | succ fuel ih =>
    unfold runLoop at h
    split at h
    · cases h
    · split at h
      · cases h
      · cases hr : c.step.result with
        | ok _ =>
          simp only [hr] at h
          obtain ⟨n, hn⟩ := ih h
          exact ⟨n + 1, hn⟩
        | error e' =>
          simp only [hr] at h
          cases h
          exact ⟨0, hr⟩

end Handheld.Console
