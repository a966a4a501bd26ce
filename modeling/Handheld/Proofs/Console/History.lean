import Handheld.Proofs.Board.Journal
import Handheld.Proofs.Console.Operation

namespace Handheld

namespace Console

/-- The calls that the processor makes at the console's board in an operation. -/
def callsIn {α : Type} (act : Exec (Journaled Observed) α) (c : Console) : List BusCall :=
  (Access.after act (Exec.journaled c.circuit)).bus.calls.toList.reverse

/-- The calls made at the console's board when the host performs an operation. -/
def Operation.calls (c : Console) : Operation → List BusCall
  | .step => callsIn Exec.step c
  | .read8 addr => callsIn (Exec.read8 addr) c
  | .write8 addr v => callsIn (Exec.write8 addr v) c
  | .setButton _ _ | .adjustCpu _ | .reset | .load _ => []

/-- The calls made in a run of operations. -/
def history : List Operation → Console → List BusCall
  | [], _ => []
  | op :: ops, c => history ops (op.perform c).1 ++ op.calls c

/-- What the host writes becomes part of the history, unless it starts a transfer, which may be
    refused. -/
theorem Operation.calls_write8 {c : Console} {addr : UInt16} {v : UInt8} (hc : c.board.WellFormed)
    (haddr : addr ≠ 0xFF46) : (Operation.write8 addr v).calls c = [.write addr v] := by
  have hcheck : c.board.checkWrite addr v = .ok () := by
    rw [hc.checkWrite_eq_ok_iff]
    intro hdma
    exact absurd (IoRegister.of_eq_dma_iff.mp hdma) haddr
  obtain ⟨b, hb⟩ := hc.write8_eq_ok hcheck
  obtain ⟨o, ho⟩ := Observed.write8_of_ok (o := ⟨c.board, #[]⟩) hb
  have hnoted : (Bus.write8 addr v : Access (Journaled Observed) Unit) ⟨⟨c.board, #[]⟩, #[]⟩ =
      .ok () ⟨o, #[] ++ #[.write addr v]⟩ := by
    change Journaled.noting _ (Bus.write8 addr v) _ = _
    rw [Journaled.noting, ho]
  have hrun : (Exec.write8 addr v : Exec (Journaled Observed) Unit) (Exec.journaled c.circuit) =
      .ok () ⟨c.cpu, ⟨o, #[] ++ #[.write addr v]⟩⟩ :=
    Exec.onBus_eq_ok_iff.mpr ⟨_, hnoted, rfl⟩
  rw [calls, callsIn, Access.after_of_ok hrun]
  rfl

/-- The history of writes of the host is these writes. -/
theorem history_writes {c : Console} {ws : List (UInt16 × UInt8)} (hc : c.board.WellFormed)
    (hws : ∀ w ∈ ws, w.1 ≠ 0xFF46) :
    history (ws.map fun w => .write8 w.1 w.2) c = (ws.map fun w => .write w.1 w.2).reverse := by
  induction ws generalizing c with
  | nil => rfl
  | cons w ws ih =>
    rw [List.forall_mem_cons] at hws
    rw [List.map_cons, history, Operation.calls_write8 hc hws.1, ih (wellFormed_perform hc _) hws.2,
      List.map_cons, List.reverse_cons]

/-- The console was just switched on, reset or given a cartridge. -/
inductive Restarted : Console → Prop
  | new (config : Config) : Restarted (new config)
  | perform {c : Console} {op : Operation} : c.Reachable → op.Restarts → Restarted (op.perform c).1

theorem Restarted.reachable {c : Console} (h : c.Restarted) : c.Reachable := by
  cases h with
  | new config => exact ⟨config, [], rfl⟩
  | @perform c op hc _ => exact hc.play [op]

theorem Restarted.eq_powerOn {c : Console} (h : c.Restarted) :
    ∃ d : Console, d.board.WellFormed ∧ c = d.powerOn := by
  cases h with
  | new config => exact ⟨_, Board.new_wellFormed config, rfl⟩
  | @perform c op hc hop =>
    cases op with
    | reset => exact ⟨c, hc.wellFormed, rfl⟩
    | load cartridge => exact ⟨c.insert cartridge, hc.wellFormed.insert cartridge, rfl⟩
    | _ => exact hop.elim

/-- The relation of the processor's clock and the board to their history outlasts each call that can
    become part of the history. -/
structure Traces (Q : Nat → Board → List BusCall → Prop) : Prop where
  read : ∀ {k b past} addr, Q k b past → Q k b (.read addr :: past)
  write : ∀ {k past addr v} {b t : Board}, b.WellFormed → Q k b past →
    Board.write8 addr v b = .ok () t → Q k t (.write addr v :: past)
  begin : ∀ {k b past} pc, Q k b past → Q k (b.beginStep pc) (.beginStep pc :: past)
  tick : ∀ {k b past} n, Q k b past → Q (k + n) (b.advance n).1 (.tick n :: past)

/-- The relation outlasts the buttons as well. -/
structure Chronicles (Q : Nat → Board → List BusCall → Prop) : Prop extends Traces Q where
  button : ∀ {k b past} button pressed, Q k b past → Q k (b.setButton button pressed) past

variable {Q : Nat → Board → List BusCall → Prop} {c : Console} {past : List BusCall}

/-- The processor and its board, which is well-formed, stand in the relation to the calls so far. -/
def Chronicled (Q : Nat → Board → List BusCall → Prop) (past : List BusCall) (cpu : Cpu)
    (j : Journaled Observed) : Prop :=
  Board.Logged (fun b calls => Q cpu.clock b (calls.toList.reverse ++ past)) j

theorem Traces.logs (h : Traces Q) (k : Nat) (past : List BusCall) :
    Board.Logs fun b calls => Q k b (calls.toList.reverse ++ past) where
  read addr hQ := by
    rw [Array.toList_push, List.reverse_append]
    exact h.read addr hQ
  write hb hQ hwrite := by
    rw [Array.toList_push, List.reverse_append]
    exact h.write hb hQ hwrite

theorem Traces.lasting (h : Traces Q) (past : List BusCall) :
    Exec.Lasting (Chronicled Q past) where
  cpu := by
    refine ⟨fun _ _ _ hj => hj, fun cpu j f hf hj => ?_⟩
    unfold Chronicled
    rw [(hf.counters cpu).1]
    exact hj
  bus cpu := (h.logs cpu.clock past).stable
  begin cpu j hj := by
    obtain ⟨hwellFormed, hQ⟩ := hj
    unfold Chronicled Board.Logged
    change (j.bus.beginStep cpu.regs.pc).board.WellFormed ∧
      Q cpu.clock (j.bus.beginStep cpu.regs.pc).board
        ((j.calls.push (.beginStep cpu.regs.pc)).toList.reverse ++ past)
    rw [Observed.board_beginStep, Array.toList_push, List.reverse_append]
    exact ⟨hwellFormed.beginStep _, h.begin _ hQ⟩
  tick n s hs := by
    obtain ⟨hwellFormed, hQ⟩ := hs
    refine ⟨hwellFormed.advance n, ?_⟩
    change Q (s.cpu.clock + n) (s.bus.bus.board.advance n).1
      ((s.bus.calls.push (.tick n)).toList.reverse ++ past)
    rw [Array.toList_push, List.reverse_append]
    exact h.tick n hQ

/-- What an operation of the processor keeps on the journaled board, it keeps on the board. -/
theorem chronicled_after {α : Type} {x : Exec (Journaled Observed) α} {y : Exec Observed α}
    (hxy : Exec.Follows Journaled.bus x y)
    (hx : Access.Preserves (fun s => Chronicled Q past s.cpu s.bus) x) (hc : c.board.WellFormed)
    (hQ : Q c.cpu.clock c.board past) :
    Q (Access.after y c.circuit).cpu.clock (Access.after y c.circuit).bus.board
      (callsIn x c ++ past) := by
  have hafter : Access.after y c.circuit =
      (Access.after x (Exec.journaled c.circuit)).map Journaled.bus :=
    hxy.after (Exec.journaled c.circuit)
  rw [hafter]
  exact (hx (Exec.journaled c.circuit) ⟨hc, hQ⟩).2

theorem exec_console {α : Type} (act : Exec Observed α) (c : Console) :
    (c.exec act).console =
      { c with cpu := (Access.after act c.circuit).cpu,
               board := (Access.after act c.circuit).bus.board } := by
  cases hact : act c.circuit with
  | ok a s => rw [exec_of_ok hact, Access.after_of_ok hact]
  | error e s => rw [exec_of_error hact, Access.after_of_error hact]

theorem step_console (c : Console) :
    c.step.console.cpu.clock = (Access.after Exec.step c.circuit).cpu.clock ∧
      c.step.console.board = (Access.after Exec.step c.circuit).bus.board := by
  cases hstep : Exec.step c.circuit with
  | ok n s =>
    rw [step_of_ok hstep, Access.after_of_ok hstep]
    exact ⟨rfl, rfl⟩
  | error e s =>
    rw [step_of_error hstep, Access.after_of_error hstep]
    exact ⟨rfl, rfl⟩

theorem Traces.perform (h : Traces Q) {op : Operation} (hrestarts : ¬ op.Restarts)
    (hbutton : ∀ button pressed, op ≠ .setButton button pressed)
    (hadjusts : op.AdjustsBy fun f => ∀ cpu b past, Q cpu.clock b past → Q (f cpu).clock b past)
    (hc : c.board.WellFormed) (hQ : Q c.cpu.clock c.board past) :
    Q (op.perform c).1.cpu.clock (op.perform c).1.board (op.calls c ++ past) := by
  have hlasting := h.lasting past
  cases op with
  | step =>
    obtain ⟨hclock, hboard⟩ := step_console c
    change Q c.step.console.cpu.clock c.step.console.board _
    rw [hclock, hboard]
    exact chronicled_after (Exec.step_follows Journaled.hom) hlasting.step_preserves hc hQ
  | read8 addr =>
    have hread : Exec.Reading Exec.StepChange (Exec.read8 addr : Exec (Journaled Observed) UInt8) :=
      .read8 addr
    change Q (c.exec (Exec.read8 addr)).console.cpu.clock (c.exec (Exec.read8 addr)).console.board _
    rw [exec_console]
    refine chronicled_after (Exec.read8_follows Journaled.hom addr) ?_ hc hQ
    exact hread.preserves hlasting.cpu fun cpu => (hlasting.bus cpu).toReadStable
  | write8 addr v =>
    have hwrite : Exec.Orderly Exec.StepChange
        (Exec.write8 addr v : Exec (Journaled Observed) Unit) := .write8 addr v
    change Q (c.exec (Exec.write8 addr v)).console.cpu.clock
      (c.exec (Exec.write8 addr v)).console.board _
    rw [exec_console]
    refine chronicled_after (Exec.write8_follows Journaled.hom addr v) ?_ hc hQ
    exact hwrite.preserves hlasting.cpu hlasting.bus
  | setButton button pressed => exact absurd rfl (hbutton button pressed)
  | adjustCpu f => exact hadjusts c.cpu c.board past hQ
  | reset | load cartridge => exact absurd trivial hrestarts

theorem Chronicles.perform (h : Chronicles Q) {op : Operation} (hrestarts : ¬ op.Restarts)
    (hadjusts : op.AdjustsBy fun f => ∀ cpu b past, Q cpu.clock b past → Q (f cpu).clock b past)
    (hc : c.board.WellFormed) (hQ : Q c.cpu.clock c.board past) :
    Q (op.perform c).1.cpu.clock (op.perform c).1.board (op.calls c ++ past) := by
  cases op with
  | setButton button pressed => exact h.button button pressed hQ
  | _ => exact h.toTraces.perform hrestarts (by simp) hadjusts hc hQ

/-- What the history of a console comes to, it comes to after a run of operations. -/
theorem Chronicles.play (h : Chronicles Q) {ops : List Operation}
    (hops : ∀ op ∈ ops, ¬ op.Restarts ∧
      op.AdjustsBy fun f => ∀ cpu b past, Q cpu.clock b past → Q (f cpu).clock b past)
    (hc : c.board.WellFormed) (hQ : Q c.cpu.clock c.board past) :
    Q (c.play ops).1.cpu.clock (c.play ops).1.board (history ops c ++ past) := by
  induction ops generalizing c past with
  | nil => exact hQ
  | cons op ops ih =>
    rw [List.forall_mem_cons] at hops
    obtain ⟨⟨hrestarts, hadjusts⟩, hops⟩ := hops
    have hrest := ih hops (wellFormed_perform hc op) (h.perform hrestarts hadjusts hc hQ)
    rwa [← List.append_assoc] at hrest

end Console

end Handheld
