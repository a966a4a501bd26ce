import Handheld.Proofs.Board.Journal
import Handheld.Proofs.Board.Requests
import Handheld.Proofs.Console.FailedStep
import Handheld.Proofs.Cpu.Entry

namespace Handheld

open Interrupts (Source)

/-- Among the calls is a write to the register of requests that leaves out the source. -/
def Withdraws (x : Source) (calls : Array BusCall) : Prop :=
  ∃ v, .write Interrupts.requestAddr v ∈ calls ∧ (Interrupts.ofByte v).has x = false

/-- The source is requested, or the calls have withdrawn it. -/
def Accounted (x : Source) (b : Board) (calls : Array BusCall) : Prop :=
  b.requested.has x = true ∨ Withdraws x calls

section Accounted

variable {x : Source} {b t : Board} {calls : Array BusCall} {addr : UInt16}

theorem Accounted.append (h : Accounted x b calls) (more : Array BusCall) :
    Accounted x b (calls ++ more) := by
  refine h.imp_right ?_
  rintro ⟨v, hmem, hv⟩
  exact ⟨v, Array.mem_append_left more hmem, hv⟩

theorem Accounted.push (h : Accounted x b calls) (call : BusCall) :
    Accounted x b (calls.push call) := by
  rw [Array.push_eq_append]
  exact h.append #[call]

theorem Accounted.write8 {v : UInt8} (h : Accounted x b calls)
    (hwrite : Board.write8 addr v b = .ok () t) : Accounted x t (calls.push (.write addr v)) := by
  have hchange := Board.after_write8_change addr v b
  rw [Access.after_of_ok hwrite] at hchange
  obtain hkept | ⟨rfl, hset⟩ := hchange.requested
  · unfold Accounted
    rw [hkept]
    exact h.push _
  · cases hx : (Interrupts.ofByte v).has x with
    | true => exact .inl (by rw [hset, hx])
    | false => exact .inr ⟨v, Array.mem_push_self, hx⟩

theorem Accounted.write16 {o u : Observed} {w : UInt16} (h : Accounted x o.board calls)
    (hwrite : Bus.write16 addr w o = .ok () u) :
    Accounted x u.board
      (calls ++ #[.write addr (Word.lo w), .write (addr + 1) (Word.hi w)]) := by
  obtain ⟨_, _, hlow, hhigh⟩ := Access.bind_eq_ok_iff.mp (Observed.writeBytes_of_write16 hwrite)
  exact (h.write8 (Observed.board_of_perform_eq_ok hlow)).write8
    (Observed.board_of_perform_eq_ok hhigh)

/-- Whatever is done with the board, the source stays accounted for. -/
theorem accounted_logs (x : Source) : Board.Logs (Accounted x) where
  read _ h := h.push _
  write _ h hwrite := h.write8 hwrite

end Accounted

theorem Observed.lowFirst : Bus.LowFirst Observed := by
  intro addr w o t h
  obtain ⟨_, u, hlow, hhigh⟩ := Access.bind_eq_ok_iff.mp (writeBytes_of_write16 h)
  exact ⟨u, hlow, hhigh⟩

namespace Exec

variable {s u w t : Circuit Observed} {n : Nat} {x : Source}

/-- A source requested before the work of a step is requested after it, or the work withdrew it. -/
theorem work_accounted (hs : s.bus.board.WellFormed) (hx : s.bus.board.requested.has x = true)
    (h : work s = .ok n u) : Accounted x u.bus.board (workCalls s) := by
  have hbegin (pc : UInt16) (o : Observed) (calls : Array BusCall)
      (ho : o.board.WellFormed ∧ Accounted x o.board calls) :
      (Bus.beginStep pc o).board.WellFormed ∧
        Accounted x (Bus.beginStep pc o).board (calls.push (.beginStep pc)) := by
    change (o.beginStep pc).board.WellFormed ∧ Accounted x (o.beginStep pc).board _
    rw [Observed.board_beginStep]
    exact ⟨ho.1.beginStep pc, ho.2.push _⟩
  exact (work_keeps (accounted_logs x).stable hbegin ⟨hs, .inl hx⟩ h).2

/-- The bytes that an entry with these registers pushes. -/
def pushCalls (r : Registers) : Array BusCall :=
  #[.write (r.sp - 2) (Word.lo r.pc), .write (r.sp - 2 + 1) (Word.hi r.pc)]

theorem Looks.eq (h : Looks w t) : t = w := by
  obtain rfl | ⟨enabled, b, requested, b', henabled, hrequested, rfl⟩ := h
  · rfl
  · obtain ⟨-, -, -, rfl⟩ := Observed.eq_of_reads henabled hrequested
    rfl

/-- An entry takes back the request for v-blank, and others only where the push withdraws them. -/
theorem Entry.accounted (h : Entry w t) (hx : w.bus.board.requested.has x = true)
    (hne : x ≠ .vblank) : Accounted x t.bus.board (pushCalls w.cpu.regs) := by
  obtain ⟨enabled, b₁, requested, b₂, b₃, remaining, b₄, b₅, henabled, hrequested, ⟨hpush, -⟩,
    hread, hback, rfl⟩ := h
  obtain ⟨-, -, -, rfl⟩ := Observed.eq_of_reads henabled hrequested
  rw [Observed.read8_requested] at hread
  cases hread
  -- The push may land on the register of requests, so what is read back there is what it left.
  have hpushed : Accounted x b₃.board (#[] ++ pushCalls w.cpu.regs) :=
    Accounted.write16 (.inl hx) hpush
  rw [Array.empty_append] at hpushed
  refine hpushed.imp_left fun hkept => ?_
  have hset : Board.write8 Interrupts.requestAddr (b₃.board.requested.toByte &&& 0xFE) b₃.board =
      .ok () b₅.board := Observed.board_of_perform_eq_ok hback
  have hboard : b₅.board =
      b₃.board.setRegister .interruptRequest (b₃.board.requested.toByte &&& 0xFE) :=
    (EStateM.Result.ok.inj hset).2.symm
  refine Board.advance_requested b₅.board Interrupts.entryCycles x ?_
  rw [hboard]
  change (Interrupts.ofByte (b₃.board.requested.toByte &&& 0xFE)).has x = true
  rw [Interrupts.has_ofByte_acknowledged, hkept, Bool.and_true]
  exact bne_iff_ne.mpr hne

theorem accepts_iff (w : Circuit Observed) :
    Accepts w ↔ w.cpu.stopped = false ∧ w.cpu.regs.ime = true ∧
      w.bus.board.enabled &&& 0x01 ≠ 0 ∧ w.bus.board.requested.vblank = true := by
  have hbit : w.bus.board.enabled &&& w.bus.board.requested.toByte &&& 0x01 ≠ 0 ↔
      w.bus.board.enabled &&& 0x01 ≠ 0 ∧ w.bus.board.requested.vblank = true := by
    rw [UInt8.and_assoc, Interrupts.toByte_and_one]
    cases w.bus.board.requested.vblank <;> simp
  unfold Accepts
  rw [← hbit]
  refine and_congr_right fun _ => and_congr_right fun _ => ?_
  constructor
  · rintro ⟨enabled, b, requested, b', henabled, hrequested, hset⟩
    obtain ⟨rfl, -, rfl, -⟩ := Observed.eq_of_reads henabled hrequested
    exact hset
  · intro hset
    exact ⟨_, _, _, _, Observed.read8_enabled _, Observed.read8_requested _, hset⟩

theorem Dispatches.not_accepts {k : Nat} (h : Dispatches s t k n u) : ¬ Accepts t := by
  -- An entry turns interrupts off; otherwise nothing has changed since the processor declined.
  by_cases haccepts : Accepts (elapsed n u)
  · rintro ⟨-, hime, -⟩
    rw [(h.entry haccepts).2.cpu] at hime
    cases hime
  · rw [(h.otherwise haccepts).2.eq]
    exact haccepts

/-- A source requested before a step is requested after it, or the work withdrew it, or the routine
    was entered and it is the source acknowledged or withdrawn by the push. -/
theorem Dispatches.accounted {k : Nat} (h : Dispatches s t k n u) (hs : s.bus.board.WellFormed)
    (hx : s.bus.board.requested.has x = true) :
    t.bus.board.requested.has x = true ∨ Withdraws x (workCalls s) ∨
      Entry (elapsed n u) t ∧ (x = .vblank ∨ Withdraws x (pushCalls u.cpu.regs)) := by
  obtain hkept | hwithdrawn := work_accounted hs hx h.work
  · have helapsed : (elapsed n u).bus.board.requested.has x = true :=
      Board.advance_requested u.bus.board n x hkept
    by_cases haccepts : Accepts (elapsed n u)
    · have hentry := (h.entry haccepts).2
      by_cases hvblank : x = .vblank
      · exact .inr (.inr ⟨hentry, .inl hvblank⟩)
      · obtain hafter | hpush := hentry.accounted helapsed hvblank
        · exact .inl hafter
        · exact .inr (.inr ⟨hentry, .inr hpush⟩)
    · rw [(h.otherwise haccepts).2.eq]
      exact .inl helapsed
  · exact .inr (.inl hwithdrawn)

end Exec

namespace Console

variable {c : Console} {n : Nat}

/-- A v-blank interrupt is due: interrupts are accepted, and bit 0 is set in both `IE` and `IF`. -/
def Due (c : Console) : Prop :=
  c.cpu.regs.ime = true ∧ c.board.enabled &&& 0x01 ≠ 0 ∧ c.board.requested.vblank = true

/-- The step takes a request back: the work of the step writes a byte without it to the register of
    requests, or the routine is entered, and the source is the one acknowledged or the push writes
    such a byte. -/
def TakesBack (c : Console) (x : Source) : Prop :=
  Withdraws x (Exec.workCalls c.circuit) ∨
    ∃ n u t, Exec.work c.circuit = .ok n u ∧ Exec.Entry (Exec.elapsed n u) t ∧
      c.step.console = { c with cpu := t.cpu, board := t.bus.board } ∧
      (x = .vblank ∨ Withdraws x (Exec.pushCalls u.cpu.regs))

/-- What a successful step leaves of the interrupts: none that is due, if the processor still runs,
    and every request that the step has not taken back. -/
structure Settles (c : Console) : Prop where
  due : c.step.console.cpu.stopped = false → ¬ c.step.console.Due
  requests : ∀ x, c.board.requested.has x = true →
    c.step.console.board.requested.has x = true ∨ c.TakesBack x

theorem settles_of_step (hc : c.board.WellFormed) (h : c.step.result = .ok n) : c.Settles := by
  cases hstep : Exec.step c.circuit with
  | error e t =>
    rw [step_of_error hstep] at h
    cases h
  | ok k t =>
    have hconsole : c.step.console = { c with cpu := t.cpu, board := t.bus.board } := by
      rw [step_of_ok hstep]
    cases hstopped : c.cpu.stopped with
    | true =>
      have hidle := step_of_stopped hstopped
      refine ⟨fun hrunning => ?_, fun x hx => .inl ?_⟩
      · rw [hidle, hstopped] at hrunning
        cases hrunning
      · rw [hidle]
        exact hx
    | false =>
      obtain ⟨m, u, hdispatches⟩ := Exec.step_dispatches hstep hstopped
      refine ⟨fun hrunning hdue => ?_, fun x hx => ?_⟩
      · rw [hconsole] at hrunning hdue
        exact hdispatches.not_accepts ((Exec.accepts_iff t).mpr ⟨hrunning, hdue⟩)
      · rw [hconsole]
        refine (hdispatches.accounted hc hx).imp_right fun htaken => ?_
        obtain hwork | ⟨hentry, hpush⟩ := htaken
        · exact .inl hwork
        · exact .inr ⟨m, u, t, hdispatches.work, hentry, hconsole, hpush⟩

/-- Interrupts are dispatched exactly. On any bus, a step of a processor that is not stopped enters
    the v-blank routine if and only if it accepts the interrupt once the work of the step is done
    and its time has passed. The buses store the word that an entry pushes low byte first. In a
    console no interrupt that is due is left, and no request is lost. -/
theorem interrupts_exact :
    (∀ {β : Type} [Bus β] {s t : Circuit β} {k : Nat}, s.cpu.stopped = false →
      Exec.step s = .ok k t → ∃ n u, Exec.Dispatches s t k n u) ∧
    (Bus.LowFirst FlatMemory ∧ Bus.LowFirst Observed) ∧
    ∀ {c : Console} {n : Nat}, c.Reachable → c.step.result = .ok n → c.Settles :=
  ⟨fun hs hstep => Exec.step_dispatches hstep hs, ⟨FlatMemory.lowFirst, Observed.lowFirst⟩,
    fun hc h => settles_of_step hc.wellFormed h⟩

/-- A console in which v-blank is enabled and requested before its first instruction, one that does
    nothing. -/
def alerted : Console :=
  (play [.write8 Interrupts.enableAddr 1, .write8 Interrupts.requestAddr 1]
    (new { bootImage := some #[0x00] })).1

/-- Its first step enters the routine. -/
theorem interrupts_exact_alerted :
    (∃ k t n u, Exec.step alerted.circuit = .ok k t ∧ Exec.Dispatches alerted.circuit t k n u ∧
      Exec.Accepts (Exec.elapsed n u)) ∧ alerted.Settles := by
  have hruns : Exec.EntryRuns 1 alerted.circuit := by decide +kernel
  have henters := hruns.enters
  obtain ⟨k, hstep⟩ := henters.step_eq_ok
  have hresult : alerted.step.result = .ok k := by
    rw [step_of_ok hstep]
  obtain ⟨hdispatches, -, hsettles⟩ := interrupts_exact
  obtain ⟨n, u, hdispatched⟩ := hdispatches hruns.1 hstep
  exact ⟨⟨k, _, n, u, hstep, hdispatched, hdispatched.enters_iff.mp henters⟩,
    hsettles ⟨_, _, rfl⟩ hresult⟩

end Console

end Handheld
