import Handheld.Proofs.Console.Frame
import Handheld.Proofs.Console.History
import Handheld.Proofs.Console.Interrupts
import Handheld.Proofs.Console.Program

namespace Handheld

namespace Raster

variable {r : Raster} {n : Nat}

theorem frames_le_advance (r : Raster) (n : Nat) : r.frames ≤ (r.advance n).1.frames := by
  rw [advance_frames]
  exact Nat.le_add_right _ _

/-- The frames that are counted are those that are signalled. -/
theorem frames_lt_advance_iff :
    r.frames < (r.advance n).1.frames ↔ (r.advance n).2.any (·.isFrame) = true := by
  rw [advance_frames, Nat.lt_add_right_iff_pos, framesIn_finish_pos_iff]

end Raster

namespace Board

/-- Time requests no v-blank interrupt but for a frame that it finishes. -/
theorem advance_vblank (b : Board) (n : Nat) :
    (b.advance n).1.requested.vblank.toNat + b.lcd.raster.frames ≤
      b.requested.vblank.toNat + (b.advance n).1.lcd.raster.frames := by
  have hraster : (b.advance n).1.lcd.raster = (b.lcd.raster.advance (4 * n)).1 := rfl
  have hvblank : (b.advance n).1.requested.vblank =
      (b.requested.vblank || (b.lcd.raster.advance (4 * n)).2.any (·.isFrame)) := rfl
  rw [hraster, hvblank]
  cases hframe : (b.lcd.raster.advance (4 * n)).2.any (·.isFrame) with
  | true =>
    have hlt := Raster.frames_lt_advance_iff.mpr hframe
    have hbit := Bool.toNat_le (b.requested.vblank || true)
    omega
  | false =>
    have hle := b.lcd.raster.frames_le_advance (4 * n)
    rw [Bool.or_false]
    omega

/-- A frame that time finishes is requested for. -/
theorem requested_of_frames_lt {b : Board} {n : Nat}
    (h : b.lcd.raster.frames < (b.advance n).1.lcd.raster.frames) :
    (b.advance n).1.requested.vblank = true := by
  have hsignalled : (b.lcd.raster.advance (4 * n)).2.any (·.isFrame) = true :=
    Raster.frames_lt_advance_iff.mp h
  change (b.requested.vblank || (b.lcd.raster.advance (4 * n)).2.any (·.isFrame)) = true
  rw [hsignalled, Bool.or_true]

/-- Each entry so far has a frame of its own, and so has a request that waits. An entry is given by
    the number of frames finished before it, the first entry first. -/
structure Spaced (entries : List Nat) (b : Board) : Prop where
  count : entries.length + b.requested.vblank.toNat ≤ b.lcd.raster.frames
  increasing : entries.Pairwise (· < ·)
  past : ∀ k ∈ entries, k + b.requested.vblank.toNat ≤ b.lcd.raster.frames

variable {entries : List Nat} {b t : Board}

/-- New requests may come with new frames. -/
theorem Spaced.mono (h : Spaced entries b)
    (hmore : t.requested.vblank.toNat + b.lcd.raster.frames ≤
      b.requested.vblank.toNat + t.lcd.raster.frames) : Spaced entries t where
  count := by
    have hcount := h.count
    omega
  increasing := h.increasing
  past k hk := by
    have hpast := h.past k hk
    omega

theorem Spaced.congr (h : Spaced entries b) (hrequested : t.requested = b.requested)
    (hraster : t.lcd.raster = b.lcd.raster) : Spaced entries t := by
  refine h.mono (Nat.le_of_eq ?_)
  rw [hrequested, hraster]

theorem Spaced.advance (h : Spaced entries b) (n : Nat) : Spaced entries (b.advance n).1 :=
  h.mono (b.advance_vblank n)

/-- An entry takes back the request that waits for it. -/
theorem Spaced.enter (h : Spaced entries b) (hrequested : b.requested.vblank = true)
    (htaken : t.requested.vblank = false) (hraster : t.lcd.raster = b.lcd.raster) :
    Spaced (entries ++ [b.lcd.raster.frames]) t := by
  have hcount := h.count
  have hpast := h.past
  rw [hrequested, Bool.toNat_true] at hcount hpast
  refine ⟨?_, ?_, fun k hk => ?_⟩
  · rw [htaken, hraster, List.length_append]
    exact hcount
  · refine List.pairwise_append.mpr ⟨h.increasing, List.pairwise_singleton _ _, ?_⟩
    intro k hk last hlast
    rw [List.mem_singleton.mp hlast]
    exact hpast k hk
  · rw [htaken, hraster, Bool.toNat_false, Nat.add_zero]
    obtain hold | hlast := List.mem_append.mp hk
    · exact Nat.le_of_succ_le (hpast k hold)
    · exact Nat.le_of_eq (List.mem_singleton.mp hlast)

/-- Requests and frames are as they were, or the register of requests is among what was written. -/
def Undisturbed (requested : Interrupts) (raster : Raster) (b : Board) (calls : Array BusCall) :
    Prop :=
  (b.requested = requested ∧ b.lcd.raster = raster) ∨
    ∃ v, .write Interrupts.requestAddr v ∈ calls

theorem undisturbed_logs (requested : Interrupts) (raster : Raster) :
    Logs (Undisturbed requested raster) where
  read addr h := by
    refine h.imp_right ?_
    rintro ⟨v, hmem⟩
    exact ⟨v, Array.mem_push_of_mem _ hmem⟩
  write {b t calls addr v} _ h hwrite := by
    have hchange := after_write8_change addr v b
    rw [Access.after_of_ok hwrite] at hchange
    obtain ⟨hrequested, hraster⟩ | ⟨w, hmem⟩ := h
    · obtain hkept | ⟨rfl, -⟩ := hchange.requested
      · exact .inl ⟨hkept.trans hrequested, hchange.raster.trans hraster⟩
      · exact .inr ⟨v, Array.mem_push_self⟩
    · exact .inr ⟨w, Array.mem_push_of_mem _ hmem⟩

end Board

namespace Exec

variable {s u w t : Circuit Observed} {n : Nat}

/-- Work that does not write to the register of requests leaves requests and frames alone. -/
theorem work_undisturbed (hs : s.bus.board.WellFormed)
    (hspares : ∀ v, .write Interrupts.requestAddr v ∉ workCalls s) (h : work s = .ok n u) :
    u.bus.board.requested = s.bus.board.requested ∧
      u.bus.board.lcd.raster = s.bus.board.lcd.raster := by
  have hbegin (pc : UInt16) (o : Observed) (calls : Array BusCall)
      (ho : o.board.WellFormed ∧
        o.board.Undisturbed s.bus.board.requested s.bus.board.lcd.raster calls) :
      (Bus.beginStep pc o).board.WellFormed ∧ (Bus.beginStep pc o).board.Undisturbed
        s.bus.board.requested s.bus.board.lcd.raster (calls.push (.beginStep pc)) := by
    change (o.beginStep pc).board.WellFormed ∧ (o.beginStep pc).board.Undisturbed _ _ _
    rw [Observed.board_beginStep]
    refine ⟨ho.1.beginStep pc, ho.2.imp_right ?_⟩
    rintro ⟨v, hmem⟩
    exact ⟨v, Array.mem_push_of_mem _ hmem⟩
  obtain hsame | ⟨v, hmem⟩ := (work_keeps
    (Board.undisturbed_logs _ _).stable hbegin ⟨hs, .inl ⟨rfl, rfl⟩⟩ h).2
  · exact hsame
  · exact absurd hmem (hspares v)

/-- An entry takes the request for v-blank back, and then time passes. Where the return address is
    pushed does not matter, since the acknowledgement comes after it. -/
theorem Entry.takes (h : Entry w t) :
    ∃ b : Board, t.bus.board = (b.advance Interrupts.entryCycles).1 ∧
      b.requested.vblank = false ∧ b.lcd.raster = w.bus.board.lcd.raster := by
  obtain ⟨enabled, b₁, requested, b₂, b₃, remaining, b₄, b₅, henabled, hrequested, ⟨hpush, -⟩,
    hread, hback, rfl⟩ := h
  obtain ⟨-, -, -, rfl⟩ := Observed.eq_of_reads henabled hrequested
  rw [Observed.read8_requested] at hread
  cases hread
  have hraster : b₃.board.lcd.raster = w.bus.board.lcd.raster := by
    have hstable : Bus.Stable fun o : Observed => o.board.lcd.raster = w.bus.board.lcd.raster :=
      Observed.stable (P := fun b _ => b.lcd.raster = w.bus.board.lcd.raster) fun _ addr v b hb =>
        (Board.after_write8_change addr v b).raster.trans hb
    exact (hstable.write16 _ _).of_ok rfl hpush
  have hset : Board.write8 Interrupts.requestAddr (b₃.board.requested.toByte &&& 0xFE) b₃.board =
      .ok () b₅.board := Observed.board_of_perform_eq_ok hback
  have hboard : b₅.board =
      b₃.board.setRegister .interruptRequest (b₃.board.requested.toByte &&& 0xFE) :=
    (EStateM.Result.ok.inj hset).2.symm
  refine ⟨b₅.board, rfl, ?_, ?_⟩
  · rw [hboard]
    exact Interrupts.has_ofByte_acknowledged _ .vblank
  · rw [hboard]
    exact hraster

end Exec

namespace Console

/-- The number of frames finished before the step from `c` enters the routine, if it does. The time
    that the work of the step takes has passed by then. -/
def entryFrame? (c : Console) : Option Nat :=
  match Exec.work c.circuit with
  | .ok n u =>
    if Exec.entering c.circuit then some (Exec.elapsed n u).bus.board.lcd.raster.frames else none
  | .error _ _ => none

/-- The entry that an operation makes, if any. -/
def Operation.entryFrame? (c : Console) : Operation → Option Nat
  | .step => c.entryFrame?
  | _ => none

/-- The entries that a run of operations makes, the first entry first. -/
def entries : List Operation → Console → List Nat
  | [], _ => []
  | op :: ops, c => (op.entryFrame? c).toList ++ entries ops (op.perform c).1

/-- The operation leaves the register of requests to the acknowledgement of interrupts: no write of
    the host goes there, and none of the instruction of a step. -/
def Operation.SparesRequests (c : Console) : Operation → Prop
  | .step => c.cpu.stopped = false →
      ∀ v, .write Interrupts.requestAddr v ∉ Exec.workCalls c.circuit
  | .write8 addr _ => addr ≠ Interrupts.requestAddr
  | _ => True

/-- All operations of a run do. -/
def SparesRequests : List Operation → Console → Prop
  | [], _ => True
  | op :: ops, c => op.SparesRequests c ∧ SparesRequests ops (op.perform c).1

variable {c : Console} {es : List Nat}

theorem entryFrame?_of_not_enters (h : ∀ t, ¬ Exec.Enters c.circuit t) : c.entryFrame? = none := by
  have hentering : Exec.entering c.circuit = false := by
    rw [Bool.eq_false_iff, Ne, Exec.entering_iff]
    exact not_exists.mpr h
  unfold entryFrame?
  rw [hentering]
  cases Exec.work c.circuit <;> rfl

theorem entryFrame?_of_enters {n : Nat} {u t : Circuit Observed}
    (hwork : Exec.work c.circuit = .ok n u) (h : Exec.Enters c.circuit t) :
    c.entryFrame? = some (Exec.elapsed n u).bus.board.lcd.raster.frames := by
  unfold entryFrame?
  rw [hwork]
  exact if_pos (Exec.entering_iff.mpr ⟨t, h⟩)

theorem entryFrame?_of_stopped (h : c.cpu.stopped = true) : c.entryFrame? = none :=
  entryFrame?_of_not_enters fun t henters => by
    have hrunning : c.cpu.stopped = false := henters.1
    rw [h] at hrunning
    cases hrunning

theorem entryFrame?_of_error {e : Fault} {t : Circuit Observed}
    (h : Exec.step c.circuit = .error e t) : c.entryFrame? = none :=
  entryFrame?_of_not_enters fun _ henters => by
    obtain ⟨k, hok⟩ := henters.step_eq_ok
    rw [h] at hok
    cases hok

theorem entryFrame?_of_declines {k n : Nat} {u t : Circuit Observed}
    (hstep : Exec.step c.circuit = .ok k t) (hends : Exec.Dispatches c.circuit t k n u)
    (h : ¬ Exec.Accepts (Exec.elapsed n u)) : c.entryFrame? = none :=
  entryFrame?_of_not_enters fun _ henters => by
    obtain ⟨k', hok⟩ := henters.step_eq_ok
    rw [hstep] at hok
    cases hok
    exact h (hends.enters_iff.mp henters)

/-- After its work and the time it takes, a step has done nothing but bring new frames with their
    requests. -/
theorem spaced_elapsed {n : Nat} {u : Circuit Observed} (hc : c.board.WellFormed)
    (hspares : ∀ v, .write Interrupts.requestAddr v ∉ Exec.workCalls c.circuit)
    (hwork : Exec.work c.circuit = .ok n u) (h : c.board.Spaced es) :
    (Exec.elapsed n u).bus.board.Spaced es := by
  obtain ⟨hrequested, hraster⟩ := Exec.work_undisturbed (s := c.circuit) hc hspares hwork
  exact (h.congr hrequested hraster).advance n

theorem entries_append (ops more : List Operation) (c : Console) :
    entries (ops ++ more) c = entries ops c ++ entries more (play ops c).1 := by
  induction ops generalizing c with
  | nil => rfl
  | cons op ops ih =>
    change (op.entryFrame? c).toList ++ entries (ops ++ more) (op.perform c).1 = _
    rw [ih, ← List.append_assoc]
    rfl

theorem sparesRequests_append {ops more : List Operation} (h : SparesRequests ops c)
    (hmore : SparesRequests more (play ops c).1) : SparesRequests (ops ++ more) c := by
  induction ops generalizing c with
  | nil => exact hmore
  | cons op ops ih => exact ⟨h.1, ih h.2 hmore⟩

/-- A step that succeeds ends with an entry, which takes the request back, or leaves it at that. -/
theorem spaced_of_dispatches {k n : Nat} {u t : Circuit Observed}
    (hstep : Exec.step c.circuit = .ok k t) (hends : Exec.Dispatches c.circuit t k n u)
    (h : (Exec.elapsed n u).bus.board.Spaced es) :
    t.bus.board.Spaced (es ++ c.entryFrame?.toList) := by
  by_cases haccepts : Exec.Accepts (Exec.elapsed n u)
  · obtain ⟨b, hboard, htaken, hraster⟩ := (hends.entry haccepts).2.takes
    have hrequested := ((Exec.accepts_iff _).mp haccepts).2.2.2
    rw [entryFrame?_of_enters hends.work (hends.enters_iff.mpr haccepts), hboard]
    exact (h.enter hrequested htaken hraster).advance _
  · rw [entryFrame?_of_declines hstep hends haccepts, Option.toList_none, List.append_nil,
      (hends.otherwise haccepts).2.eq]
    exact h

theorem spaced_step (hc : c.board.WellFormed) (hspares : Operation.SparesRequests c .step)
    (h : c.board.Spaced es) : c.step.console.board.Spaced (es ++ c.entryFrame?.toList) := by
  cases hstopped : c.cpu.stopped with
  | true =>
    rw [step_of_stopped hstopped, entryFrame?_of_stopped hstopped, Option.toList_none,
      List.append_nil]
    exact h
  | false =>
    cases hstep : Exec.step c.circuit with
    | error e t =>
      have herror : c.step.result = .error e := by
        rw [step_of_error hstep]
      rw [entryFrame?_of_error hstep, Option.toList_none, List.append_nil]
      obtain ⟨_, -, -, hconsole, -⟩ | ⟨n, u, _, hwork, -, hconsole, -⟩ := step_fails hc herror
      · rw [hconsole]
        exact h.congr rfl rfl
      · rw [hconsole]
        exact spaced_elapsed hc (hspares hstopped) hwork h
    | ok k t =>
      obtain ⟨n, u, hends⟩ := Exec.step_dispatches hstep hstopped
      rw [step_of_ok hstep]
      exact spaced_of_dispatches hstep hends
        (spaced_elapsed hc (hspares hstopped) hends.work h)

theorem spaced_perform (hc : c.board.WellFormed) {op : Operation} (hrestarts : ¬ op.Restarts)
    (hspares : op.SparesRequests c) (h : c.board.Spaced es) :
    (op.perform c).1.board.Spaced (es ++ (op.entryFrame? c).toList) := by
  cases op with
  | step => exact spaced_step hc hspares h
  | write8 addr v =>
    have hchange := Board.after_write8_change addr v c.board
    rw [← write8_board] at hchange
    obtain hkept | ⟨hrequests, -⟩ := hchange.requested
    · exact (List.append_nil es).symm ▸ h.congr hkept hchange.raster
    · exact absurd hrequests hspares
  | read8 addr =>
    have hboard : ((Operation.read8 addr).perform c).1.board = c.board :=
      congrArg Console.board (read8_console c addr)
    rw [hboard]
    exact (List.append_nil es).symm ▸ h
  | setButton | adjustCpu => exact (List.append_nil es).symm ▸ h.mono (Nat.le_refl _)
  | reset | load cartridge => exact absurd trivial hrestarts

theorem spaced_play {ops : List Operation} (hc : c.board.WellFormed)
    (hops : ∀ op ∈ ops, ¬ op.Restarts) (hspares : SparesRequests ops c) (h : c.board.Spaced es) :
    (c.play ops).1.board.Spaced (es ++ entries ops c) := by
  induction ops generalizing c es with
  | nil => exact (List.append_nil es).symm ▸ h
  | cons op ops ih =>
    rw [List.forall_mem_cons] at hops
    obtain ⟨hfirst, hrest⟩ := hspares
    have hrun := ih (wellFormed_perform hc op) hops.2 hrest (spaced_perform hc hops.1 hfirst h)
    rwa [List.append_assoc] at hrun

theorem Restarted.spaced (hc : c.Restarted) : c.board.Spaced [] := by
  obtain ⟨d, -, rfl⟩ := hc.eq_powerOn
  exact ⟨Nat.zero_le _, .nil, nofun⟩

/-- From a restart on, if nothing but the acknowledgement of interrupts writes to the register of
    requests, the entries so far and the request that waits are no more than the frames finished,
    and between two entries a frame is finished. -/
theorem entries_spaced {ops : List Operation} (hc : c.Restarted)
    (hops : ∀ op ∈ ops, ¬ op.Restarts) (hspares : SparesRequests ops c) :
    (entries ops c).length + ((c.play ops).1.board.requested.toByte &&& 0x01).toNat ≤
        (c.play ops).1.frames ∧
      (entries ops c).Pairwise (· < ·) ∧ ∀ k ∈ entries ops c, k ≤ (c.play ops).1.frames := by
  have h : (c.play ops).1.board.Spaced (entries ops c) :=
    spaced_play hc.reachable.wellFormed hops hspares hc.spaced
  refine ⟨?_, h.increasing, fun k hk => Nat.le_of_add_right_le (h.past k hk)⟩
  have hbit : ((c.play ops).1.board.requested.toByte &&& 0x01).toNat =
      (c.play ops).1.board.requested.vblank.toNat := by
    rw [Interrupts.toByte_and_one]
    cases (c.play ops).1.board.requested.vblank <;> rfl
  rw [hbit]
  exact h.count

/-- The processor is parked, and if a frame is finished its request waits. -/
structure Awaits (c : Console) : Prop extends c.Parked where
  frame : 0 < c.frames → c.board.requested.vblank = true

theorem Awaits.step (h : c.Awaits) : c.step.console.Awaits := by
  refine ⟨h.toParked.step.2, ?_⟩
  have hboard : c.step.console.board = (c.board.beginStep c.cpu.regs.pc |>.advance 1).1 := by
    rw [step_of_ok h.step_eq]
    change ((Observed.beginStep c.cpu.regs.pc ⟨c.board, #[]⟩).board.advance 1).1 = _
    rw [Observed.board_beginStep]
  unfold frames
  rw [hboard]
  intro hframes
  by_cases hold : 0 < c.frames
  · exact Board.advance_requested _ 1 .vblank (h.frame hold)
  · exact Board.requested_of_frames_lt (Nat.lt_of_le_of_lt (Nat.le_of_not_lt hold) hframes)

theorem Parked.entryFrame? (h : c.Parked) : c.entryFrame? = none := by
  refine entryFrame?_of_not_enters fun _ henters => ?_
  obtain ⟨-, n, u, v, hwork, -, hdispatch, -⟩ := henters
  rw [h.work] at hwork
  cases hwork
  rw [h.dispatch] at hdispatch
  cases hdispatch

/-- Nothing but time passes while the processor is parked. -/
theorem Awaits.steps (h : c.Awaits) (n : Nat) :
    (c.play (List.replicate n .step)).1.Awaits ∧ SparesRequests (List.replicate n .step) c ∧
      entries (List.replicate n .step) c = [] := by
  induction n generalizing c with
  | zero => exact ⟨h, trivial, rfl⟩
  | succ n ih =>
    obtain ⟨hlast, hspares, hentries⟩ := ih h.step
    refine ⟨hlast, ⟨fun _ => Exec.write_not_mem_workCalls h.halted _, hspares⟩, ?_⟩
    change c.entryFrame?.toList ++ entries (List.replicate n .step) c.step.console = []
    rw [h.toParked.entryFrame?, hentries]
    rfl

/-- An interrupt that is accepted is entered, unless the push meets the port of the transfer. -/
theorem dispatch_of_accepts {w : Circuit Observed} (hw : w.bus.board.WellFormed)
    (haccepts : Exec.Accepts w) (hlow : w.cpu.regs.sp - 2 ≠ 0xFF46)
    (hhigh : w.cpu.regs.sp - 2 + 1 ≠ 0xFF46) : ∃ v, Exec.dispatch w = .ok true v := by
  cases hdispatch : Exec.dispatch w with
  | ok entered v =>
    obtain rfl := (Exec.accepts_iff_of_dispatch haccepts.1 hdispatch).mp haccepts
    exact ⟨v, rfl⟩
  | error e v =>
    -- Only the push can fail, and it lands where every word can be written.
    obtain ⟨b, hpush, -⟩ :=
      Exec.pushWord_eq_error_iff.mp (Exec.pushWord_of_dispatch_eq_error hdispatch)
    obtain ⟨t, hpushed⟩ := Observed.write16_succeeds hw hlow hhigh _
    rw [hpush] at hpushed
    cases hpushed

/-- Whatever is pending, a parked processor spends one cycle, in which the board does nothing but
    let it pass. -/
theorem elapsed_of_halted {s : Circuit Observed} (hhalted : s.cpu.halted = true) :
    ∃ u, Exec.work s = .ok 1 u ∧
      (Exec.elapsed 1 u).bus.board = ((s.bus.board.beginStep s.cpu.regs.pc).advance 1).1 ∧
      (Exec.elapsed 1 u).cpu.regs = s.cpu.regs.setCost 1 ∧
      (Exec.elapsed 1 u).cpu.stopped = s.cpu.stopped := by
  rw [Exec.work_of_halted hhalted, ← Observed.board_beginStep]
  refine ⟨_, Exec.idle_eq_ok_iff.mpr ⟨_, _, Exec.pending_eq _, rfl, rfl⟩, ?_⟩
  rw [Exec.woken_eq]
  exact ⟨rfl, rfl, rfl⟩

/-- A parked processor that is woken for v-blank enters the routine. -/
theorem enters_of_halted {s : Circuit Observed} (hs : s.bus.board.WellFormed)
    (hhalted : s.cpu.halted = true) (hrunning : s.cpu.stopped = false)
    (hime : s.cpu.regs.ime = true) (henabled : s.bus.board.enabled &&& 0x01 ≠ 0)
    (hrequested : s.bus.board.requested.vblank = true) (hlow : s.cpu.regs.sp - 2 ≠ 0xFF46)
    (hhigh : s.cpu.regs.sp - 2 + 1 ≠ 0xFF46) : ∃ t, Exec.Enters s t := by
  obtain ⟨u, hwork, hboard, hregs, hstopped⟩ := elapsed_of_halted hhalted
  have haccepts : Exec.Accepts (Exec.elapsed 1 u) := by
    rw [Exec.accepts_iff, hstopped, hregs, hboard]
    exact ⟨hrunning, hime, henabled, Board.advance_requested _ 1 .vblank hrequested⟩
  have hu : (Exec.elapsed 1 u).bus.board.WellFormed := by
    rw [hboard]
    exact (hs.beginStep _).advance 1
  obtain ⟨v, hdispatch⟩ := dispatch_of_accepts hu haccepts (by rw [hregs]; exact hlow)
    (by rw [hregs]; exact hhigh)
  exact ⟨_, hrunning, 1, u, v, hwork, hstopped.trans hrunning, hdispatch, rfl⟩

/-- A processor at power-on, parked by hand. -/
def resting : Cpu :=
  { halted := true }

/-- The host enables v-blank and parks the processor, which the next step wakes. -/
def waking : List Operation :=
  [.write8 Interrupts.enableAddr 1, .adjustCpu fun _ => resting, .step]

/-- Where the request for v-blank waits, this enters the routine once. -/
theorem entries_waking (hc : c.board.WellFormed) (hrequested : c.board.requested.vblank = true) :
    SparesRequests waking c ∧ ∃ k, entries waking c = [k] := by
  have haddr : Interrupts.enableAddr ≠ Interrupts.requestAddr := by decide
  refine ⟨⟨haddr, trivial, fun _ => Exec.write_not_mem_workCalls rfl _, trivial⟩, ?_⟩
  have hwrite : Board.write8 Interrupts.enableAddr 1 c.board =
      .ok () { c.board with enabled := 1 } := rfl
  have henabled : (c.write8 Interrupts.enableAddr 1).console =
      { c with board := { c.board with enabled := 1 } } := (write8_of_board hwrite).1
  have hboard : Board.WellFormed { c.board with enabled := 1 } := { hc with }
  have hbit : (1 : UInt8) &&& 0x01 ≠ 0 := by decide
  have hsp : (0 : UInt16) - 2 ≠ 0xFF46 ∧ (0 : UInt16) - 2 + 1 ≠ 0xFF46 := by decide
  obtain ⟨t, henters⟩ := enters_of_halted
    (s := circuit { c with cpu := resting, board := { c.board with enabled := 1 } })
    hboard rfl rfl rfl hbit hrequested hsp.1 hsp.2
  obtain ⟨-, n, u, -, hwork, -⟩ := id henters
  change ∃ k,
    (entryFrame? { (c.write8 Interrupts.enableAddr 1).console with cpu := resting }).toList ++ [] =
      [k]
  rw [henabled, entryFrame?_of_enters hwork henters]
  exact ⟨_, rfl⟩

/-- The host parks the processor, lets it rest for `n` steps, and has it woken for v-blank. -/
def wakingAfter (n : Nat) : List Operation :=
  .adjustCpu (fun _ => resting) :: (List.replicate n .step ++ waking)

theorem not_restarts_of_mem_wakingAfter {n : Nat} {op : Operation} (hop : op ∈ wakingAfter n) :
    ¬ op.Restarts := by
  obtain rfl | hop := List.mem_cons.mp hop
  · exact id
  · obtain hsteps | hwaking := List.mem_append.mp hop
    · rw [List.eq_of_mem_replicate hsteps]
      exact id
    · simp only [waking, List.mem_cons, List.not_mem_nil, or_false] at hwaking
      obtain rfl | rfl | rfl := hwaking <;> exact id

theorem entries_spaced_waking :
    ∃ n, (new {}).Restarted ∧ (∀ op ∈ wakingAfter n, ¬ op.Restarts) ∧
      SparesRequests (wakingAfter n) (new {}) ∧ (entries (wakingAfter n) (new {})).length = 1 ∧
      1 ≤ ((new {}).play (wakingAfter n)).1.frames := by
  have hparked : Awaits { new {} with cpu := resting } := ⟨⟨rfl, rfl, rfl⟩, nofun⟩
  have hreachable : Reachable { new {} with cpu := resting } :=
    ⟨{}, [.adjustCpu fun _ => resting], rfl⟩
  generalize hc : { new {} with cpu := resting } = c at hparked hreachable
  -- The steps that the frame takes, after which its request waits.
  obtain ⟨_, -, _, hframe, -⟩ := stepFrame_stepsUntil hreachable
  obtain ⟨rfl, -⟩ := hframe.of_parked hparked.toParked
  have hfinished : c.frames + 1 ≤ c.stepFrame.console.frames := hframe.ends
  obtain ⟨n, hn⟩ := stepWhile_eq_play c.frames stepsPerFrame c #[]
  change c.stepFrame.console = _ at hn
  obtain ⟨hawaits, hspares, hentries⟩ := hparked.steps n
  have hwellFormed := (hreachable.play (List.replicate n .step)).wellFormed
  obtain ⟨hsparesLast, k, hentriesLast⟩ := entries_waking hwellFormed
    (hawaits.frame (Nat.lt_of_lt_of_le (Nat.succ_pos _) (hn ▸ hfinished)))
  have hops : ∀ op ∈ wakingAfter n, ¬ op.Restarts := fun _ => not_restarts_of_mem_wakingAfter
  have hsparesAll : SparesRequests (wakingAfter n) (new {}) := by
    refine ⟨trivial, ?_⟩
    change SparesRequests (List.replicate n .step ++ waking) { new {} with cpu := resting }
    rw [hc]
    exact sparesRequests_append hspares hsparesLast
  have hlength : (entries (wakingAfter n) (new {})).length = 1 := by
    change (entries (List.replicate n .step ++ waking) { new {} with cpu := resting }).length = 1
    rw [hc, entries_append, hentries, hentriesLast]
    rfl
  have hcount := (entries_spaced (.new {}) hops hsparesAll).1
  rw [hlength] at hcount
  exact ⟨n, .new {}, hops, hsparesAll, hlength, Nat.le_of_add_right_le hcount⟩

end Console

end Handheld
