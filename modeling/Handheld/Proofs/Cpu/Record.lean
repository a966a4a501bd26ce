import Handheld.Proofs.Cpu.Transport

namespace Handheld

/-- An access that a processor asks its bus for. -/
inductive Request
  | read8 (addr : UInt16)
  | read16 (addr : UInt16)
  | write8 (addr : UInt16) (v : UInt8)
  | write16 (addr w : UInt16)
  deriving DecidableEq, Repr, Inhabited

/-- What passes between a processor and its bus. -/
inductive Exchange
  | beginStep (pc : UInt16)
  | granted (r : Request)
  | refused (r : Request)
  | tick (cycles : Nat)
  deriving DecidableEq, Repr, Inhabited

/-- A bus with what passed between it and the processor, oldest first. -/
structure Recorded (β : Type) where
  bus : β
  record : List Exchange := []

namespace Recorded

variable {α β : Type} {j k : Recorded β} {r : Request} {act : Access β α} {e : Fault}

/-- An access that is recorded as the answer to a request. -/
def asking (r : Request) (act : Access β α) : Access (Recorded β) α := fun j =>
  match act j.bus with
  | .ok a b => .ok a ⟨b, j.record ++ [.granted r]⟩
  | .error e b => .error e ⟨b, j.record ++ [.refused r]⟩

instance [Bus β] : Bus (Recorded β) where
  read8 addr := asking (.read8 addr) (Bus.read8 addr)
  read16 addr := asking (.read16 addr) (Bus.read16 addr)
  write8 addr v := asking (.write8 addr v) (Bus.write8 addr v)
  write16 addr w := asking (.write16 addr w) (Bus.write16 addr w)
  beginStep pc j := ⟨Bus.beginStep pc j.bus, j.record ++ [.beginStep pc]⟩
  tick n j := ⟨Bus.tick n j.bus, j.record ++ [.tick n]⟩
  report n j := ⟨Bus.report n j.bus, j.record⟩

theorem asking_follows (r : Request) (act : Access β α) :
    Access.Follows Recorded.bus (asking r act) act := by
  intro j
  unfold asking
  cases act j.bus <;> rfl

/-- Forgetting the record leaves the bus. -/
theorem hom [Bus β] : Bus.Hom (Recorded.bus : Recorded β → β) where
  read8 _ := asking_follows _ _
  read16 _ := asking_follows _ _
  write8 _ _ := asking_follows _ _
  write16 _ _ := asking_follows _ _
  beginStep _ _ := rfl
  tick _ _ := rfl
  report _ _ := rfl

theorem record_of_asking_eq_ok {a : α} (h : asking r act j = .ok a k) :
    k.record = j.record ++ [.granted r] := by
  unfold asking at h
  cases hact : act j.bus <;> rw [hact] at h <;> cases h
  rfl

theorem record_of_asking_eq_error (h : asking r act j = .error e k) :
    k.record = j.record ++ [.refused r] := by
  unfold asking at h
  cases hact : act j.bus <;> rw [hact] at h <;> cases h
  rfl

/-- Since `start` nothing has passed but accesses that were granted. -/
def Grants (start : List Exchange) (j : Recorded β) : Prop :=
  ∃ rs : List Request, j.record = start ++ rs.map .granted

/-- Since `start` all accesses were granted until one was refused or an opcode was undefined. -/
def Refuses (start : List Exchange) (e : Fault) (j : Recorded β) : Prop :=
  (j.Grants start ∧ ∃ opcode addr, e = .illegalOpcode opcode addr) ∨
  ∃ (rs : List Request) (r : Request), j.record = start ++ rs.map .granted ++ [.refused r]

theorem asking_maintains (start : List Exchange) (r : Request) (act : Access β α) :
    Access.Maintains (Grants start) (Refuses start) (asking r act) := by
  rintro j ⟨rs, hj⟩
  refine ⟨fun a k hok => ⟨rs ++ [r], ?_⟩, fun e k herror => .inr ⟨rs, r, ?_⟩⟩
  · rw [record_of_asking_eq_ok hok, hj, List.map_append, List.append_assoc]
    rfl
  · rw [record_of_asking_eq_error herror, hj]

theorem maintained [Bus β] (start : List Exchange) :
    Bus.Maintained (Grants start) (Refuses start : Fault → Recorded β → Prop) where
  report _ _ h := h
  read8 _ := asking_maintains start _ _
  read16 _ := asking_maintains start _ _
  write8 _ _ := asking_maintains start _ _
  write16 _ _ := asking_maintains start _ _
  undefined opcode addr _ h := .inl ⟨h, opcode, addr, rfl⟩

end Recorded

namespace Exec

/-- The accesses by which it is found out what is pending. -/
def pendingRequests : List Request :=
  [.read8 Interrupts.enableAddr, .read8 Interrupts.requestAddr]

/-- The accesses by which the v-blank routine is entered: the return address is pushed, and the
    request register is read and written back without its first bit. -/
def entryRequests (regs : Registers) (requested : UInt8) : List Request :=
  [.write16 (regs.sp - 2) regs.pc, .read8 Interrupts.requestAddr,
    .write8 Interrupts.requestAddr (requested &&& 0xFE)]

variable {β : Type} [Bus β] {s t : Circuit (Recorded β)} {e : Fault} {n : Nat}

theorem began_grants (s : Circuit (Recorded β)) :
    (began s).bus.Grants (s.bus.record ++ [.beginStep s.cpu.regs.pc]) :=
  ⟨[], (List.append_nil _).symm⟩

/-- Work that succeeds has been granted all it asked for. -/
theorem grants_of_work_eq_ok (h : work s = .ok n t) :
    t.bus.Grants (s.bus.record ++ [.beginStep s.cpu.regs.pc]) :=
  ((work_orderly s.cpu.halted).maintains (Recorded.maintained _) _ (began_grants s)).1 n t h

theorem refuses_of_work_eq_error (h : work s = .error e t) :
    t.bus.Refuses (s.bus.record ++ [.beginStep s.cpu.regs.pc]) e :=
  ((work_orderly s.cpu.halted).maintains (Recorded.maintained _) _ (began_grants s)).2 e t h

theorem record_of_pending_eq_ok {sources : Interrupts} (h : pending s = .ok sources t) :
    t.cpu = s.cpu ∧ t.bus.record = s.bus.record ++ pendingRequests.map .granted := by
  obtain ⟨enabled, b, requested, b', henabled, hrequested, -, rfl⟩ := pending_eq_ok_iff.mp h
  refine ⟨rfl, ?_⟩
  rw [Recorded.record_of_asking_eq_ok hrequested, Recorded.record_of_asking_eq_ok henabled,
    List.append_assoc]
  rfl

theorem record_of_enterRoutine_eq_ok (h : enterRoutine s = .ok () t) :
    t.cpu = Cpu.enterInterrupt
      { s.cpu with regs := { s.cpu.regs with sp := s.cpu.regs.sp - 2 } } ∧ ∃ requested,
      t.bus.record = s.bus.record ++ (entryRequests s.cpu.regs requested).map .granted := by
  obtain ⟨u, v, hpush, hacknowledge, rfl⟩ := enterRoutine_eq_ok_iff.mp h
  obtain ⟨b, hwrite, rfl⟩ := pushWord_eq_ok_iff.mp hpush
  obtain ⟨requested, b', b'', hread, hback, rfl⟩ := acknowledge_eq_ok_iff.mp hacknowledge
  refine ⟨rfl, requested, ?_⟩
  change b''.record = _
  rw [Recorded.record_of_asking_eq_ok hback, Recorded.record_of_asking_eq_ok hread,
    Recorded.record_of_asking_eq_ok hwrite]
  simp only [List.append_assoc]
  rfl

/-- An entry that fails was refused one of its accesses, after all those before it were granted. -/
theorem record_of_enterRoutine_eq_error (h : enterRoutine s = .error e t) :
    (t.cpu.clock = s.cpu.clock ∧ t.cpu.clockCycles = s.cpu.clockCycles) ∧ ∃ requested asked r,
      asked ++ [r] <+: entryRequests s.cpu.regs requested ∧
      t.bus.record = s.bus.record ++ asked.map .granted ++ [.refused r] := by
  obtain hpush | ⟨u, hpush, hacknowledge⟩ := enterRoutine_eq_error_iff.mp h
  · obtain ⟨b, hwrite, rfl⟩ := pushWord_eq_error_iff.mp hpush
    refine ⟨⟨rfl, rfl⟩, 0, [], .write16 (s.cpu.regs.sp - 2) s.cpu.regs.pc, ⟨_, rfl⟩, ?_⟩
    rw [Recorded.record_of_asking_eq_error hwrite, List.map_nil, List.append_nil]
  · obtain ⟨b, hwrite, rfl⟩ := pushWord_eq_ok_iff.mp hpush
    obtain ⟨b', hread, rfl⟩ | ⟨requested, b', b'', hread, hback, rfl⟩ :=
      acknowledge_eq_error_iff.mp hacknowledge
    · refine ⟨⟨rfl, rfl⟩, 0, [.write16 (s.cpu.regs.sp - 2) s.cpu.regs.pc],
        .read8 Interrupts.requestAddr, ⟨_, rfl⟩, ?_⟩
      rw [Recorded.record_of_asking_eq_error hread, Recorded.record_of_asking_eq_ok hwrite]
      rfl
    · refine ⟨⟨rfl, rfl⟩, requested,
        [.write16 (s.cpu.regs.sp - 2) s.cpu.regs.pc, .read8 Interrupts.requestAddr],
        .write8 Interrupts.requestAddr (requested &&& 0xFE), ⟨[], rfl⟩, ?_⟩
      rw [Recorded.record_of_asking_eq_error hback, Recorded.record_of_asking_eq_ok hread,
        Recorded.record_of_asking_eq_ok hwrite]
      simp only [List.append_assoc]
      rfl

theorem record_of_dispatch_eq_ok_false (h : dispatch s = .ok false t) :
    t.cpu = s.cpu ∧ ∃ asked ∈ [[], pendingRequests],
      t.bus.record = s.bus.record ++ asked.map .granted := by
  obtain ⟨-, rfl⟩ | ⟨-, sources, hpending, -⟩ := dispatch_eq_ok_false_iff.mp h
  · exact ⟨rfl, [], by simp, (List.append_nil _).symm⟩
  · obtain ⟨hcpu, hrecord⟩ := record_of_pending_eq_ok hpending
    exact ⟨hcpu, pendingRequests, by simp, hrecord⟩

theorem record_of_dispatch_eq_ok_true (h : dispatch s = .ok true t) :
    t.cpu = Cpu.enterInterrupt
      { s.cpu with regs := { s.cpu.regs with sp := s.cpu.regs.sp - 2 } } ∧ ∃ requested,
      t.bus.record =
        s.bus.record ++ (pendingRequests ++ entryRequests s.cpu.regs requested).map .granted := by
  obtain ⟨-, sources, u, hpending, -, henter⟩ := dispatch_eq_ok_true_iff.mp h
  obtain ⟨hcpu, hrecord⟩ := record_of_pending_eq_ok hpending
  obtain ⟨hentered, requested, hentry⟩ := record_of_enterRoutine_eq_ok henter
  rw [hcpu] at hentered hentry
  refine ⟨hentered, requested, ?_⟩
  rw [hentry, hrecord, List.map_append, List.append_assoc]

theorem record_of_dispatch_eq_error (h : dispatch s = .error e t) :
    (t.cpu.clock = s.cpu.clock ∧ t.cpu.clockCycles = s.cpu.clockCycles) ∧ ∃ requested asked r,
      asked ++ [r] <+: pendingRequests ++ entryRequests s.cpu.regs requested ∧
      t.bus.record = s.bus.record ++ asked.map .granted ++ [.refused r] := by
  obtain ⟨-, hpending | ⟨sources, u, hpending, -, henter⟩⟩ := dispatch_eq_error_iff.mp h
  · obtain ⟨b, henabled, rfl⟩ | ⟨enabled, b, b', henabled, hrequested, rfl⟩ :=
      pending_eq_error_iff.mp hpending
    · refine ⟨⟨rfl, rfl⟩, 0, [], .read8 Interrupts.enableAddr, ⟨_, rfl⟩, ?_⟩
      rw [Recorded.record_of_asking_eq_error henabled, List.map_nil, List.append_nil]
    · refine ⟨⟨rfl, rfl⟩, 0, [.read8 Interrupts.enableAddr], .read8 Interrupts.requestAddr,
        ⟨_, rfl⟩, ?_⟩
      rw [Recorded.record_of_asking_eq_error hrequested, Recorded.record_of_asking_eq_ok henabled]
      rfl
  · obtain ⟨hcpu, hrecord⟩ := record_of_pending_eq_ok hpending
    obtain ⟨hcounters, requested, asked, r, hprefix, hentry⟩ :=
      record_of_enterRoutine_eq_error henter
    rw [hcpu] at hcounters hprefix
    refine ⟨hcounters, requested, pendingRequests ++ asked, r, ?_, ?_⟩
    · rw [List.append_assoc]
      exact (List.prefix_append_right_inj pendingRequests).mpr hprefix
    · rw [hentry, hrecord, List.map_append]
      simp only [List.append_assoc]

end Exec

end Handheld
