import Handheld.Proofs.Cpu.Orderly

namespace Handheld

/-- A property of the bus that reads and reports do not destroy. -/
structure Bus.ReadStable {β : Type} [Bus β] (P : β → Prop) : Prop where
  report : ∀ n b, P b → P (Bus.report n b)
  read8 : ∀ addr, Access.Preserves P (Bus.read8 addr)
  read16 : ∀ addr, Access.Preserves P (Bus.read16 addr)

/-- A property of the bus that no access to it destroys. -/
structure Bus.Stable {β : Type} [Bus β] (P : β → Prop) : Prop extends Bus.ReadStable P where
  write8 : ∀ addr v, Access.Preserves P (Bus.write8 addr v)
  write16 : ∀ addr w, Access.Preserves P (Bus.write16 addr w)

/-- What does not depend on the bus is not destroyed there. -/
theorem Bus.stable_const {β : Type} [Bus β] (p : Prop) : Bus.Stable fun _ : β => p where
  report _ _ h := h
  read8 _ _ h := h
  read16 _ _ h := h
  write8 _ _ _ h := h
  write16 _ _ _ h := h

/-- A property of processor and bus that outlasts changes of registers and changes of `K`. -/
structure Cpu.Stable {β : Type} (K : (Cpu → Cpu) → Prop) (P : Cpu → β → Prop) : Prop where
  regs : ∀ cpu b (f : Registers → Registers), P cpu b → P { cpu with regs := f cpu.regs } b
  change : ∀ cpu b f, K f → P cpu b → P (f cpu) b

namespace Exec

section Accesses

variable {α β : Type} {P : Cpu → β → Prop} {s t : Circuit β} {e : Fault}

/-- An access to the bus keeps what the bus keeps. -/
theorem onBus_preserves {access : Access β α} (h : ∀ cpu, Access.Preserves (P cpu) access) :
    Access.Preserves (fun s : Circuit β => P s.cpu s.bus) (onBus access) := by
  intro s hs
  rw [onBus, Access.after_zoom]
  exact h s.cpu s.bus hs

theorem onBus_eq_ok_iff {access : Access β α} {a : α} :
    onBus access s = .ok a t ↔ ∃ b, access s.bus = .ok a b ∧ t = { s with bus := b } :=
  Access.zoom_eq_ok_iff

theorem onBus_eq_error_iff {access : Access β α} :
    onBus access s = .error e t ↔ ∃ b, access s.bus = .error e b ∧ t = { s with bus := b } :=
  Access.zoom_eq_error_iff

end Accesses

variable {α β : Type} [Bus β] {K : (Cpu → Cpu) → Prop} {P : Cpu → β → Prop} {act : Exec β α}

theorem Local.preserves (hcpu : Cpu.Stable K P) (hbus : ∀ cpu, Bus.ReadStable (P cpu))
    (h : Local K act) : Access.Preserves (fun s => P s.cpu s.bus) act := by
  induction h with
  | pure | cpu | regs => exact fun s hs => hs
  | modifyRegs f => exact fun s hs => hcpu.regs s.cpu s.bus f hs
  | modifyCpu hf => exact fun s hs => hcpu.change s.cpu s.bus _ hf hs
  | report n => exact fun s hs => (hbus s.cpu).report n s.bus hs
  | bind _ _ ihx ihf => exact ihx.bind ihf

theorem Reading.preserves (hcpu : Cpu.Stable K P) (hbus : ∀ cpu, Bus.ReadStable (P cpu))
    (h : Reading K act) : Access.Preserves (fun s => P s.cpu s.bus) act := by
  induction h with
  | ofLocal h => exact h.preserves hcpu hbus
  | throw => exact fun s hs => hs
  | read8 addr => exact onBus_preserves fun cpu => (hbus cpu).read8 addr
  | read16 addr => exact onBus_preserves fun cpu => (hbus cpu).read16 addr
  | bind _ _ ihx ihf => exact ihx.bind ihf

/-- What single accesses keep, a whole instruction keeps. -/
theorem Orderly.preserves (hcpu : Cpu.Stable K P) (hbus : ∀ cpu, Bus.Stable (P cpu))
    (h : Orderly K act) : Access.Preserves (fun s => P s.cpu s.bus) act := by
  have hread cpu := (hbus cpu).toReadStable
  induction h with
  | ofReading h => exact h.preserves hcpu hread
  | write8 addr v => exact onBus_preserves fun cpu => (hbus cpu).write8 addr v
  | write16 addr w => exact onBus_preserves fun cpu => (hbus cpu).write16 addr w
  | before hx _ ihf => exact (hx.preserves hcpu hread).bind ihf
  | after _ hf ihx => exact ihx.bind fun a => (hf a).preserves hcpu hread

theorem Local.succeeds (h : Local K act) (s : Circuit β) : ∃ a t, act s = .ok a t := by
  induction h generalizing s with
  | pure | cpu | regs | modifyRegs | modifyCpu | report => exact ⟨_, _, rfl⟩
  | bind _ _ ihx ihf =>
    obtain ⟨a, u, hxs⟩ := ihx s
    obtain ⟨b, t, hfu⟩ := ihf a u
    exact ⟨b, t, Access.bind_eq_ok_iff.mpr ⟨a, u, hxs, hfu⟩⟩

end Exec

/-- What `view` shows of a bus is the same after a read and after a refused write, as long as it
    shows a state with the property `P`. -/
structure Bus.RefusesWhole {β ν : Type} [Bus β] (view : β → ν) (P : ν → Prop) : Prop where
  reads : ∀ v, Bus.ReadStable fun b => view b = v
  write8 : ∀ {addr v b e t}, P (view b) → Bus.write8 addr v b = .error e t → view t = view b
  write16 : ∀ {addr w b e t}, P (view b) → Bus.write16 addr w b = .error e t → view t = view b

namespace Exec

variable {α β ν : Type} [Bus β] {K : (Cpu → Cpu) → Prop} {view : β → ν} {P : ν → Prop}
  {act : Exec β α} {s t : Circuit β} {e : Fault}

theorem Reading.view_after (hbus : Bus.RefusesWhole view P) (h : Reading K act) (s : Circuit β) :
    view (Access.after act s).bus = view s.bus :=
  h.preserves (P := fun _ b => view b = view s.bus) ⟨fun _ _ _ hb => hb, fun _ _ _ _ hb => hb⟩
    (fun _ => hbus.reads _) s rfl

/-- An instruction that fails leaves the bus as it was. -/
theorem Orderly.view_of_error (hbus : Bus.RefusesWhole view P) (h : Orderly K act)
    (hs : P (view s.bus)) (hact : act s = .error e t) : view t.bus = view s.bus := by
  induction h generalizing s with
  | ofReading h => rw [← Access.after_of_error hact, h.view_after hbus]
  | write8 addr v =>
    obtain ⟨b, hb, rfl⟩ := onBus_eq_error_iff.mp hact
    exact hbus.write8 hs hb
  | write16 addr w =>
    obtain ⟨b, hb, rfl⟩ := onBus_eq_error_iff.mp hact
    exact hbus.write16 hs hb
  | before hx _ ihf =>
    have hview := hx.view_after hbus s
    obtain hxs | ⟨a, u, hxs, hfu⟩ := Access.bind_eq_error_iff.mp hact
    · rw [← Access.after_of_error hxs, hview]
    · rw [Access.after_of_ok hxs] at hview
      rw [ihf a (hview ▸ hs) hfu, hview]
  | after _ hf ihx =>
    obtain hxs | ⟨a, u, _, hfu⟩ := Access.bind_eq_error_iff.mp hact
    · exact ihx hs hxs
    · obtain ⟨b, v, hok⟩ := (hf a).succeeds u
      rw [hok] at hfu
      cases hfu

end Exec

/-- Accesses lead from where `I` holds to where `I` holds, or, if refused, to where `E` does. -/
structure Bus.Maintained {β : Type} [Bus β] (I : β → Prop) (E : Fault → β → Prop) : Prop where
  report : ∀ n b, I b → I (Bus.report n b)
  read8 : ∀ addr, Access.Maintains I E (Bus.read8 addr)
  read16 : ∀ addr, Access.Maintains I E (Bus.read16 addr)
  write8 : ∀ addr v, Access.Maintains I E (Bus.write8 addr v)
  write16 : ∀ addr w, Access.Maintains I E (Bus.write16 addr w)
  undefined : ∀ opcode addr b, I b → E (.illegalOpcode opcode addr) b

namespace Exec

variable {α β : Type} [Bus β] {K : (Cpu → Cpu) → Prop} {I : β → Prop} {E : Fault → β → Prop}
  {act : Exec β α}

/-- The operation maintains `I` and `E` on the bus. -/
abbrev Maintains (I : β → Prop) (E : Fault → β → Prop) (act : Exec β α) : Prop :=
  Access.Maintains (fun s => I s.bus) (fun e s => E e s.bus) act

omit [Bus β] in
theorem onBus_maintains {access : Access β α} (h : Access.Maintains I E access) :
    Maintains I E (onBus access) := by
  intro s hs
  obtain ⟨hok, herror⟩ := h s.bus hs
  refine ⟨fun a t hact => ?_, fun e t hact => ?_⟩
  · obtain ⟨b, hb, rfl⟩ := onBus_eq_ok_iff.mp hact
    exact hok a b hb
  · obtain ⟨b, hb, rfl⟩ := onBus_eq_error_iff.mp hact
    exact herror e b hb

theorem Local.maintains (hbus : Bus.Maintained I E) (h : Local K act) : Maintains I E act := by
  induction h with
  | pure | cpu | regs | modifyRegs | modifyCpu =>
    intro s hs
    refine ⟨fun a t hact => ?_, fun e t hact => ?_⟩ <;> cases hact
    exact hs
  | report n =>
    intro s hs
    refine ⟨fun a t hact => ?_, fun e t hact => ?_⟩ <;> cases hact
    exact hbus.report n s.bus hs
  | bind _ _ ihx ihf => exact ihx.bind ihf

theorem Reading.maintains (hbus : Bus.Maintained I E) (h : Reading K act) :
    Maintains I E act := by
  induction h with
  | ofLocal h => exact h.maintains hbus
  | throw opcode addr =>
    intro s hs
    refine ⟨fun a t hact => ?_, fun e t hact => ?_⟩ <;> cases hact
    exact hbus.undefined opcode addr s.bus hs
  | read8 addr => exact onBus_maintains (hbus.read8 addr)
  | read16 addr => exact onBus_maintains (hbus.read16 addr)
  | bind _ _ ihx ihf => exact ihx.bind ihf

/-- What single accesses maintain, a whole instruction maintains. -/
theorem Orderly.maintains (hbus : Bus.Maintained I E) (h : Orderly K act) :
    Maintains I E act := by
  induction h with
  | ofReading h => exact h.maintains hbus
  | write8 addr v => exact onBus_maintains (hbus.write8 addr v)
  | write16 addr w => exact onBus_maintains (hbus.write16 addr w)
  | before hx _ ihf => exact (hx.maintains hbus).bind ihf
  | after _ hf ihx => exact ihx.bind fun a => (hf a).maintains hbus

end Exec

/-- A property of the bus that no access destroys and under which none is refused. -/
structure Bus.Obliging {β : Type} [Bus β] (P : β → Prop) : Prop extends Bus.Stable P where
  read8_succeeds : ∀ addr b, P b → ∃ v t, Bus.read8 addr b = .ok v t
  read16_succeeds : ∀ addr b, P b → ∃ w t, Bus.read16 addr b = .ok w t
  write8_succeeds : ∀ addr v b, P b → ∃ t, Bus.write8 addr v b = .ok () t
  write16_succeeds : ∀ addr w b, P b → ∃ t, Bus.write16 addr w b = .ok () t

theorem Bus.Obliging.maintained {β : Type} [Bus β] {P : β → Prop} (h : Bus.Obliging P) :
    Bus.Maintained P fun e _ => ∃ opcode addr, e = .illegalOpcode opcode addr := by
  have hnever {α : Type} {access : Access β α} (hkeep : Access.Preserves P access)
      (hgrant : ∀ b, P b → ∃ a t, access b = .ok a t) :
      Access.Maintains P (fun e _ => ∃ opcode addr, e = .illegalOpcode opcode addr) access := by
    intro b hb
    refine ⟨fun a t hact => hkeep.of_ok hb hact, fun e t hact => ?_⟩
    obtain ⟨a, u, hok⟩ := hgrant b hb
    rw [hok] at hact
    cases hact
  exact {
    report := h.report
    read8 := fun addr => hnever (h.read8 addr) (h.read8_succeeds addr)
    read16 := fun addr => hnever (h.read16 addr) (h.read16_succeeds addr)
    write8 := fun addr v => hnever (h.write8 addr v) fun b hb =>
      ⟨(), h.write8_succeeds addr v b hb⟩
    write16 := fun addr w => hnever (h.write16 addr w) fun b hb =>
      ⟨(), h.write16_succeeds addr w b hb⟩
    undefined := fun opcode addr _ _ => ⟨opcode, addr, rfl⟩ }

/-- Where no access is refused, an instruction fails only for its opcode. -/
theorem Exec.Orderly.fault {α β : Type} [Bus β] {K : (Cpu → Cpu) → Prop} {P : β → Prop}
    {act : Exec β α} {s t : Circuit β} {e : Fault} (hbus : Bus.Obliging P) (h : Orderly K act)
    (hs : P s.bus) (hact : act s = .error e t) : ∃ opcode addr, e = .illegalOpcode opcode addr :=
  (h.maintains hbus.maintained s hs).2 e t hact

end Handheld
