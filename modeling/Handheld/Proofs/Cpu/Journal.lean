import Handheld.Memory.Flat
import Handheld.Proofs.Cpu.Transport

namespace Handheld

/-- A bus with the calls that succeeded, oldest first. A word counts as its two bytes. -/
structure Journaled (β : Type) where
  bus : β
  calls : Array BusCall := #[]

namespace Journaled

variable {α β : Type}

/-- An access that is put down as `calls` if it succeeds. -/
def noting (calls : Array BusCall) (act : Access β α) : Access (Journaled β) α := fun j =>
  match act j.bus with
  | .ok a b => .ok a ⟨b, j.calls ++ calls⟩
  | .error e b => .error e ⟨b, j.calls⟩

instance [Bus β] : Bus (Journaled β) where
  read8 addr := noting #[.read addr] (Bus.read8 addr)
  read16 addr := noting #[.read addr, .read (addr + 1)] (Bus.read16 addr)
  write8 addr v := noting #[.write addr v] (Bus.write8 addr v)
  write16 addr w :=
    noting #[.write addr (Word.lo w), .write (addr + 1) (Word.hi w)] (Bus.write16 addr w)
  beginStep pc j := ⟨Bus.beginStep pc j.bus, j.calls.push (.beginStep pc)⟩
  tick n j := ⟨Bus.tick n j.bus, j.calls.push (.tick n)⟩
  report n j := ⟨Bus.report n j.bus, j.calls⟩

theorem noting_follows (calls : Array BusCall) (act : Access β α) :
    Access.Follows Journaled.bus (noting calls act) act := by
  intro j
  unfold noting
  cases act j.bus <;> rfl

/-- Forgetting the journal leaves the bus. -/
theorem hom [Bus β] : Bus.Hom (Journaled.bus : Journaled β → β) where
  read8 _ := noting_follows _ _
  read16 _ := noting_follows _ _
  write8 _ _ := noting_follows _ _
  write16 _ _ := noting_follows _ _
  beginStep _ _ := rfl
  tick _ _ := rfl
  report _ _ := rfl

/-- What an access makes of a property of the bus and the calls so far. -/
theorem noting_preserves {P : β → Array BusCall → Prop} {act : Access β α} {calls : Array BusCall}
    (hok : ∀ b before a t, P b before → act b = .ok a t → P t (before ++ calls))
    (herror : ∀ b before e t, P b before → act b = .error e t → P t before) :
    Access.Preserves (fun j => P j.bus j.calls) (noting calls act) := by
  intro j hj
  unfold Access.after noting
  cases hact : act j.bus with
  | ok a t => exact hok j.bus j.calls a t hj hact
  | error e t => exact herror j.bus j.calls e t hj hact

end Journaled

namespace Exec

variable {β : Type} [Bus β] {s u : Circuit β} {n : Nat}

/-- The same processor, with a journal begun at its bus. -/
def journaled (s : Circuit β) : Circuit (Journaled β) :=
  ⟨s.cpu, ⟨s.bus, #[]⟩⟩

/-- The calls that the work of a step makes. -/
def workCalls (s : Circuit β) : Array BusCall :=
  (Access.after work (journaled s)).bus.calls

theorem work_journaled (h : work s = .ok n u) :
    work (journaled s) = .ok n ⟨u.cpu, ⟨u.bus, workCalls s⟩⟩ := by
  obtain ⟨j, hrun, rfl⟩ := (work_follows Journaled.hom).eq_ok (s := journaled s) h
  have hcalls : workCalls s = j.bus.calls := by
    unfold workCalls
    rw [Access.after_of_ok hrun]
  rw [hrun, hcalls]
  rfl

/-- What every access keeps of the bus and its journal holds after the work and the calls that it
    made. -/
theorem work_keeps {P : β → Array BusCall → Prop}
    (hbus : Bus.Stable fun j : Journaled β => P j.bus j.calls)
    (hbegin : ∀ pc b calls, P b calls → P (Bus.beginStep pc b) (calls.push (.beginStep pc)))
    (hs : P s.bus #[]) (h : work s = .ok n u) : P u.bus (workCalls s) := by
  have hcpu : Cpu.Stable StepChange fun _ (j : Journaled β) => P j.bus j.calls :=
    ⟨fun _ _ _ h => h, fun _ _ _ _ h => h⟩
  have hwork := work_preserves hcpu (fun _ => hbus) fun cpu j hj =>
    hbegin cpu.regs.pc j.bus j.calls hj
  exact hwork.of_ok (s := journaled s) hs (work_journaled h)

/-- A parked processor writes nothing. -/
theorem write_not_mem_workCalls (hs : s.cpu.halted = true) (addr : UInt16) (v : UInt8) :
    .write addr v ∉ workCalls s := by
  have hread {α : Type} {act : Access β α} {calls : Array BusCall}
      (hcalls : .write addr v ∉ calls) : Access.Preserves
        (fun j : Journaled β => .write addr v ∉ j.calls) (Journaled.noting calls act) := by
    refine Journaled.noting_preserves (P := fun _ calls => .write addr v ∉ calls)
      (fun _ before _ _ hbefore _ => ?_) fun _ _ _ _ hbefore _ => hbefore
    simp only [Array.mem_append, hbefore, hcalls, or_self, not_false_eq_true]
  have hidle := idle_reading.preserves (P := fun _ (j : Journaled β) => .write addr v ∉ j.calls)
    ⟨fun _ _ _ h => h, fun _ _ _ _ h => h⟩ fun _ =>
      ⟨fun _ _ h => h, fun _ => hread (by simp), fun _ => hread (by simp)⟩
  have hwork : Access.after work (journaled s) = Access.after idle (began (journaled s)) := by
    unfold Access.after
    rw [work_of_halted (s := journaled s) hs]
  unfold workCalls
  rw [hwork]
  exact hidle (began (journaled s)) (by simp [began, journaled, Bus.beginStep])

end Exec

end Handheld
