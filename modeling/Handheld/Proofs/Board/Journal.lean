import Handheld.Proofs.Board.Observed
import Handheld.Proofs.Cpu.Journal

namespace Handheld.Board

/-- The relation of a board to the calls made at it, oldest first, outlasts each byte read and each
    byte written. -/
structure Logs (R : Board → Array BusCall → Prop) : Prop where
  read : ∀ {b calls} addr, R b calls → R b (calls.push (.read addr))
  write : ∀ {b t : Board} {calls addr v}, b.WellFormed → R b calls → write8 addr v b = .ok () t →
    R t (calls.push (.write addr v))

variable {R : Board → Array BusCall → Prop}

/-- On the board, which is well-formed, the calls so far stand in the relation. -/
def Logged (R : Board → Array BusCall → Prop) (j : Journaled Observed) : Prop :=
  j.bus.board.WellFormed ∧ R j.bus.board j.calls

section Noting

variable {α : Type} {act : Access Observed α} {more : Array BusCall}

theorem noting_logged
    (hok : ∀ {o calls a t}, o.board.WellFormed → R o.board calls → act o = .ok a t →
      t.board.WellFormed ∧ R t.board (calls ++ more))
    (herror : ∀ {o e t}, o.board.WellFormed → act o = .error e t → t.board = o.board) :
    Access.Preserves (Logged R) (Journaled.noting more act) := by
  refine Journaled.noting_preserves (P := fun o calls => o.board.WellFormed ∧ R o.board calls)
    (fun o calls a t ho hact => hok ho.1 ho.2 hact) fun o calls e t ho hact => ?_
  rw [herror ho.1 hact]
  exact ho

theorem noting_read_logged (hact : ∀ b, Access.Preserves (fun o => o.board = b) act)
    (hread : ∀ {b calls}, R b calls → R b (calls ++ more)) :
    Access.Preserves (Logged R) (Journaled.noting more act) := by
  refine noting_logged (fun {o} calls a t ho hR hok => ?_) fun {o} _ _ _ herror => ?_
  · have hboard : t.board = o.board := (hact o.board).of_ok rfl hok
    rw [hboard]
    exact ⟨ho, hread hR⟩
  · exact (hact o.board).of_error rfl herror

end Noting

theorem Logs.write_byte (h : Logs R) {o t : Observed} {calls : Array BusCall} {addr : UInt16}
    {v : UInt8} (ho : o.board.WellFormed) (hR : R o.board calls)
    (hwrite : Bus.write8 addr v o = .ok () t) :
    t.board.WellFormed ∧ R t.board (calls.push (.write addr v)) := by
  have hboard : write8 addr v o.board = .ok () t.board := Observed.board_of_perform_eq_ok hwrite
  exact ⟨(write8_preserves_wellFormed addr v).of_ok ho hboard, h.write ho hR hboard⟩

/-- What outlasts single bytes outlasts every access to the bus. -/
theorem Logs.stable (h : Logs R) : Bus.Stable (Logged R) where
  report _ _ hj := hj
  read8 addr := by
    refine noting_read_logged (fun b => ?_) fun hR => h.read addr hR
    exact (Observed.readStable (P := fun b' _ => b' = b)).read8 addr
  read16 addr := by
    refine noting_read_logged (fun b => ?_) fun hR => h.read (addr + 1) (h.read addr hR)
    exact (Observed.readStable (P := fun b' _ => b' = b)).read16 addr
  write8 addr v :=
    noting_logged (fun ho hR hwrite => h.write_byte ho hR hwrite) fun _ hwrite =>
      congrArg Prod.fst (Observed.shown_of_write8_eq_error hwrite)
  write16 addr w := by
    refine noting_logged (fun ho hR hwrite => ?_) fun ho hwrite =>
      congrArg Prod.fst (Observed.shown_of_write16_eq_error ho hwrite)
    obtain ⟨_, u, hlow, hhigh⟩ := Access.bind_eq_ok_iff.mp (Observed.writeBytes_of_write16 hwrite)
    obtain ⟨hu, hR'⟩ := h.write_byte ho hR hlow
    exact h.write_byte hu hR' hhigh

end Handheld.Board
