import Handheld.Proofs.Board.ExternalRam
import Handheld.Proofs.Console.History
import Handheld.Proofs.Console.Program

namespace Handheld.Console

theorem stores_chronicles (m : Mapper) : Chronicles fun _ b past => b.Stores m past where
  read _ h := h.of_not_write (by simp)
  write _ h hwrite := h.write hwrite
  begin _ h := (h.of_not_write (by simp)).congr rfl rfl
  tick _ h := (h.of_not_write (by simp)).congr rfl rfl
  button _ _ h := h.congr rfl rfl

/-- The byte at an offset of a bank of external memory, shown or not. -/
def ramByte (c : Console) (bank o : Nat) : Except Fault UInt8 :=
  c.board.externalRam.read8 (bank * 0x2000 + o)

/-- External memory is a banked store, `past` being what was asked of the board. -/
structure StoresRam (c : Console) (past : List BusCall) : Prop where
  mapper : c.board.mapper = (Mapper.ofScheme c.scheme).after past
  ramBank_lt : c.board.mapper.ramBank < 4
  bytes : ∀ bank < 4, ∀ o < 0x2000,
    c.ramByte bank o = .ok (lastStored (.ofScheme c.scheme) bank o past)
  window : ∀ o < 0x2000, (c.read8 (windowAddr o)).result = .ok
    (if c.board.mapper.ramEnabled
      then lastStored (.ofScheme c.scheme) c.board.mapper.ramBank o past else 0xFF)
  closed : c.board.mapper.ramEnabled = false → ∀ o < 0x2000, ∀ v,
    (c.write8 (windowAddr o) v).console = c ∧ (c.write8 (windowAddr o) v).result = .ok ()
  unwritten : ∀ op : Operation, ¬ op.Restarts → ∀ o < 0x2000,
    (∀ v, .write (windowAddr o) v ∉ op.calls c) → ∀ bank < 4,
      (op.perform c).1.ramByte bank o = c.ramByte bank o
  romOnly : c.scheme = .romOnly → c.board.mapper.ramEnabled = true ∧ c.board.mapper.ramBank = 0
  mbc1 : c.scheme = .mbc1 → ∃ m, c.board.mapper = .mbc1 m ∧ m.Holds (Mapper.programWrites past)

variable {c : Console} {ops : List Operation} {past : List BusCall}

/-- What the parts of a banked store are to hold follows from the history alone. -/
theorem storesRam_of_stores (hc : c.board.WellFormed)
    (h : c.board.Stores (.ofScheme c.scheme) past) : c.StoresRam past where
  mapper := h.mapper
  ramBank_lt := hc.ramBank_lt
  bytes := h.bytes
  window o ho := by
    rw [read8_result, Board.read8_window ho, h.bytes _ hc.ramBank_lt o ho]
    cases c.board.mapper.ramEnabled <;> rfl
  closed hclosed o ho v := write8_of_board (Board.write8_window_closed ho hclosed v)
  unwritten op hop o ho hunwritten bank hbank := by
    have hafter : (op.perform c).1.board.Stores (.ofScheme c.scheme) (op.calls c ++ past) :=
      (stores_chronicles _).perform hop (op.adjustsBy_of_forall fun _ _ _ _ h => h) hc h
    rw [ramByte, ramByte, h.bytes bank hbank o ho, hafter.bytes bank hbank o ho,
      lastStored_append hunwritten]
  romOnly hscheme := by
    have hmapper := h.mapper
    rw [hscheme, Mapper.ofScheme, Mapper.after_romOnly] at hmapper
    rw [hmapper]
    exact ⟨rfl, rfl⟩
  mbc1 hscheme := by
    rw [h.mapper, hscheme]
    exact Mapper.after_mbc1 past

theorem Restarted.stores (hc : c.Restarted) : c.board.Stores (.ofScheme c.scheme) [] := by
  obtain ⟨d, hd, rfl⟩ := hc.eq_powerOn
  exact .reset hd d.scheme

theorem scheme_play (hops : ∀ op ∈ ops, ¬ op.Restarts) : (c.play ops).1.scheme = c.scheme := by
  have hloads : ∀ op ∈ ops, ¬ op.Loads := fun op hop =>
    Operation.not_loads_of_not_restarts (hops op hop)
  unfold scheme
  rw [play_cartridge_of_not_loads hloads]

/-- From a restart on, external memory holds in each bank what was written there last while the gate
    was open and the bank was shown, and the window shows the selected bank. -/
theorem externalRam_stores (hc : c.Restarted) (hops : ∀ op ∈ ops, ¬ op.Restarts) :
    (c.play ops).1.StoresRam (history ops c) := by
  have hkept : ∀ op ∈ ops, ¬ op.Restarts ∧ op.AdjustsBy fun f =>
      ∀ (cpu : Cpu) b past, Board.Stores (.ofScheme c.scheme) b past →
        Board.Stores (.ofScheme c.scheme) b past :=
    fun op hop => ⟨hops op hop, op.adjustsBy_of_forall fun _ _ _ _ h => h⟩
  have hstores := (stores_chronicles _).play hkept hc.reachable.wellFormed hc.stores
  rw [List.append_nil, ← scheme_play hops] at hstores
  exact storesRam_of_stores (hc.reachable.play ops).wellFormed hstores

/-- Bank 2 is written while it is shown, then again behind a closed gate. Bank 0 is shown last. -/
def banking : List (UInt16 × UInt8) :=
  [(0x0000, 0x0A), (0x6000, 1), (0x4000, 2), (windowAddr 0x10, 0x77), (0x0000, 0),
    (windowAddr 0x10, 0x55), (0x4000, 0), (0x0000, 0x0A)]

/-- The host writes these bytes. -/
def bankingOps : List Operation :=
  banking.map fun w => .write8 w.1 w.2

/-- A console into which a cartridge with a bank controller was just put. -/
def loaded : Console :=
  (Operation.perform (.load twoBanks) (new {})).1

theorem externalRam_stores_banking :
    loaded.Restarted ∧ (∀ op ∈ bankingOps, ¬ op.Restarts) ∧
      (loaded.play bankingOps).1.StoresRam (history bankingOps loaded) ∧
      lastStored (.ofScheme .mbc1) 2 0x10 (history bankingOps loaded) = 0x77 ∧
      lastStored (.ofScheme .mbc1) 0 0x10 (history bankingOps loaded) = 0x00 := by
  have hloaded : loaded.Restarted := .perform ⟨{}, [], rfl⟩ trivial
  have hops : ∀ op ∈ bankingOps, ¬ op.Restarts := by
    simp [bankingOps, banking, Operation.Restarts]
  have hplain : ∀ w ∈ banking, w.1 ≠ 0xFF46 := by
    simp [banking, windowAddr]
  have hhistory : history bankingOps loaded = (banking.map fun w => .write w.1 w.2).reverse :=
    history_writes hloaded.reachable.wellFormed hplain
  refine ⟨hloaded, hops, externalRam_stores hloaded hops, ?_⟩
  rw [hhistory]
  decide +kernel

end Handheld.Console
