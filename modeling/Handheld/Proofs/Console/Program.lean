import Handheld.Proofs.Board.Cartridge
import Handheld.Proofs.Console.FailedStep

namespace Handheld

namespace Observed

variable {cart : Cartridge}

/-- On a board that carries a complete program no access is refused. -/
theorem obliging (hcomplete : cart.Complete) :
    Bus.Obliging fun o : Observed => o.board.Carries cart := by
  have hstable : Bus.Stable fun o : Observed => o.board.Carries cart :=
    stable (P := fun b _ => b.Carries cart) fun _ => Board.write8_preserves_carries cart
  have hread (addr : UInt16) (o : Observed) (ho : o.board.Carries cart) :
      ∃ v, Bus.read8 addr o = .ok v o := by
    obtain ⟨v, hv⟩ := ho.read8_succeeds hcomplete addr
    exact ⟨v, read8_of_ok hv⟩
  have hwrite (addr : UInt16) (v : UInt8) (o : Observed) (ho : o.board.Carries cart) :
      ∃ t, Bus.write8 addr v o = .ok () t := by
    obtain ⟨b, hb⟩ := ho.wellFormed.write8_eq_ok (ho.checkWrite_succeeds hcomplete addr v)
    exact write8_of_ok hb
  refine { hstable with
    read8_succeeds := fun addr o ho => ?_
    read16_succeeds := fun addr o ho => ?_
    write8_succeeds := hwrite
    write16_succeeds := fun addr w o ho => ?_ }
  · obtain ⟨v, hv⟩ := hread addr o ho
    exact ⟨v, o, hv⟩
  · obtain ⟨lo, hlo⟩ := hread addr o ho
    obtain ⟨hi, hhi⟩ := hread (addr + 1) o ho
    exact ⟨_, _, Access.bind_eq_ok_iff.mpr ⟨lo, o, hlo,
      Access.bind_eq_ok_iff.mpr ⟨hi, o, hhi, rfl⟩⟩⟩
  · obtain ⟨t, hlow⟩ := hwrite addr (Word.lo w) o ho
    have ht : t.board.Carries cart := (hstable.write8 addr (Word.lo w)).of_ok ho hlow
    obtain ⟨u, hhigh⟩ := hwrite (addr + 1) (Word.hi w) t ht
    rw [write16_of_check_ok (ho.checkWrite_succeeds hcomplete _ _)]
    exact ⟨u, Access.bind_eq_ok_iff.mpr ⟨(), t, hlow, hhigh⟩⟩

end Observed

namespace Console

variable {c : Console} {cart : Cartridge} {addr : UInt16} {v : UInt8} {e : Fault}

section OnBus

variable {α : Type} {access : Access Observed α} {o : Observed}

theorem exec_onBus_of_ok {a : α} (h : access ⟨c.board, #[]⟩ = .ok a o) :
    c.exec (Exec.onBus access) = ⟨{ c with board := o.board }, .ok a, o.events⟩ :=
  exec_of_ok (Exec.onBus_eq_ok_iff.mpr ⟨o, h, rfl⟩)

theorem exec_onBus_of_error (h : access ⟨c.board, #[]⟩ = .error e o) :
    c.exec (Exec.onBus access) = ⟨{ c with board := o.board }, .error e, o.events⟩ :=
  exec_of_error (Exec.onBus_eq_error_iff.mpr ⟨o, h, rfl⟩)

end OnBus

theorem read8_result (c : Console) (addr : UInt16) :
    (c.read8 addr).result = c.board.read8 addr := by
  cases hread : c.board.read8 addr with
  | ok v => exact congrArg Reply.result (exec_onBus_of_ok (Observed.read8_of_ok hread))
  | error e => exact congrArg Reply.result (exec_onBus_of_error (Observed.read8_of_error hread))

/-- Reading changes nothing. -/
theorem read8_console (c : Console) (addr : UInt16) : (c.read8 addr).console = c := by
  cases hread : c.board.read8 addr with
  | ok v => exact congrArg Reply.console (exec_onBus_of_ok (Observed.read8_of_ok hread))
  | error e => exact congrArg Reply.console (exec_onBus_of_error (Observed.read8_of_error hread))

/-- Writing does to the console's board what it does to the board on its own. -/
theorem write8_board (c : Console) (addr : UInt16) (v : UInt8) :
    (c.write8 addr v).console.board = Access.after (Board.write8 addr v) c.board := by
  rw [← Observed.board_after_perform (Observed.writeNotice? c.board addr v) _ ⟨c.board, #[]⟩]
  change (c.exec (Exec.onBus (Bus.write8 addr v))).console.board =
    (Access.after (Bus.write8 addr v) (⟨c.board, #[]⟩ : Observed)).board
  cases hwrite : (Bus.write8 addr v : Access Observed Unit) ⟨c.board, #[]⟩ with
  | ok _ t => rw [exec_onBus_of_ok hwrite, Access.after_of_ok hwrite]
  | error e t => rw [exec_onBus_of_error hwrite, Access.after_of_error hwrite]

/-- A byte that the board takes is written as the host is told. -/
theorem write8_of_board {b : Board} (h : Board.write8 addr v c.board = .ok () b) :
    (c.write8 addr v).console = { c with board := b } ∧ (c.write8 addr v).result = .ok () := by
  obtain ⟨t, hwrite⟩ := Observed.write8_of_ok (o := ⟨c.board, #[]⟩) h
  have hboard : Board.write8 addr v c.board = .ok () t.board :=
    Observed.board_of_perform_eq_ok hwrite
  rw [h] at hboard
  cases hboard
  rw [write8, Exec.write8, exec_onBus_of_ok hwrite]
  exact ⟨rfl, rfl⟩

theorem write8_result_eq_ok_iff (hc : c.board.WellFormed) :
    (c.write8 addr v).result = .ok () ↔ c.board.checkWrite addr v = .ok () := by
  rw [← hc.write8_eq_ok_iff]
  constructor
  · intro hresult
    cases hwrite : (Bus.write8 addr v : Access Observed Unit) ⟨c.board, #[]⟩ with
    | ok _ t => exact ⟨t.board, Observed.board_of_perform_eq_ok hwrite⟩
    | error e t =>
      have herror : (c.write8 addr v).result = .error e :=
        congrArg Reply.result (exec_onBus_of_error hwrite)
      rw [herror] at hresult
      cases hresult
  · rintro ⟨b, hb⟩
    exact (write8_of_board hb).2

theorem carries_lasting (cart : Cartridge) : Lasting fun _ o => o.board.Carries cart :=
  .ofBoard (Board.write8_preserves_carries cart) (fun _ pc h => h.beginStep pc)
    (fun _ cycles h => h.advance cycles) fun _ button pressed h => h.setButton button pressed

/-- The board carries the cartridge that the console holds. -/
def CarriesOwn (c : Console) : Prop :=
  ∀ cart, c.cartridge = some cart → c.board.Carries cart

theorem carriesOwn_perform (hc : c.board.WellFormed) (h : c.CarriesOwn) (op : Operation) :
    (op.perform c).1.CarriesOwn := by
  intro cart hcart
  by_cases hloads : op.Loads
  · cases op with
    | load other =>
      cases hcart
      exact (hc.insert_carries cart).reset
    | _ => exact hloads.elim
  · rw [(perform_setup op).1, op.cartridgeAfter_of_not_loads hloads] at hcart
    -- Only what starts the console anew replaces the controller.
    by_cases hrestarts : op.Restarts
    · cases op with
      | reset =>
        have hscheme : c.scheme = cart.scheme := by
          unfold scheme
          rw [hcart]
        change (c.board.reset c.scheme).Carries cart
        rw [hscheme]
        exact (h cart hcart).reset
      | load other => exact absurd trivial hloads
      | _ => exact hrestarts.elim
    · exact (carries_lasting cart).perform_board (P := (Board.Carries · cart)) hrestarts
        (h cart hcart)

theorem Reachable.carries (hc : c.Reachable) (hcart : c.cartridge = some cart) :
    c.board.Carries cart := by
  obtain ⟨config, ops, rfl⟩ := hc
  have hinvariant : ((new config).play ops).1.board.WellFormed ∧
      ((new config).play ops).1.CarriesOwn := by
    refine play_induction (P := fun c _ => c.board.WellFormed ∧ c.CarriesOwn)
      (fun op _ c _ h => ⟨wellFormed_perform h.1 op, carriesOwn_perform h.1 h.2 op⟩) ?_
    exact ⟨(Board.new_wellFormed config).reset _, fun _ hnone => by cases hnone⟩
  exact hinvariant.2 cart hcart

theorem scheme_lasting (scheme : Cartridge.Scheme) :
    Lasting fun _ o => o.board.mapper.scheme = scheme :=
  .ofBoard (fun addr v b h => (Board.after_write8_change addr v b).scheme.trans h)
    (fun _ _ h => h) (fun _ _ h => h) fun _ _ _ h => h

theorem scheme_perform (h : c.board.mapper.scheme = c.scheme) (op : Operation) :
    (op.perform c).1.board.mapper.scheme = (op.perform c).1.scheme := by
  by_cases hrestarts : op.Restarts
  · cases op with
    | reset | load cartridge => exact Mapper.scheme_ofScheme _
    | _ => exact hrestarts.elim
  · have hloads : ¬ op.Loads := Operation.not_loads_of_not_restarts hrestarts
    have hkept : (op.perform c).1.scheme = c.scheme := by
      unfold scheme
      rw [(perform_setup op).1, op.cartridgeAfter_of_not_loads hloads]
    rw [hkept]
    exact (scheme_lasting c.scheme).perform_board (P := fun b => b.mapper.scheme = c.scheme)
      hrestarts h

/-- The bank controller is of the scheme of the cartridge that is in, or of none. -/
theorem Reachable.mapper_scheme (hc : c.Reachable) : c.board.mapper.scheme = c.scheme := by
  obtain ⟨config, ops, rfl⟩ := hc
  refine play_induction (P := fun c _ => c.board.mapper.scheme = c.scheme)
    (fun op _ c _ h => scheme_perform h op) ?_
  rfl

theorem Reachable.rom_of_play (hc : c.Reachable) (hcart : c.cartridge = some cart)
    {ops : List Operation} (hops : ∀ op ∈ ops, ¬ op.Loads) :
    (c.play ops).1.board.rom = c.board.rom := by
  have hkept : (c.play ops).1.cartridge = some cart :=
    (play_cartridge_of_not_loads hops).trans hcart
  rw [((hc.play ops).carries hkept).rom, (hc.carries hcart).rom]

theorem step_fault (hc : c.board.Carries cart) (hcomplete : cart.Complete)
    (h : c.step.result = .error e) : ∃ opcode addr, e = .illegalOpcode opcode addr := by
  have hbus := Observed.obliging hcomplete
  -- A step fails in its work or in the push of an entry, and neither is refused an access.
  obtain ⟨t, hwork, -⟩ | ⟨n, s, t, hwork, hdispatch, -⟩ := step_fails hc.wellFormed h
  · refine (Exec.work_orderly c.cpu.halted).fault hbus (s := Exec.began c.circuit) ?_ hwork
    exact (carries_lasting cart).begin c.cpu _ hc
  · have hpush := Exec.pushWord_of_dispatch_eq_error hdispatch
    have hs : s.bus.board.Carries cart :=
      (Exec.work_preserves (carries_lasting cart).cpu (carries_lasting cart).bus
        (carries_lasting cart).begin).of_ok (s := c.circuit) hc hwork
    exact (Exec.pushWord_orderly (K := fun _ => False) _).fault hbus (hs.advance n) hpush

/-- No access of the console falls outside of a bank: reads and writes succeed, and what runs fails
    for its opcodes only. -/
structure InBounds (c : Console) : Prop where
  read8 : ∀ addr, ∃ v, (c.read8 addr).result = .ok v
  write8 : ∀ addr v, (c.write8 addr v).result = .ok ()
  step : ∀ e, c.step.result = .error e → ∃ opcode addr, e = .illegalOpcode opcode addr
  stepFrame : ∀ e, c.stepFrame.result = .error e → ∃ opcode addr, e = .illegalOpcode opcode addr
  run : ∀ {σ : Type} (host : Host σ) (frames : Nat) (s : σ) e,
    (c.run host frames s).ending = .failed e → ∃ opcode addr, e = .illegalOpcode opcode addr

theorem Reachable.inBounds (hc : c.Reachable) (hcart : c.cartridge = some cart)
    (hcomplete : cart.Complete) : c.InBounds := by
  have hcarries := hc.carries hcart
  -- A frame or a run that fails does so in a step that some steps lead to.
  have hsteps (n : Nat) (e : Fault)
      (h : (c.play (List.replicate n .step)).1.step.result = .error e) :
      ∃ opcode addr, e = .illegalOpcode opcode addr := by
    refine step_fault ((hc.play _).carries ?_) hcomplete h
    refine (play_cartridge_of_not_loads fun op hop => ?_).trans hcart
    rw [List.eq_of_mem_replicate hop]
    exact id
  refine ⟨fun addr => ?_, fun addr v => ?_, hsteps 0, fun e h => ?_, fun host frames s e h => ?_⟩
  · rw [read8_result]
    exact hcarries.read8_succeeds hcomplete addr
  · rw [write8_result_eq_ok_iff hcarries.wellFormed]
    exact hcarries.checkWrite_succeeds hcomplete addr v
  · obtain ⟨n, hn⟩ := stepWhile_fails h
    exact hsteps n e hn
  · obtain ⟨n, hn⟩ := runLoop_fails h
    exact hsteps n e hn

/-- The console maps a cartridge's program: its windows show the image, filled up with zeros to
    whole banks, and what the program does not reach is refused. -/
structure Maps (c : Console) (cart : Cartridge) : Prop where
  scheme : c.board.mapper.scheme = cart.scheme
  fixed : ∀ addr, addr < 0x4000 → ¬ (c.board.overlay = true ∧ addr < 0x100) →
    (c.read8 addr).result = .ok (cart.byte addr.toNat)
  banked : ∀ addr, 0x4000 ≤ addr → addr < 0x8000 →
    (c.read8 addr).result =
      if c.board.windowOffset addr < cart.programSize
      then .ok (cart.byte (c.board.windowOffset addr))
      else .error (.bankOutOfBounds "rom" (c.board.windowOffset addr) 0 cart.programSize)
  elsewhere : ∀ addr, ¬ (0x4000 ≤ addr ∧ addr < 0x8000) → ∃ v, (c.read8 addr).result = .ok v
  write8 : ∀ addr v, (c.write8 addr v).result = .ok () ↔
    ¬ (addr = 0xFF46 ∧ 0x40 ≤ v ∧ v < 0x80 ∧
      cart.programSize ≤ c.board.mapper.romBank * Board.romBankSize)
  kept : ∀ ops, (∀ op ∈ ops, ¬ op.Loads) → (play ops c).1.board.rom = c.board.rom
  complete : cart.Complete → c.InBounds

/-- A console maps the program of the cartridge that it holds, whatever the host has done. -/
theorem maps_of_reachable (hc : c.Reachable) (hcart : c.cartridge = some cart) : c.Maps cart := by
  have hcarries := hc.carries hcart
  refine ⟨hcarries.scheme, fun addr haddr hoverlay => ?_, fun addr hlow hhigh => ?_,
    fun addr haddr => ?_, fun addr v => ?_, fun ops => hc.rom_of_play hcart,
    hc.inBounds hcart⟩
  · rw [read8_result]
    exact hcarries.read8_fixed haddr hoverlay
  · rw [read8_result]
    exact hcarries.read8_banked hlow hhigh
  · rw [read8_result]
    exact hcarries.wellFormed.read8_outside haddr
  · rw [write8_result_eq_ok_iff hcarries.wellFormed, hcarries.checkWrite_eq_ok_iff]
    simp only [not_and, Nat.not_le, and_imp]

/-- A cartridge with a bank controller, whose program has two banks. -/
def twoBanks : Cartridge :=
  ⟨Array.replicate 0x148 1, by simp⟩

theorem twoBanks_programSize : twoBanks.programSize = 0x8000 := by
  unfold Cartridge.programSize twoBanks
  rw [Array.size_replicate]
  decide

/-- A console that holds it, with a third bank selected. -/
def missingBank : Console :=
  (play [.load twoBanks, .write8 0x2000 2] (new {})).1

theorem missingBank_reachable : missingBank.Reachable :=
  ⟨{}, _, rfl⟩

theorem missingBank_romBank : missingBank.board.mapper.romBank = 2 := by
  decide +kernel

theorem maps_missingBank :
    missingBank.Maps twoBanks ∧
      (missingBank.read8 0x4000).result = .error (.bankOutOfBounds "rom" 0x8000 0 0x8000) := by
  have hmaps : missingBank.Maps twoBanks := maps_of_reachable missingBank_reachable rfl
  have hoffset : missingBank.board.windowOffset 0x4000 = 0x8000 := by
    unfold Board.windowOffset
    rw [missingBank_romBank]
    decide
  refine ⟨hmaps, ?_⟩
  rw [hmaps.banked 0x4000 (by decide) (by decide), hoffset,
    twoBanks_programSize]
  rfl

end Console

end Handheld
