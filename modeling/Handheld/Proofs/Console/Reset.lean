import Handheld.Proofs.Board.Reset
import Handheld.Proofs.Console.Operation

namespace Handheld.Console

variable {c d : Console} {config : Config}

/-- A new console, with a cartridge put in if there is one. -/
def fresh (config : Config) : Option Cartridge → Console
  | none => new config
  | some cart => ((new config).load cart).console

/-- The cartridge that a run of operations puts in last. -/
def lastLoaded (ops : List Operation) : Option Cartridge :=
  ops.foldl Operation.cartridgeAfter none

/-- What an operation tells its host: the cycles of a step, the byte of a read, or a fault. -/
def Operation.answer : Operation → Console → Except Fault Nat
  | .step, c => c.step.result
  | .read8 addr, c => (c.read8 addr).result.map UInt8.toNat
  | .write8 addr v, c => (c.write8 addr v).result.map fun _ => 0
  | .setButton _ _, _ | .adjustCpu _, _ | .reset, _ | .load _, _ => .ok 0

/-- What can be observed of an operation. -/
structure Observation where
  answer : Except Fault Nat
  events : Array Event
  /-- The console as the operation leaves it. -/
  console : Console

/-- What is observed of a run of operations, in order. -/
def transcript : List Operation → Console → List Observation
  | [], _ => []
  | op :: ops, c =>
    ⟨op.answer c, (op.perform c).2, (op.perform c).1⟩ :: transcript ops (op.perform c).1

/-- The consoles differ in nothing that outlasts a reset: they are set up alike, hold the same
    cartridge, and a reset makes their boards equal. -/
structure Alike (c d : Console) : Prop where
  config : c.config = d.config
  cartridge : c.cartridge = d.cartridge
  board : c.board.ResetsLike d.board

theorem Alike.trans {e : Console} (h : c.Alike d) (h' : d.Alike e) : c.Alike e where
  config := h.config.trans h'.config
  cartridge := h.cartridge.trans h'.cartridge
  board scheme := (h.board scheme).trans (h'.board scheme)

theorem Alike.symm (h : c.Alike d) : d.Alike c where
  config := h.config.symm
  cartridge := h.cartridge.symm
  board scheme := (h.board scheme).symm

theorem Alike.powerOn_eq (h : c.Alike d) : c.powerOn = d.powerOn := by
  have hscheme : c.scheme = d.scheme := by
    unfold scheme
    rw [h.cartridge]
  unfold powerOn
  rw [h.config, h.cartridge, hscheme, h.board]
  rfl

theorem Alike.insert (h : c.Alike d) (cart : Cartridge) :
    (c.insert cart).Alike (d.insert cart) where
  config := h.config
  cartridge := rfl
  board := h.board.insert cart

theorem powerOn_alike (c : Console) : c.powerOn.Alike c where
  config := rfl
  cartridge := rfl
  board := Board.reset_reset c.board c.scheme

theorem insert_insert_alike (c : Console) (first last : Cartridge) :
    ((c.insert first).insert last).Alike (c.insert last) where
  config := rfl
  cartridge := rfl
  board := Board.reset_insert_insert c.board first last

theorem insert_fresh_alike (config : Config) (present : Option Cartridge) (cart : Cartridge) :
    ((fresh config present).insert cart).Alike (fresh config (some cart)) := by
  have hnew : ((new config).insert cart).Alike (fresh config (some cart)) :=
    (powerOn_alike _).symm
  cases present with
  | none => exact hnew
  | some first =>
    have hfirst : ((fresh config (some first)).insert cart).Alike
        (((new config).insert first).insert cart) := (powerOn_alike _).insert cart
    exact (hfirst.trans (insert_insert_alike _ first cart)).trans hnew

theorem reset_lasting (b : Board) : Lasting fun _ o => o.board.ResetsLike b :=
  .ofBoard (Board.write8_preserves_resetsLike b) (fun _ _ h => h) (fun _ _ h => h) fun _ _ _ h => h

theorem perform_alike {op : Operation} (hloads : ¬ op.Loads) (c : Console) :
    (op.perform c).1.Alike c := by
  obtain ⟨hcartridge, hconfig⟩ := perform_setup (c := c) op
  rw [op.cartridgeAfter_of_not_loads hloads] at hcartridge
  refine ⟨hconfig, hcartridge, ?_⟩
  by_cases hrestarts : op.Restarts
  · cases op with
    | reset => exact (powerOn_alike c).board
    | load cart => exact absurd trivial hloads
    | _ => exact hrestarts.elim
  · exact (reset_lasting c.board).perform_board (P := (Board.ResetsLike · c.board)) hrestarts
      fun _ => rfl

/-- An operation keeps a console like a new one with the latest cartridge. -/
theorem Alike.perform {present : Option Cartridge} (h : c.Alike (fresh config present))
    (op : Operation) : (op.perform c).1.Alike (fresh config (op.cartridgeAfter present)) := by
  by_cases hloads : op.Loads
  · cases op with
    | load cart =>
      have hput : (c.load cart).console.Alike (c.insert cart) := powerOn_alike _
      exact (hput.trans (h.insert cart)).trans (insert_fresh_alike config present cart)
    | _ => exact hloads.elim
  · rw [op.cartridgeAfter_of_not_loads hloads]
    exact (perform_alike hloads c).trans h

/-- Up to a reset, a console is what its latest cartridge makes of a new one. -/
theorem play_alike (config : Config) (ops : List Operation) :
    (play ops (new config)).1.Alike (fresh config (lastLoaded ops)) := by
  -- By induction on the operations, from any console like a new one with the cartridge so far.
  have hfrom (ops : List Operation) {c : Console} {present : Option Cartridge}
      (h : c.Alike (fresh config present)) :
      (play ops c).1.Alike (fresh config (ops.foldl Operation.cartridgeAfter present)) := by
    induction ops generalizing c present with
    | nil => exact h
    | cons op ops ih => exact ih (h.perform op)
  exact hfrom ops ⟨rfl, rfl, fun _ => rfl⟩

theorem fresh_powerOn (config : Config) (present : Option Cartridge) :
    (fresh config present).powerOn = fresh config present := by
  cases present with
  | none => exact (powerOn_alike _).powerOn_eq
  | some cart => exact (powerOn_alike _).powerOn_eq

/-- A reset forgets the past. The console equals a new one with the same configuration into which
    the latest cartridge is put; putting in a cartridge does the same with that one. What is
    observed after the reset depends on the configuration and the latest cartridge alone. -/
theorem reset_forgets_history (config : Config) (ops : List Operation) :
    (play ops (new config)).1.reset.console = fresh config (lastLoaded ops) ∧
      (∀ cart, ((play ops (new config)).1.load cart).console = fresh config (some cart)) ∧
      ∀ others, lastLoaded others = lastLoaded ops → ∀ later,
        transcript later (play others (new config)).1.reset.console =
          transcript later (play ops (new config)).1.reset.console := by
  have hreset (ops : List Operation) :
      (play ops (new config)).1.reset.console = fresh config (lastLoaded ops) :=
    (play_alike config ops).powerOn_eq.trans (fresh_powerOn config _)
  refine ⟨hreset ops, fun cart => ?_, fun others hlast later => ?_⟩
  · have hinsert := ((play_alike config ops).insert cart).trans
      (insert_fresh_alike config (lastLoaded ops) cart)
    exact hinsert.powerOn_eq.trans (fresh_powerOn config (some cart))
  · rw [hreset others, hreset ops, hlast]

/-- A cartridge whose image is a single byte. -/
def oneByte (b : UInt8) : Cartridge :=
  ⟨#[b], Nat.one_pos⟩

/-- A history of two cartridges, in which banks are selected, a button is pressed and the processor
    is stopped. -/
def eventful : List Operation :=
  [.load (oneByte 0xED), .step, .write8 0x2000 2, .load (oneByte 0x76), .step,
    .setButton .start true, .adjustCpu Cpu.stop]

theorem eventful_forgotten :
    lastLoaded eventful = lastLoaded [.load (oneByte 0x76)] ∧
      (play eventful (new {})).1.reset.console = fresh {} (some (oneByte 0x76)) ∧
      ∀ later, transcript later (play eventful (new {})).1.reset.console =
        transcript later (play [.load (oneByte 0x76)] (new {})).1.reset.console := by
  have hlast : lastLoaded eventful = lastLoaded [.load (oneByte 0x76)] := rfl
  obtain ⟨hreset, -, -⟩ := reset_forgets_history {} eventful
  obtain ⟨-, -, hsame⟩ := reset_forgets_history {} [.load (oneByte 0x76)]
  exact ⟨hlast, hreset, hsame eventful hlast⟩

end Handheld.Console
