import Handheld.Proofs.Cpu.Return
import Handheld.Proofs.Cpu.Flat

namespace Handheld

/-- The address is that of a byte of the first `n` words on a stack. -/
def Stacked (base : UInt16) (n : Nat) (addr : UInt16) : Prop :=
  (base - 1 - addr).toNat < 2 * n

instance (base : UInt16) (n : Nat) (addr : UInt16) : Decidable (Stacked base n addr) :=
  inferInstanceAs (Decidable (_ < _))

/-- Where the stack pointer is with `n` words on the stack. -/
def stackTop (base : UInt16) (n : Nat) : UInt16 :=
  base - UInt16.ofNat (2 * n)

/-- The processor with `n` words on its stack. -/
def Cpu.stacking (base : UInt16) (n : Nat) (cpu : Cpu) : Cpu :=
  { cpu with regs := { cpu.regs with sp := stackTop base n } }

section Stacked

variable {base addr : UInt16} {k n : Nat}

theorem toNat_stackTop (base : UInt16) (n : Nat) :
    (stackTop base n).toNat = (65536 - 2 * n % 65536 + base.toNat) % 65536 := by
  simp [stackTop, UInt16.toNat_sub]

theorem stackTop_zero (base : UInt16) : stackTop base 0 = base :=
  UInt16.sub_zero base

theorem stackTop_succ (base : UInt16) (n : Nat) : stackTop base (n + 1) = stackTop base n - 2 := by
  apply UInt16.toNat.inj
  rw [UInt16.toNat_sub, toNat_stackTop, toNat_stackTop]
  simp only [UInt16.toNat_ofNat]
  omega

theorem stacked_iff : Stacked base n addr ↔
    (65536 - addr.toNat + (65535 + base.toNat)) % 65536 < 2 * n := by
  simp only [Stacked, UInt16.toNat_sub, UInt16.toNat_one]
  omega

theorem Stacked.mono (h : Stacked base k addr) (hkn : k ≤ n) : Stacked base n addr :=
  Nat.lt_of_lt_of_le h (Nat.mul_le_mul_left 2 hkn)

/-- The word at the stack pointer is stacked, as long as there is room for it in the memory. -/
theorem stacked_top (base : UInt16) (hn : n < 32768) :
    Stacked base (n + 1) (stackTop base (n + 1)) ∧
      Stacked base (n + 1) (stackTop base (n + 1) + 1) := by
  have hbase := base.toNat_lt
  rw [stacked_iff, stacked_iff, UInt16.toNat_add, toNat_stackTop, UInt16.toNat_one]
  omega

/-- The word at the stack pointer lies apart from those before it. -/
theorem not_stacked_top (base : UInt16) (hn : n < 32768) :
    ¬ Stacked base n (stackTop base (n + 1)) ∧ ¬ Stacked base n (stackTop base (n + 1) + 1) := by
  have hbase := base.toNat_lt
  rw [stacked_iff, stacked_iff, UInt16.toNat_add, toNat_stackTop, UInt16.toNat_one]
  omega

end Stacked

namespace FlatMemory

variable {m m' m'' : FlatMemory} {area : UInt16 → Prop} {addr base w : UInt16} {n : Nat}

/-- The bytes of the area are the same in both memories. -/
def AgreeOn (area : UInt16 → Prop) (m m' : FlatMemory) : Prop :=
  ∀ addr, area addr → m'.get addr = m.get addr

theorem AgreeOn.refl (area : UInt16 → Prop) (m : FlatMemory) : AgreeOn area m m :=
  fun _ _ => rfl

theorem AgreeOn.trans (h : AgreeOn area m m') (h' : AgreeOn area m' m'') : AgreeOn area m m'' :=
  fun addr haddr => (h' addr haddr).trans (h addr haddr)

theorem AgreeOn.mono {larger : UInt16 → Prop} (h : AgreeOn larger m m')
    (hlarger : ∀ addr, area addr → larger addr) : AgreeOn area m m' :=
  fun addr haddr => h addr (hlarger addr haddr)

theorem agreeOn_of_bytes (area : UInt16 → Prop) (h : m'.bytes = m.bytes) : AgreeOn area m m' :=
  fun addr _ => get_congr h addr

theorem written_append (stores more : List (UInt16 × UInt8)) (m : FlatMemory) :
    m.written (stores ++ more) = (m.written stores).written more := by
  simp only [written, List.foldl_append]

/-- Memories that agree on an area still agree on it after the same has been written to both. -/
theorem AgreeOn.written (h : AgreeOn area m m') (stores : List (UInt16 × UInt8)) :
    AgreeOn area (m.written stores) (m'.written stores) := by
  induction stores generalizing m m' with
  | nil => exact h
  | cons p stores ih =>
    rw [written_cons, written_cons]
    refine ih fun addr haddr => ?_
    simp only [get_set, h addr haddr]

theorem Faultless.write16 (h : m.Faultless) (addr w : UInt16) :
    ∃ t, Bus.write16 addr w m = .ok () t ∧ t.Faultless ∧
      t.bytes = (m.written (wordBytes addr w)).bytes := by
  rw [← h.plain_eq]
  exact ⟨_, rfl, ⟨fun _ => rfl, fun _ => rfl⟩, rfl⟩

theorem Faultless.read16 (h : m.Faultless) (addr : UInt16) :
    ∃ t, Bus.read16 addr m = .ok (m.word addr) t ∧ t.Faultless ∧ t.bytes = m.bytes := by
  rw [← h.plain_eq]
  exact ⟨_, rfl, ⟨fun _ => rfl, fun _ => rfl⟩, rfl⟩

/-- A word changes no byte of an area that its own bytes lie outside of. -/
theorem agreeOn_wordBytes (hlow : ¬ area addr) (hhigh : ¬ area (addr + 1)) (w : UInt16)
    (m : FlatMemory) : AgreeOn area m (m.written (wordBytes addr w)) := by
  intro x hx
  refine get_written ?_ m
  simp only [wordBytes, List.map_cons, List.map_nil, List.mem_cons, List.not_mem_nil, or_false]
  rintro (rfl | rfl)
  · exact hlow hx
  · exact hhigh hx

/-- A word that is put on the stack changes nothing outside of the area that the stack may take. -/
theorem agreeOn_outside {deepest : Nat} (hn : n < deepest) (hdeepest : deepest ≤ 32768) (w : UInt16)
    (m : FlatMemory) : AgreeOn (fun addr => ¬ Stacked base deepest addr) m
      (m.written (wordBytes (stackTop base (n + 1)) w)) := by
  obtain ⟨hlow, hhigh⟩ := stacked_top base (Nat.lt_of_lt_of_le hn hdeepest)
  exact agreeOn_wordBytes (not_not_intro (hlow.mono hn)) (not_not_intro (hhigh.mono hn)) w m

/-- After a word has been put on the stack and the bytes stacked then have been left alone, the word
    is found on the stack, and what was stacked before has not changed. -/
theorem word_of_agreeOn (hn : n < 32768)
    (hpush : m'.bytes = (m.written (wordBytes (stackTop base (n + 1)) w)).bytes)
    (h : AgreeOn (Stacked base (n + 1)) m' m'') :
    m''.word (stackTop base (n + 1)) = w ∧ AgreeOn (Stacked base n) m m'' := by
  constructor
  · rw [word, h _ (stacked_top base hn).1, h _ (stacked_top base hn).2]
    exact (word_congr hpush _).trans (word_written _ w m)
  · obtain ⟨hlow, hhigh⟩ := not_stacked_top base hn
    have hpushed := (agreeOn_wordBytes hlow hhigh w m).trans (agreeOn_of_bytes _ hpush)
    exact hpushed.trans (h.mono fun addr haddr => Stacked.mono haddr (Nat.le_succ n))

end FlatMemory

namespace Exec

/-- Something that is done with the stack or beside it. -/
inductive StackCall
  | push (w : UInt16)
  | pop
  | store (addr : UInt16) (v : UInt8)
  deriving DecidableEq, Repr, Inhabited

/-- What is written beside the stack. -/
def StackCall.stores : List StackCall → List (UInt16 × UInt8)
  | [] => []
  | .store addr v :: calls => (addr, v) :: stores calls
  | _ :: calls => stores calls

theorem StackCall.stores_append (calls more : List StackCall) :
    stores (calls ++ more) = stores calls ++ stores more := by
  induction calls with
  | nil => rfl
  | cons call calls ih => cases call <;> simp [stores, ih]

/-- To every push there is a pop, before which whatever was pushed later has been popped. With
    `live` words on the stack before, there are at no time more than `deepest`. The bytes that are
    stacked are not written to. The words are those pushed, in the order of their pops. -/
inductive Bracketed (base : UInt16) (deepest : Nat) :
    Nat → List StackCall → List UInt16 → Prop
  | nil {live : Nat} : Bracketed base deepest live [] []
  | store {live : Nat} {addr : UInt16} {v : UInt8} {calls : List StackCall} {pops : List UInt16} :
      ¬ Stacked base live addr → Bracketed base deepest live calls pops →
      Bracketed base deepest live (.store addr v :: calls) pops
  | bracket {live : Nat} {w : UInt16} {calls more : List StackCall} {pops later : List UInt16} :
      live < deepest → Bracketed base deepest (live + 1) calls pops →
      Bracketed base deepest live more later →
      Bracketed base deepest live (.push w :: (calls ++ .pop :: more)) (pops ++ w :: later)

/-- Does the calls one after the other. The result are the words that are popped. -/
def stackCalls {β : Type} [Bus β] : List StackCall → Exec β (List UInt16)
  | [] => pure []
  | .push w :: calls => do
    pushWord w
    stackCalls calls
  | .pop :: calls => do
    let w ← popWord
    let more ← stackCalls calls
    return w :: more
  | .store addr v :: calls => do
    write8 addr v
    stackCalls calls

theorem stackCalls_append {β : Type} [Bus β] {s t u : Circuit β} {calls more : List StackCall}
    {pops later : List UInt16} (h : stackCalls calls s = .ok pops t)
    (hmore : stackCalls more t = .ok later u) :
    stackCalls (calls ++ more) s = .ok (pops ++ later) u := by
  induction calls generalizing s pops with
  | nil =>
    cases h
    exact hmore
  | cons call calls ih =>
    cases call with
    | push w | store addr v =>
      obtain ⟨_, x, hx, hrest⟩ := Access.bind_eq_ok_iff.mp h
      exact Access.bind_eq_ok_iff.mpr ⟨_, x, hx, ih hrest⟩
    | pop =>
      obtain ⟨w, x, hx, hrest⟩ := Access.bind_eq_ok_iff.mp h
      obtain ⟨rest, y, hy, hpure⟩ := Access.bind_eq_ok_iff.mp hrest
      cases hpure
      exact Access.bind_eq_ok_iff.mpr ⟨w, x, hx, Access.bind_eq_ok_iff.mpr ⟨_, u, ih hy, rfl⟩⟩

open FlatMemory

variable {s : Circuit FlatMemory} {base addr : UInt16} {live deepest : Nat}
  {calls : List StackCall} {pops : List UInt16}

/-- A word goes onto the stack of a memory without faults. -/
theorem pushWord_of_faultless (hs : s.bus.Faultless) (hsp : s.cpu.regs.sp = stackTop base live)
    (w : UInt16) : ∃ b : FlatMemory, pushWord w s = .ok () ⟨s.cpu.stacking base (live + 1), b⟩ ∧
      b.Faultless ∧ b.bytes = (s.bus.written (wordBytes (stackTop base (live + 1)) w)).bytes := by
  obtain ⟨b, hwrite, hb, hbytes⟩ := hs.write16 (stackTop base (live + 1)) w
  have hnext : stackTop base (live + 1) = s.cpu.regs.sp - 2 := by
    rw [stackTop_succ, hsp]
  refine ⟨b, pushWord_eq_ok_iff.mpr ⟨b, hnext ▸ hwrite, ?_⟩, hb, hbytes⟩
  rw [Cpu.stacking, hnext]

/-- A word comes from the stack of a memory without faults. -/
theorem popWord_of_faultless (hs : s.bus.Faultless)
    (hsp : s.cpu.regs.sp = stackTop base (live + 1)) : ∃ b : FlatMemory,
      popWord s = .ok (s.bus.word (stackTop base (live + 1))) ⟨s.cpu.stacking base live, b⟩ ∧
      b.Faultless ∧ b.bytes = s.bus.bytes := by
  obtain ⟨b, hread, hb, hbytes⟩ := hs.read16 (stackTop base (live + 1))
  have hback : stackTop base live = s.cpu.regs.sp + 2 := by
    rw [hsp, stackTop_succ, UInt16.sub_add_cancel]
  refine ⟨b, popWord_eq_ok_iff.mpr ⟨b, hsp ▸ hread, ?_⟩, hb, hbytes⟩
  rw [Cpu.stacking, hback]

/-- The calls lead from `s` to `t` and pop the given words. They leave the processor as it was, and
    the bytes that were stacked before; outside of the stack there is what is written beside it. -/
structure Serves (base : UInt16) (deepest live : Nat) (calls : List StackCall) (pops : List UInt16)
    (s t : Circuit FlatMemory) : Prop where
  run : stackCalls calls s = .ok pops t
  cpu : t.cpu = s.cpu
  faultless : t.bus.Faultless
  stacked : AgreeOn (Stacked base live) s.bus t.bus
  outside : AgreeOn (fun addr => ¬ Stacked base deepest addr)
    (s.bus.written (StackCall.stores calls)) t.bus

theorem Bracketed.serves (h : Bracketed base deepest live calls pops) (hdeepest : deepest ≤ 32768)
    (hs : s.bus.Faultless) (hsp : s.cpu.regs.sp = stackTop base live) :
    ∃ t, Serves base deepest live calls pops s t := by
  induction h generalizing s with
  | nil => exact ⟨s, rfl, rfl, hs, .refl _ _, .refl _ _⟩
  | @store live addr v calls pops hfree _ ih =>
    have hwrite : write8 addr v s = .ok () ⟨s.cpu, (s.bus.set addr v).note (.write addr v)⟩ :=
      onBus_eq_ok_iff.mpr ⟨_, write8_eq_ok_iff.mpr ⟨hs.2 addr, rfl⟩, rfl⟩
    obtain ⟨t, ht⟩ := ih (s := ⟨s.cpu, (s.bus.set addr v).note (.write addr v)⟩) hs hsp
    have hkept : AgreeOn (Stacked base live) s.bus (s.bus.set addr v) := by
      intro x hx
      rw [get_set, if_neg]
      rintro rfl
      exact hfree hx
    exact ⟨t, Access.bind_eq_ok_iff.mpr ⟨(), _, hwrite, ht.run⟩, ht.cpu, ht.faultless,
      hkept.trans ht.stacked, ht.outside⟩
  | @bracket live w calls more pops later hlive _ _ ihcalls ihmore =>
    have hroom : live < 32768 := Nat.lt_of_lt_of_le hlive hdeepest
    obtain ⟨b, hpush, hb, hbytes⟩ := pushWord_of_faultless hs hsp w
    obtain ⟨t, ht⟩ := ihcalls (s := ⟨s.cpu.stacking base (live + 1), b⟩) hb rfl
    obtain ⟨hword, hkept⟩ := word_of_agreeOn hroom hbytes ht.stacked
    have htsp : t.cpu.regs.sp = stackTop base (live + 1) := by
      rw [ht.cpu]
      rfl
    obtain ⟨b', hpop, hb', hbytes'⟩ := popWord_of_faultless ht.faultless htsp
    have hback : t.cpu.stacking base live = s.cpu := by
      rw [ht.cpu]
      simp only [Cpu.stacking, ← hsp]
    rw [hword, hback] at hpop
    obtain ⟨u, hu⟩ := ihmore (s := ⟨s.cpu, b'⟩) hb' hsp
    have hrest : stackCalls (.pop :: more) t = .ok (w :: later) u :=
      Access.bind_eq_ok_iff.mpr ⟨w, _, hpop, Access.bind_eq_ok_iff.mpr ⟨_, u, hu.run, rfl⟩⟩
    refine ⟨u, ?_, hu.cpu, hu.faultless, ?_, ?_⟩
    · exact Access.bind_eq_ok_iff.mpr ⟨(), _, hpush, stackCalls_append ht.run hrest⟩
    · exact hkept.trans ((agreeOn_of_bytes _ hbytes').trans hu.stacked)
    · have hstores : StackCall.stores (.push w :: (calls ++ .pop :: more)) =
          StackCall.stores calls ++ StackCall.stores more := StackCall.stores_append calls _
      have hpushed := (agreeOn_outside hlive hdeepest w s.bus).trans (agreeOn_of_bytes _ hbytes)
      have hcalled := (hpushed.written (StackCall.stores calls)).trans ht.outside
      have hpopped := (hcalled.trans (agreeOn_of_bytes _ hbytes')).written (StackCall.stores more)
      rw [hstores, written_append]
      exact hpopped.trans hu.outside

end Exec

end Handheld
