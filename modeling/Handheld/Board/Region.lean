namespace Handheld

/-- A part of the address space. -/
inductive Region
  /-- The first bank of the cartridge's program. -/
  | romFixed
  /-- The bank of the cartridge's program that its controller selects. -/
  | romBanked
  | videoRam
  | externalRam
  | workRam
  /-- Work memory once more. -/
  | echo
  | oam
  | unusable
  | io
  | zeroPage
  | interruptEnable
  deriving DecidableEq, Repr, Inhabited

/-- The region an address belongs to. -/
def Region.of (addr : UInt16) : Region :=
  if addr < 0x4000 then .romFixed
  else if addr < 0x8000 then .romBanked
  else if addr < 0xA000 then .videoRam
  else if addr < 0xC000 then .externalRam
  else if addr < 0xE000 then .workRam
  else if addr < 0xFE00 then .echo
  else if addr < 0xFEA0 then .oam
  else if addr < 0xFF00 then .unusable
  else if addr < 0xFF80 then .io
  else if addr < 0xFFFF then .zeroPage
  else .interruptEnable

/-- A register of the input/output page. -/
inductive IoRegister
  | joypad
  | div | tima | tma | tac
  | interruptRequest
  | lcdc | stat | scy | scx | ly | lyc
  | dma
  | bgp | obp0 | obp1 | wy | wx
  /-- No register: reads give zero and writes do nothing. -/
  | unmapped
  deriving DecidableEq, Repr, Inhabited

/-- The register at an address. -/
def IoRegister.of (addr : UInt16) : IoRegister :=
  match addr.toNat with
  | 0xFF00 => .joypad
  | 0xFF04 => .div
  | 0xFF05 => .tima
  | 0xFF06 => .tma
  | 0xFF07 => .tac
  | 0xFF0F => .interruptRequest
  | 0xFF40 => .lcdc
  | 0xFF41 => .stat
  | 0xFF42 => .scy
  | 0xFF43 => .scx
  | 0xFF44 => .ly
  | 0xFF45 => .lyc
  | 0xFF46 => .dma
  | 0xFF47 => .bgp
  | 0xFF48 => .obp0
  | 0xFF49 => .obp1
  | 0xFF4A => .wy
  | 0xFF4B => .wx
  | _ => .unmapped

end Handheld
