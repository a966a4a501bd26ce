import Mathlib.Data.List.Forall2
import Handheld.Proofs.Board.Cells

namespace Handheld

namespace MemoryBank

variable {m : MemoryBank} {bytes : Array UInt8} {k i : Nat}

/-- The bank after the first `k` of some bytes have been put where it begins. -/
def arrived (bytes : Array UInt8) (k : Nat) (m : MemoryBank) : MemoryBank :=
  { m with data := bytes.extract 0 k ++ m.data.extract k }

theorem arrived_zero (bytes : Array UInt8) (m : MemoryBank) : arrived bytes 0 m = m := by
  simp [arrived]

/-- Once all have been put there they are what the bank holds. -/
theorem arrived_size (h : bytes.size = m.size) : arrived bytes m.size m = m.load bytes := by
  simp [arrived, load, h, MemoryBank.size]

theorem getElem?_arrived (h : bytes.size = m.size) (hk : k ≤ m.size) (i : Nat) :
    (arrived bytes k m).data[i]? = if i < k then bytes[i]? else m.data[i]? := by
  have hfront : (bytes.extract 0 k).size = k := by
    rw [Array.size_extract]
    omega
  unfold arrived
  rw [Array.getElem?_append, hfront]
  split
  · rw [Array.getElem?_extract, if_pos (by omega), Nat.zero_add]
  · have hplace : k + (i - k) = i := by omega
    rw [Array.getElem?_extract, hplace]
    split
    · rfl
    · exact (Array.getElem?_eq_none (by omega)).symm

theorem size_arrived (h : bytes.size = m.size) (hk : k ≤ m.size) :
    (arrived bytes k m).size = m.size := by
  simp only [arrived, MemoryBank.size, Array.size_append, Array.size_extract] at *
  omega

theorem read8_place (hi : i < m.size) : m.read8 (m.base + i) = .ok m.data[i] := by
  have hcovers : m.Covers (m.base + i) := ⟨Nat.le_add_right _ _, by rwa [Nat.add_sub_cancel_left]⟩
  simp only [read8, dif_pos hcovers, Nat.add_sub_cancel_left]
  rfl

theorem read8_arrived_of_getElem? {v : UInt8} (hv : (arrived bytes k m).data[i]? = some v) :
    (arrived bytes k m).read8 (m.base + i) = .ok v := by
  obtain ⟨hin, rfl⟩ := Array.getElem?_eq_some_iff.mp hv
  exact read8_place (m := arrived bytes k m) hin

/-- What has been put there is read back. -/
theorem read8_arrived_of_lt (h : bytes.size = m.size) (hk : k ≤ m.size) (hi : i < k)
    (hin : i < bytes.size) : (arrived bytes k m).read8 (m.base + i) = .ok bytes[i] := by
  apply read8_arrived_of_getElem?
  rw [getElem?_arrived h hk, if_pos hi, Array.getElem?_eq_getElem hin]

/-- What has not been replaced yet is read as before. -/
theorem read8_arrived_of_le (h : bytes.size = m.size) (hi : k ≤ i) (hin : i < m.size) :
    (arrived bytes k m).read8 (m.base + i) = m.read8 (m.base + i) := by
  rw [read8_place hin]
  apply read8_arrived_of_getElem?
  rw [getElem?_arrived h (Nat.le_trans hi (Nat.le_of_lt hin)), if_neg (Nat.not_lt.mpr hi)]
  exact Array.getElem?_eq_getElem hin

/-- The next byte is put where the bytes before it end. -/
theorem write8_arrived (h : bytes.size = m.size) (hk : k < bytes.size) :
    write8 (m.base + k) bytes[k] (arrived bytes k m) = .ok () (arrived bytes (k + 1) m) := by
  have hsize := size_arrived h (k := k) (by omega)
  have hcovers : (arrived bytes k m).Covers (m.base + k) := by
    refine ⟨Nat.le_add_right _ _, ?_⟩
    change m.base + k - m.base < (arrived bytes k m).size
    omega
  have hplace : m.base + k - (arrived bytes k m).base = k := Nat.add_sub_cancel_left _ _
  have hdata : (arrived bytes k m).data.set (m.base + k - (arrived bytes k m).base) bytes[k]
      hcovers.2 = (arrived bytes (k + 1) m).data := by
    refine Array.ext_getElem? fun i => ?_
    rw [Array.getElem?_set, getElem?_arrived h (by omega) i, getElem?_arrived h (by omega) i,
      hplace]
    by_cases hi : k = i
    · subst hi
      rw [if_pos rfl, if_pos (Nat.lt_succ_self k), Array.getElem?_eq_getElem hk]
    · have hsame : i < k + 1 ↔ i < k := by omega
      rw [if_neg hi]
      simp only [hsame]
  rw [write8_of_covers _ hcovers, hdata]
  rfl

end MemoryBank

namespace Board

variable {b : Board} {page : UInt8} {bytes : Array UInt8} {m : MemoryBank} {addr : UInt16}
  {k n : Nat} {e : Fault}

private theorem mapM_eq_ok {α β ε : Type} {f : α → Except ε β} {xs : List α} {ys : List β}
    (h : xs.mapM f = .ok ys) : List.Forall₂ (fun x y => f x = .ok y) xs ys := by
  induction xs generalizing ys with
  | nil =>
    cases h
    exact .nil
  | cons x xs ih =>
    rw [List.mapM_cons] at h
    cases hx : f x with
    | error e =>
      rw [hx] at h
      cases h
    | ok y =>
      cases hxs : xs.mapM f with
      | error e =>
        rw [hx, hxs] at h
        cases h
      | ok rest =>
        rw [hx, hxs] at h
        cases h
        exact .cons hx (ih hxs)

/-- The bytes of a page in their order. -/
theorem readPage_places (h : b.readPage page = .ok bytes) :
    bytes.size = oamSize ∧ ∀ i (hi : i < bytes.size),
      b.read8 (Word.pageStart page + UInt16.ofNat i) = .ok bytes[i] := by
  have hlist : (List.range oamSize).mapM
      (fun i => b.read8 (Word.pageStart page + UInt16.ofNat i)) = .ok bytes.toList := by
    unfold readPage at h
    rw [Array.mapM_eq_mapM_toList, Array.toList_range] at h
    cases hbytes : (List.range oamSize).mapM
        fun i => b.read8 (Word.pageStart page + UInt16.ofNat i) with
    | error e =>
      rw [hbytes] at h
      cases h
    | ok list =>
      rw [hbytes] at h
      cases h
      rfl
  obtain ⟨hlength, hget⟩ := List.forall₂_iff_get.mp (mapM_eq_ok hlist)
  rw [List.length_range, Array.length_toList] at hlength
  refine ⟨hlength.symm, fun i hi => ?_⟩
  have hplace := hget i (by rwa [List.length_range, hlength]) (by rwa [Array.length_toList])
  simpa using hplace

/-- If one byte of a page cannot be read, none can, and the first is to blame. -/
theorem WellFormed.read8_pageStart (hb : b.WellFormed) (hwhole : romBankSize ∣ b.rom.size)
    (h : b.readPage page = .error e) :
    b.read8 (Word.pageStart page + UInt16.ofNat 0) = .error e := by
  cases hfirst : b.read8 (Word.pageStart page + UInt16.ofNat 0) with
  | ok v =>
    have hpage : ∃ bytes, b.readPage page = .ok bytes := by
      refine readPage_eq_ok_iff.mpr fun i hi => ?_
      rw [hb.read8_page_iff hwhole hi, ← hb.read8_page_iff hwhole (i := 0) (by decide)]
      exact ⟨v, hfirst⟩
    obtain ⟨bytes, hbytes⟩ := hpage
    rw [h] at hbytes
    cases hbytes
  | error e' =>
    have hrange : List.range oamSize = 0 :: List.range' 1 0x9F := by decide
    unfold readPage at h
    rw [Array.mapM_eq_mapM_toList, Array.toList_range, hrange, List.mapM_cons, hfirst] at h
    cases h
    rfl

/-- Reads byte `i` of a page and puts it into byte `i` of object memory. -/
def copyByte (page : UInt8) (i : Nat) : Access Board Unit := do
  let v ← Access.observe fun b => b.read8 (Word.pageStart page + UInt16.ofNat i)
  onOam (MemoryBank.write8 (0xFE00 + i) v)

/-- Copies the start of a page into object memory byte by byte. -/
def copyPage (page : UInt8) : Access Board Unit := do
  forM (List.range oamSize) (copyByte page)
  modify fun b => { b with dmaPage := page }

/-- The board after the first `k` of some bytes have been put into object memory. -/
def withArrived (bytes : Array UInt8) (k : Nat) (b : Board) : Board :=
  b.setBank .oam (b.lcd.oam.arrived bytes k)

theorem read8_setBank_oam :
    (b.setBank .oam m).read8 addr =
      if Region.of addr = .oam then m.read8 addr.toNat else b.read8 addr := by
  unfold read8
  cases Region.of addr <;> rfl

/-- A page meets object memory only if it is object memory's own. -/
theorem toNat_pageStart_add_of_oam (hk : k < oamSize)
    (h : Region.of (Word.pageStart page + UInt16.ofNat k) = .oam) :
    (Word.pageStart page + UInt16.ofNat k).toNat = 0xFE00 + k := by
  have hspan := Region.of_spans (Word.pageStart page + UInt16.ofNat k)
  rw [h, toNat_pageStart_add page hk] at hspan
  rw [toNat_pageStart_add page hk]
  simp only [Region.Spans] at hspan
  unfold oamSize at hk
  omega

/-- What has not been copied yet is read as before the transfer. -/
theorem WellFormed.read8_withArrived (hb : b.WellFormed) (hsize : bytes.size = oamSize)
    (hk : k < oamSize) :
    (b.withArrived bytes k).read8 (Word.pageStart page + UInt16.ofNat k) =
      b.read8 (Word.pageStart page + UInt16.ofNat k) := by
  have hoam : b.lcd.oam.size = oamSize := hb.oam.size_eq
  unfold withArrived
  rw [read8_setBank_oam]
  split
  · rename_i hregion
    have hbase : (Word.pageStart page + UInt16.ofNat k).toNat = b.lcd.oam.base + k := by
      rw [hb.oam.base_eq]
      exact toNat_pageStart_add_of_oam hk hregion
    have hself : b.read8 (Word.pageStart page + UInt16.ofNat k) =
        b.lcd.oam.read8 (b.lcd.oam.base + k) := by
      unfold read8
      rw [hregion, ← hbase]
    rw [hself, hbase]
    exact MemoryBank.read8_arrived_of_le (hsize.trans hoam.symm) (Nat.le_refl k) (hoam ▸ hk)
  · rfl

/-- One more byte arrives. -/
theorem WellFormed.copyByte_withArrived (hb : b.WellFormed) (h : b.readPage page = .ok bytes)
    (hk : k < oamSize) :
    copyByte page k (b.withArrived bytes k) = .ok () (b.withArrived bytes (k + 1)) := by
  obtain ⟨hsize, hplaces⟩ := readPage_places h
  have hin : k < bytes.size := hsize ▸ hk
  have hread : Access.observe (fun b => b.read8 (Word.pageStart page + UInt16.ofNat k))
      (b.withArrived bytes k) = .ok bytes[k] (b.withArrived bytes k) :=
    Access.observe_of_ok ((hb.read8_withArrived hsize hk).trans (hplaces k hin))
  have hwrite := MemoryBank.write8_arrived (hsize.trans hb.oam.size_eq.symm) hin
  rw [hb.oam.base_eq] at hwrite
  unfold copyByte
  rw [Access.bind_eq_ok_iff]
  exact ⟨_, _, hread, Access.zoom_eq_ok_iff.mpr ⟨_, hwrite, rfl⟩⟩

theorem WellFormed.copyBytes_withArrived (hb : b.WellFormed) (h : b.readPage page = .ok bytes)
    (hn : k + n = oamSize) :
    forM (List.range' k n) (copyByte page) (b.withArrived bytes k) =
      .ok () (b.withArrived bytes oamSize) := by
  induction n generalizing k with
  | zero =>
    obtain rfl : k = oamSize := hn
    rfl
  | succ n ih =>
    have hbyte := hb.copyByte_withArrived h (k := k) (by omega)
    rw [List.range'_succ, List.forM_cons, Access.bind_eq_ok_iff]
    exact ⟨(), _, hbyte, ih (by omega)⟩

/-- Copying byte by byte is a transfer. -/
theorem WellFormed.copyPage_eq (hb : b.WellFormed) (hwhole : romBankSize ∣ b.rom.size)
    (page : UInt8) : copyPage page b = transfer page b := by
  cases hpage : b.readPage page with
  | ok bytes =>
    obtain ⟨hsize, -⟩ := readPage_places hpage
    have hoam : b.lcd.oam.size = oamSize := hb.oam.size_eq
    have hstart : b.withArrived bytes 0 = b := by
      unfold withArrived
      rw [MemoryBank.arrived_zero]
      rfl
    have hend : b.withArrived bytes oamSize =
        { b with lcd := { b.lcd with oam := b.lcd.oam.load bytes } } := by
      unfold withArrived
      rw [← hoam, MemoryBank.arrived_size (hsize.trans hoam.symm)]
      rfl
    have hcopy := hb.copyBytes_withArrived hpage (Nat.zero_add oamSize)
    rw [hstart, hend, ← List.range_eq_range'] at hcopy
    rw [transfer_of_ok hpage]
    exact Access.bind_eq_ok_iff.mpr ⟨(), _, hcopy, rfl⟩
  | error e =>
    have hfirst := hb.read8_pageStart hwhole hpage
    have hread : Access.observe (fun b => b.read8 (Word.pageStart page + UInt16.ofNat 0)) b =
        .error e b := Access.observe_of_error hfirst
    have hrange : List.range oamSize = 0 :: List.range' 1 0x9F := by decide
    rw [transfer_of_error hpage]
    unfold copyPage
    rw [hrange, List.forM_cons]
    exact Access.bind_eq_error_iff.mpr (.inl (Access.bind_eq_error_iff.mpr (.inl
      (Access.bind_eq_error_iff.mpr (.inl hread)))))

end Board

end Handheld
