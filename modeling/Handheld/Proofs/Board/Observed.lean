import Handheld.Board.Observed
import Handheld.Proofs.Board.Refusal
import Handheld.Proofs.Cpu.Stability

namespace Handheld

/-- What a renderer is given: a finished line or a finished frame. -/
inductive Picture
  | scanline (view : View)
  | frame (view : View)
  deriving DecidableEq, Repr, Inhabited

/-- What a renderer is given of an event, if anything. -/
def Event.picture? : Event → Option Picture
  | .notice _ => none
  | .scanline view => some (.scanline view)
  | .frame view => some (.frame view)

/-- What a renderer is given of some events, in order. -/
def pictures (events : Array Event) : List Picture :=
  events.toList.filterMap Event.picture?

@[simp]
theorem pictures_append (xs ys : Array Event) :
    pictures (xs ++ ys) = pictures xs ++ pictures ys := by
  simp [pictures]

@[simp]
theorem pictures_push_notice (events : Array Event) (n : Notice) :
    pictures (events.push (.notice n)) = pictures events := by
  simp [pictures, Event.picture?]

namespace Observed

variable {α : Type} {o t : Observed} {e : Fault}

@[simp]
theorem board_notice? (o : Observed) (n : Option Board.Notice) : (o.notice? n).board = o.board := by
  cases n <;> rfl

@[simp]
theorem pictures_notice? (o : Observed) (n : Option Board.Notice) :
    pictures (o.notice? n).events = pictures o.events := by
  cases n with
  | none => rfl
  | some n => exact pictures_push_notice o.events (.board n)

@[simp]
theorem board_beginStep (pc : UInt16) (o : Observed) :
    (o.beginStep pc).board = o.board.beginStep pc :=
  board_notice? _ _

@[simp]
theorem pictures_beginStep (pc : UInt16) (o : Observed) :
    pictures (o.beginStep pc).events = pictures o.events :=
  pictures_notice? _ _

section Perform

variable {n : Option Board.Notice} {act : Access Board α}

theorem board_of_perform_eq_ok {a : α} (h : perform n act o = .ok a t) :
    act o.board = .ok a t.board := by
  unfold perform at h
  cases hact : act o.board with
  | ok a' b =>
    rw [hact] at h
    cases h
    rw [board_notice?]
  | error e b =>
    rw [hact] at h
    cases h

theorem board_of_perform_eq_error (h : perform n act o = .error e t) :
    act o.board = .error e t.board := by
  unfold perform at h
  cases hact : act o.board with
  | ok a b =>
    rw [hact] at h
    cases h
  | error e' b =>
    rw [hact] at h
    cases h
    rfl

theorem board_after_perform (n : Option Board.Notice) (act : Access Board α) (o : Observed) :
    (Access.after (perform n act) o).board = Access.after act o.board := by
  cases h : perform n act o with
  | ok a t => rw [Access.after_of_ok h, Access.after_of_ok (board_of_perform_eq_ok h)]
  | error e t => rw [Access.after_of_error h, Access.after_of_error (board_of_perform_eq_error h)]

theorem pictures_after_perform (n : Option Board.Notice) (act : Access Board α) (o : Observed) :
    pictures (Access.after (perform n act) o).events = pictures o.events := by
  unfold Access.after perform
  cases act o.board with
  | ok a b => exact pictures_notice? _ n
  | error e b => exact pictures_push_notice o.events _

/-- An access keeps what it keeps of the board, and the pictures. -/
theorem perform_preserves {P : Board → List Picture → Prop}
    (h : ∀ ps, Access.Preserves (P · ps) act) (n : Option Board.Notice) :
    Access.Preserves (fun o => P o.board (pictures o.events)) (perform n act) := by
  intro o ho
  rw [board_after_perform, pictures_after_perform]
  exact h _ _ ho

end Perform

section Stable

variable {P : Board → List Picture → Prop}

private theorem observe_preserves (look : Board → Except Fault α) (n : Option Board.Notice) :
    Access.Preserves (fun o => P o.board (pictures o.events)) (perform n (Access.observe look)) :=
  perform_preserves (fun _ b hb => (Access.after_observe look b).symm ▸ hb) n

/-- Reads and reports change neither the board nor the pictures. -/
theorem readStable : Bus.ReadStable fun o : Observed => P o.board (pictures o.events) where
  report n o ho := by
    change P o.board (pictures (o.events.push (.notice (.cpu n))))
    rw [pictures_push_notice]
    exact ho
  read8 addr := observe_preserves (fun b => b.read8 addr) none
  read16 addr :=
    (observe_preserves (fun b => b.read8 addr) none).bind fun _ =>
      (observe_preserves (fun b => b.read8 (addr + 1)) none).bind fun _ _ ho => ho

/-- What the board keeps when a byte is written lasts on the bus. -/
theorem stable (h : ∀ ps addr v, Access.Preserves (P · ps) (Board.write8 addr v)) :
    Bus.Stable fun o : Observed => P o.board (pictures o.events) where
  toReadStable := readStable
  write8 addr v o := perform_preserves (fun ps => h ps addr v) (writeNotice? o.board addr v) o
  write16 addr w :=
    have hwrite addr v : Access.Preserves _ (write8 addr v) := fun o =>
      perform_preserves (fun ps => h ps addr v) (writeNotice? o.board addr v) o
    (observe_preserves (fun b => b.checkWrite (addr + 1) (Word.hi w)) none).bind fun _ =>
      (hwrite addr (Word.lo w)).bind fun _ => hwrite (addr + 1) (Word.hi w)

end Stable

theorem read8_of_ok {addr : UInt16} {v : UInt8} (h : o.board.read8 addr = .ok v) :
    Bus.read8 addr o = .ok v o := by
  change perform none _ o = _
  simp only [perform, Access.observe, h]
  rfl

theorem read8_of_error {addr : UInt16} (h : o.board.read8 addr = .error e) :
    Bus.read8 addr o = .error e (o.notice (.refused e)) := by
  change perform none _ o = _
  simp only [perform, Access.observe, h]

theorem write8_of_ok {addr : UInt16} {v : UInt8} {b : Board}
    (h : Board.write8 addr v o.board = .ok () b) :
    ∃ t, Bus.write8 addr v o = .ok () t := by
  change ∃ t, perform _ _ o = .ok () t
  simp only [perform, h]
  exact ⟨_, rfl⟩

theorem read8_requested (o : Observed) :
    Bus.read8 Interrupts.requestAddr o = .ok o.board.requested.toByte o :=
  read8_of_ok rfl

theorem read8_enabled (o : Observed) : Bus.read8 Interrupts.enableAddr o = .ok o.board.enabled o :=
  read8_of_ok rfl

/-- What a look at the two registers of interrupts gives. -/
theorem eq_of_reads {enabled requested : UInt8} {b b' : Observed}
    (henabled : Bus.read8 Interrupts.enableAddr o = .ok enabled b)
    (hrequested : Bus.read8 Interrupts.requestAddr b = .ok requested b') :
    enabled = o.board.enabled ∧ b = o ∧ requested = o.board.requested.toByte ∧ b' = o := by
  rw [read8_enabled] at henabled
  cases henabled
  rw [read8_requested] at hrequested
  cases hrequested
  exact ⟨rfl, rfl, rfl, rfl⟩

/-- The board and the pictures: all of the bus but the notices. -/
def shown (o : Observed) : Board × List Picture :=
  (o.board, pictures o.events)

/-- A refused access that leaves the board alone changes nothing but the notices. -/
theorem shown_of_perform_eq_error {n : Option Board.Notice} {act : Access Board α}
    (hact : ∀ {b : Board}, act o.board = .error e b → b = o.board)
    (h : perform n act o = .error e t) : t.shown = o.shown := by
  have hboard := hact (board_of_perform_eq_error h)
  have hpictures := pictures_after_perform n act o
  rw [Access.after_of_error h] at hpictures
  rw [shown, shown, hboard, hpictures]

theorem shown_of_write8_eq_error {addr : UInt16} {v : UInt8} (h : write8 addr v o = .error e t) :
    t.shown = o.shown :=
  shown_of_perform_eq_error Board.write8_eq_error h

/-- Writes the two bytes of a word one after the other, low byte first. -/
def writeBytes (addr w : UInt16) : Access Observed Unit := do
  Bus.write8 addr (Word.lo w)
  Bus.write8 (addr + 1) (Word.hi w)

/-- The high byte of a word is tried out before anything is written. -/
theorem write16_eq_tryWrite (addr w : UInt16) :
    (Bus.write16 addr w : Access Observed Unit) =
      (tryWrite (addr + 1) (Word.hi w) >>= fun _ => writeBytes addr w) :=
  rfl

theorem tryWrite_of_ok {addr : UInt16} {v : UInt8} (h : o.board.checkWrite addr v = .ok ()) :
    tryWrite addr v o = .ok () o := by
  simp only [tryWrite, perform, Access.observe, h]
  rfl

theorem tryWrite_of_error {addr : UInt16} {v : UInt8} (h : o.board.checkWrite addr v = .error e) :
    tryWrite addr v o = .error e (o.notice (.refused e)) := by
  simp only [tryWrite, perform, Access.observe, h]

theorem write16_of_check_ok {addr w : UInt16}
    (h : o.board.checkWrite (addr + 1) (Word.hi w) = .ok ()) :
    Bus.write16 addr w o = writeBytes addr w o := by
  rw [write16_eq_tryWrite]
  simp only [bind, EStateM.bind, tryWrite_of_ok h]

theorem write16_of_check_error {addr w : UInt16}
    (h : o.board.checkWrite (addr + 1) (Word.hi w) = .error e) :
    Bus.write16 addr w o = .error e (o.notice (.refused e)) := by
  rw [write16_eq_tryWrite]
  simp only [bind, EStateM.bind, tryWrite_of_error h]

/-- A word that is written is written as its bytes would be. -/
theorem writeBytes_of_write16 {addr w : UInt16} (h : Bus.write16 addr w o = .ok () t) :
    writeBytes addr w o = .ok () t := by
  cases hcheck : o.board.checkWrite (addr + 1) (Word.hi w) with
  | ok _ => rw [← write16_of_check_ok hcheck, h]
  | error e =>
    rw [write16_of_check_error hcheck] at h
    cases h

/-- A word that misses the register for transfers is written. -/
theorem write16_succeeds (ho : o.board.WellFormed) {addr : UInt16} (hlow : addr ≠ 0xFF46)
    (hhigh : addr + 1 ≠ 0xFF46) (w : UInt16) : ∃ t, Bus.write16 addr w o = .ok () t := by
  have hcheck {a : UInt16} (ha : a ≠ 0xFF46) (v : UInt8) : o.board.checkWrite a v = .ok () :=
    ho.checkWrite_eq_ok_iff.mpr fun hdma => absurd (IoRegister.of_eq_dma_iff.mp hdma) ha
  obtain ⟨b, hb⟩ := ho.write8_eq_ok (hcheck hlow (Word.lo w))
  obtain ⟨t, ht⟩ := write8_of_ok hb
  obtain ⟨b', hb'⟩ := ho.write8_succ_eq_ok (board_of_perform_eq_ok ht) (hcheck hhigh (Word.hi w))
  obtain ⟨u, hu⟩ := write8_of_ok hb'
  rw [write16_of_check_ok (hcheck hhigh _)]
  exact ⟨u, Access.bind_eq_ok_iff.mpr ⟨(), t, ht, hu⟩⟩

/-- A refused word leaves no half behind. -/
theorem shown_of_write16_eq_error {addr w : UInt16} (ho : o.board.WellFormed)
    (h : Bus.write16 addr w o = .error e t) : t.shown = o.shown := by
  cases hcheck : o.board.checkWrite (addr + 1) (Word.hi w) with
  | error e' =>
    rw [write16_of_check_error hcheck] at h
    cases h
    exact congrArg (o.board, ·) (pictures_push_notice o.events _)
  | ok _ =>
    rw [write16_of_check_ok hcheck] at h
    obtain hlow | ⟨_, u, hlow, hhigh⟩ := Access.bind_eq_error_iff.mp h
    · exact shown_of_write8_eq_error hlow
    · -- The low byte is written: the high byte, which has passed the check, cannot be refused.
      obtain ⟨_, hhigh'⟩ := ho.write8_succ_eq_ok (board_of_perform_eq_ok hlow) hcheck
      rw [board_of_perform_eq_error hhigh] at hhigh'
      cases hhigh'

/-- The bus refuses an access as a whole. -/
theorem refusesWhole :
    Bus.RefusesWhole shown fun v => v.1.WellFormed where
  reads v := readStable (P := fun b ps => (b, ps) = v)
  write8 _ h := shown_of_write8_eq_error h
  write16 ho h := shown_of_write16_eq_error ho h

end Observed

end Handheld
