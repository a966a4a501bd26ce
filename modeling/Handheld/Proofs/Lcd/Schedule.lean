import Handheld.Lcd.Raster

namespace Handheld.Raster

/-- What is finished, with the line and the mode that the display has then reached. -/
inductive Finish
  | scanline (line : Nat) (mode : Lcd.Mode)
  | frame (line : Nat) (mode : Lcd.Mode)
  deriving DecidableEq, Repr, Inhabited

namespace Finish

/-- A visible line of some frame is finished at clock cycle `t`, 252 cycles after it began, or a
    frame is, as line 144 begins. -/
def At (t : Nat) : Finish → Prop
  | .scanline line mode =>
    line < vblankLine ∧ mode = .hBlank ∧ ∃ k, cyclesPerFrame * k + 456 * line + 252 = t
  | .frame line mode =>
    line = vblankLine ∧ mode = .vBlank ∧ ∃ k, cyclesPerFrame * k + 456 * vblankLine = t

/-- The finish of a visible line. -/
def ofLine (line : Nat) : Finish := .scanline line .hBlank

/-- The finish of a frame. -/
def ofFrame : Finish := .frame vblankLine .vBlank

end Finish

theorem cyclesPerFrame_eq : cyclesPerFrame = 70224 := rfl

/-- What is finished at a clock cycle of a frame, if anything. -/
def dueInFrame (p : Nat) : Option Finish :=
  if p % 456 = 252 ∧ p / 456 < vblankLine then some (.ofLine (p / 456))
  else if p = 456 * vblankLine then some .ofFrame
  else none

/-- What is finished at a clock cycle, if anything. -/
def due (t : Nat) : Option Finish :=
  dueInFrame (t % cyclesPerFrame)

theorem due_add (k : Nat) {p : Nat} (h : p < cyclesPerFrame) :
    due (cyclesPerFrame * k + p) = dueInFrame p := by
  rw [due, Nat.mul_add_mod, Nat.mod_eq_of_lt h]

theorem dueInFrame_line {line : Nat} (h : line < vblankLine) :
    dueInFrame (456 * line + 252) = some (.ofLine line) := by
  have hdiv : (456 * line + 252) / 456 = line := by omega
  unfold dueInFrame
  rw [hdiv, if_pos ⟨by omega, h⟩]

theorem dueInFrame_frame : dueInFrame (456 * vblankLine) = some .ofFrame := by
  unfold dueInFrame
  rw [if_neg (by decide), if_pos rfl]

/-- Within a line nothing is due but the line itself, and no line is due in v-blank. -/
theorem dueInFrame_eq_none {line x : Nat} (hpos : 0 < x) (hlt : x < 456)
    (h : line < vblankLine → x ≠ 252) : dueInFrame (456 * line + x) = none := by
  unfold dueInFrame
  rw [if_neg, if_neg]
  · simp only [vblankLine]
    omega
  · simp only [vblankLine] at *
    omega

/-- In v-blank nothing is due but the frame with which it begins. -/
theorem dueInFrame_vblank {p : Nat} (h : 456 * vblankLine < p) : dueInFrame p = none := by
  unfold dueInFrame
  rw [if_neg (by simp only [vblankLine] at *; omega), if_neg (by omega)]

/-- As a line begins nothing is due but the frame. -/
theorem dueInFrame_start (line : Nat) (h : line ≠ vblankLine) : dueInFrame (456 * line) = none := by
  unfold dueInFrame
  rw [if_neg (by omega), if_neg (by omega)]

/-- What is due is what is finished. -/
theorem due_eq_some_iff {t : Nat} {f : Finish} : due t = some f ↔ f.At t := by
  constructor
  · intro h
    have ht := Nat.div_add_mod t cyclesPerFrame
    unfold due dueInFrame at h
    split at h
    · rename_i hline
      cases h
      refine ⟨hline.2, rfl, t / cyclesPerFrame, ?_⟩
      omega
    · split at h
      · rename_i hframe
        cases h
        exact ⟨rfl, rfl, t / cyclesPerFrame, hframe ▸ ht⟩
      · cases h
  · intro h
    cases f with
    | scanline line mode =>
      obtain ⟨hline, rfl, k, rfl⟩ := h
      rw [Nat.add_assoc, due_add k, dueInFrame_line hline]
      · rfl
      · simp only [cyclesPerFrame_eq, vblankLine] at *
        omega
    | frame line mode =>
      obtain ⟨rfl, rfl, k, rfl⟩ := h
      rw [due_add k (by decide), dueInFrame_frame]
      rfl

/-- What is finished in the `n` clock cycles after `t`, in order. -/
def dueAfter (t n : Nat) : List Finish :=
  (List.range' (t + 1) n).filterMap due

theorem dueAfter_add (t m n : Nat) : dueAfter t (m + n) = dueAfter t m ++ dueAfter (t + m) n := by
  have hstart : t + m + 1 = t + 1 + m := by omega
  rw [dueAfter, dueAfter, dueAfter, hstart, ← List.filterMap_append, List.range'_append_1]

theorem dueAfter_succ (t n : Nat) :
    dueAfter t (n + 1) = dueAfter t n ++ (due (t + n + 1)).toList := by
  rw [dueAfter_add]
  cases h : due (t + n + 1) <;> simp [dueAfter, h]

theorem dueAfter_eq_nil {t n : Nat} (h : ∀ x, 0 < x → x ≤ n → due (t + x) = none) :
    dueAfter t n = [] := by
  rw [dueAfter, List.filterMap_eq_nil_iff]
  intro u hu
  rw [List.mem_range'_1] at hu
  have hx := h (u - t) (by omega) (by omega)
  rwa [Nat.add_sub_cancel' (by omega)] at hx

/-- All that is finished up to a clock cycle, with the time of each, in order. -/
def timetable (t : Nat) : List (Nat × Finish) :=
  (List.range' 1 t).filterMap fun u => (due u).map (u, ·)

theorem map_snd_timetable (t : Nat) : (timetable t).map Prod.snd = dueAfter 0 t := by
  rw [timetable, dueAfter, List.map_filterMap]
  congr 1
  funext u
  cases due u <;> rfl

/-- The timetable lists exactly what is finished by then. -/
theorem mem_timetable_iff {t u : Nat} {f : Finish} : (u, f) ∈ timetable t ↔ u ≤ t ∧ f.At u := by
  have hpos : f.At u → 0 < u := by
    cases f with
    | scanline => rintro ⟨-, -, k, rfl⟩; omega
    | frame => rintro ⟨-, -, k, rfl⟩; simp only [vblankLine]; omega
  simp only [timetable, List.mem_filterMap, List.mem_range'_1, Option.map_eq_some_iff,
    Prod.mk.injEq]
  constructor
  · rintro ⟨u', hu', f', hdue, rfl, rfl⟩
    exact ⟨by omega, due_eq_some_iff.mp hdue⟩
  · rintro ⟨hu, hat⟩
    have := hpos hat
    exact ⟨u, ⟨by omega, by omega⟩, f, due_eq_some_iff.mpr hat, rfl, rfl⟩

/-- Nothing is finished at the same time as anything else. -/
theorem timetable_pairwise (t : Nat) : (timetable t).Pairwise fun a b => a.1 < b.1 := by
  rw [timetable, List.pairwise_filterMap]
  refine (List.pairwise_lt_range' 1).imp fun {u v} huv a ha b hb => ?_
  obtain ⟨_, -, rfl⟩ := Option.map_eq_some_iff.mp ha
  obtain ⟨_, -, rfl⟩ := Option.map_eq_some_iff.mp hb
  exact huv

/-- A visible line is all that is finished within its time. -/
theorem dueAfter_line (k : Nat) {line : Nat} (h : line < vblankLine) :
    dueAfter (cyclesPerFrame * k + 456 * line) 455 = [.ofLine line] := by
  have hdue x (hx : x < 456) : due (cyclesPerFrame * k + 456 * line + x) =
      dueInFrame (456 * line + x) := by
    rw [Nat.add_assoc]
    refine due_add k ?_
    simp only [cyclesPerFrame_eq, vblankLine] at *
    omega
  have hbefore : dueAfter (cyclesPerFrame * k + 456 * line) 251 = [] :=
    dueAfter_eq_nil fun x hpos hle => by
      rw [hdue x (by omega), dueInFrame_eq_none hpos (by omega) fun _ => by omega]
  have hafter : dueAfter (cyclesPerFrame * k + 456 * line + 252) 203 = [] :=
    dueAfter_eq_nil fun x hpos hle => by
      rw [Nat.add_assoc, hdue (252 + x) (by omega),
        dueInFrame_eq_none (by omega) (by omega) fun _ => by omega]
  calc dueAfter (cyclesPerFrame * k + 456 * line) 455
      = dueAfter (cyclesPerFrame * k + 456 * line) 251 ++
          (due (cyclesPerFrame * k + 456 * line + 252)).toList ++
          dueAfter (cyclesPerFrame * k + 456 * line + 252) 203 := by
        rw [← dueAfter_succ, ← dueAfter_add]
    _ = [.ofLine line] := by
        rw [hbefore, hafter, hdue 252 (by omega), dueInFrame_line h]
        rfl

/-- The visible lines of a frame are finished one after the other. -/
theorem dueAfter_lines (k : Nat) {line : Nat} (h : line < vblankLine) :
    dueAfter (cyclesPerFrame * k) (456 * line + 455) = (List.range (line + 1)).map .ofLine := by
  induction line with
  | zero => exact dueAfter_line k h
  | succ line ih =>
    have hstart : due (cyclesPerFrame * k + (456 * line + 455) + 1) = none := by
      rw [Nat.add_assoc, due_add k (by simp only [cyclesPerFrame_eq, vblankLine] at *; omega)]
      exact dueInFrame_start (line + 1) (by omega)
    have hline := dueAfter_line k h
    calc dueAfter (cyclesPerFrame * k) (456 * (line + 1) + 455)
        = dueAfter (cyclesPerFrame * k) (456 * line + 455) ++
            (due (cyclesPerFrame * k + (456 * line + 455) + 1)).toList ++
            dueAfter (cyclesPerFrame * k + 456 * (line + 1)) 455 := by
          rw [← dueAfter_succ]
          exact dueAfter_add (cyclesPerFrame * k) (456 * line + 456) 455
      _ = (List.range (line + 1 + 1)).map .ofLine := by
          rw [ih (by omega), hstart, hline]
          simp [List.range_succ]

/-- Between a frame and the next all visible lines are finished, each once. -/
theorem dueAfter_frame (k : Nat) :
    dueAfter (cyclesPerFrame * k + 456 * vblankLine) (cyclesPerFrame - 1) =
      (List.range vblankLine).map .ofLine := by
  have hnext : cyclesPerFrame * k + 456 * vblankLine + 4560 = cyclesPerFrame * (k + 1) := by
    simp only [cyclesPerFrame_eq, vblankLine]
    omega
  have hsilent : dueAfter (cyclesPerFrame * k + 456 * vblankLine) 4560 = [] := by
    refine dueAfter_eq_nil fun x hpos hle => ?_
    obtain hlt | rfl : x < 4560 ∨ x = 4560 := by omega
    · rw [Nat.add_assoc, due_add k (by simp only [cyclesPerFrame_eq, vblankLine]; omega)]
      exact dueInFrame_vblank (by omega)
    · rw [hnext]
      exact (due_add (k + 1) (p := 0) (by decide)).trans (dueInFrame_start 0 (by decide))
  have hlength : cyclesPerFrame - 1 = 4560 + (456 * 143 + 455) := by
    rw [cyclesPerFrame_eq]
  rw [hlength, dueAfter_add, hsilent, hnext, dueAfter_lines (k + 1) (by decide)]
  rfl

private theorem range'_between {a n u v : Nat} {xs ys zs : List Nat}
    (h : List.range' a n = xs ++ u :: (ys ++ v :: zs)) :
    u < v ∧ ys = List.range' (u + 1) (v - u - 1) := by
  obtain ⟨k, -, -, hu⟩ := List.range'_eq_append_iff.mp h
  obtain ⟨rfl, -, hrest⟩ := List.range'_eq_cons_iff.mp hu.symm
  obtain ⟨j, -, rfl, hv⟩ := List.range'_eq_append_iff.mp hrest.symm
  obtain ⟨rfl, -, -⟩ := List.range'_eq_cons_iff.mp hv.symm
  refine ⟨by omega, ?_⟩
  congr 1
  omega

/-- In the list of what is finished, the visible lines stand between a frame and the next. -/
theorem eq_lines_of_between {t : Nat} {before between after : List Finish}
    (h : dueAfter 0 t = before ++ .ofFrame :: (between ++ .ofFrame :: after))
    (hbetween : .ofFrame ∉ between) : between = (List.range vblankLine).map .ofLine := by
  obtain ⟨l, _, hl, -, hframe⟩ := List.filterMap_eq_append_iff.mp h
  obtain ⟨l₁, u, _, rfl, -, hu, hrest⟩ := List.filterMap_eq_cons_iff.mp hframe
  obtain ⟨m, _, rfl, hm, hlast⟩ := List.filterMap_eq_append_iff.mp hrest
  obtain ⟨m₁, v, m₂, rfl, hnone, hv, -⟩ := List.filterMap_eq_cons_iff.mp hlast
  have hsplit : List.range' 1 t = (l ++ l₁) ++ u :: ((m ++ m₁) ++ v :: m₂) := by simpa using hl
  obtain ⟨huv, hrange⟩ := range'_between hsplit
  obtain ⟨-, -, k, rfl⟩ := due_eq_some_iff.mp hu
  obtain ⟨-, -, k', rfl⟩ := due_eq_some_iff.mp hv
  -- A frame in between would be in the list.
  have hnext : k' = k + 1 := by
    by_cases hgap : k + 1 < k'
    · refine absurd ?_ hbetween
      have hmem : cyclesPerFrame * (k + 1) + 456 * vblankLine ∈ m ++ m₁ := by
        rw [hrange, List.mem_range'_1]
        simp only [cyclesPerFrame_eq] at *
        omega
      have hdue : due (cyclesPerFrame * (k + 1) + 456 * vblankLine) = some .ofFrame :=
        due_eq_some_iff.mpr ⟨rfl, rfl, k + 1, rfl⟩
      rw [← hm, List.mem_filterMap]
      obtain hmem | hmem := List.mem_append.mp hmem
      · exact ⟨_, hmem, hdue⟩
      · rw [hnone _ hmem] at hdue
        cases hdue
    · simp only [cyclesPerFrame_eq] at huv
      omega
  have hlength : cyclesPerFrame * k' + 456 * vblankLine -
      (cyclesPerFrame * k + 456 * vblankLine) - 1 = cyclesPerFrame - 1 := by
    rw [hnext, cyclesPerFrame_eq]
    omega
  calc between
      = (m ++ m₁).filterMap due := by
        rw [List.filterMap_append, hm, List.filterMap_eq_nil_iff.mpr hnone, List.append_nil]
    _ = (List.range vblankLine).map .ofLine := by
        rw [hrange, hlength]
        exact dueAfter_frame k

/-- The list is just what is finished up to clock cycle `t`, in order of time and never two at a
    time. Between a frame and the next it has each visible line once, from the first to the last. -/
structure OnSchedule (t : Nat) (finished : List Finish) : Prop where
  timed : ∃ timed : List (Nat × Finish), timed.map Prod.snd = finished ∧
    (timed.Pairwise fun x y => x.1 < y.1) ∧ ∀ u f, (u, f) ∈ timed ↔ u ≤ t ∧ f.At u
  lines : ∀ before between after, finished = before ++ .ofFrame :: (between ++ .ofFrame :: after) →
    .ofFrame ∉ between → between = (List.range vblankLine).map .ofLine

theorem dueAfter_onSchedule (t : Nat) : OnSchedule t (dueAfter 0 t) where
  timed := ⟨timetable t, map_snd_timetable t, timetable_pairwise t, fun _ _ => mem_timetable_iff⟩
  lines _ _ _ h hbetween := eq_lines_of_between h hbetween

end Handheld.Raster
