import Handheld.Memory.Flat

namespace Handheld.History

variable {α β : Type} {tells : List α → α → Option β} {initial : β}

/-- What the latest entry tells of those that tell anything, or else what holds initially. What an
    entry tells depends on the entries before it. -/
def latest (tells : List α → α → Option β) (initial : β) : List α → β
  | [] => initial
  | x :: past => (tells past x).getD (latest tells initial past)

theorem latest_cons_of_some {x : α} {past : List α} {b : β} (h : tells past x = some b) :
    latest tells initial (x :: past) = b := by
  rw [latest, h, Option.getD_some]

theorem latest_cons_of_none {x : α} {past : List α} (h : tells past x = none) :
    latest tells initial (x :: past) = latest tells initial past := by
  rw [latest, h, Option.getD_none]

theorem latest_cons_of_ite {x : α} {past : List α} {b : β} {p : Prop} [Decidable p]
    (h : tells past x = if p then some b else none) :
    latest tells initial (x :: past) = if p then b else latest tells initial past := by
  by_cases hp : p
  · rw [if_pos hp] at h ⊢
    exact latest_cons_of_some h
  · rw [if_neg hp] at h ⊢
    exact latest_cons_of_none h

/-- Entries that tell nothing leave it at what was told before. -/
theorem latest_append_of_silent {more past : List α}
    (h : ∀ x ∈ more, ∀ before, tells before x = none) :
    latest tells initial (more ++ past) = latest tells initial past := by
  induction more with
  | nil => rfl
  | cons x more ih =>
    rw [List.forall_mem_cons] at h
    rw [List.cons_append, latest_cons_of_none (h.1 _)]
    exact ih h.2

/-- The machine cycles that passed in a history. -/
def cycles : List BusCall → Nat
  | [] => 0
  | .tick n :: past => cycles past + n
  | _ :: past => cycles past

/-- What a call tells if it is a write; other calls tell nothing. -/
def atWrite (f : List BusCall → UInt16 → UInt8 → Option β) (past : List BusCall) :
    BusCall → Option β
  | .write addr v => f past addr v
  | _ => none

theorem latest_of_not_write {f : List BusCall → UInt16 → UInt8 → Option β} {past : List BusCall}
    {call : BusCall} (h : ∀ addr v, call ≠ .write addr v) :
    latest (atWrite f) initial (call :: past) = latest (atWrite f) initial past := by
  refine latest_cons_of_none ?_
  cases call with
  | write addr v => exact absurd rfl (h addr v)
  | _ => rfl

end Handheld.History
