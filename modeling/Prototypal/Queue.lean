/-!
# Queues

A queue gives back what was put into it in the same order.  `toList` is the view of a queue; each
operation has its equation for it.
-/

namespace Prototypal

/-- A queue: what is taken next, and what is taken after that, the latest first. -/
structure Queue (α : Type) where
  front : List α
  back : List α
deriving DecidableEq, Repr

namespace Queue

variable {α : Type}

/-- Nothing waits. -/
def empty : Queue α := ⟨[], []⟩

instance : Inhabited (Queue α) := ⟨empty⟩

/-- What waits, in the order in which it is taken. -/
def toList (q : Queue α) : List α := q.front ++ q.back.reverse

/-- How many wait. -/
def length (q : Queue α) : Nat := q.front.length + q.back.length

/-- Puts one to the end. -/
def push (q : Queue α) (a : α) : Queue α := { q with back := a :: q.back }

/-- Takes the first. -/
def pop? (q : Queue α) : Option (α × Queue α) :=
  match q.front with
  | a :: front => some (a, { q with front })
  | [] =>
    match q.back.reverse with
    | a :: front => some (a, ⟨front, []⟩)
    | [] => none

/-! ## The view of each operation -/

@[simp]
theorem toList_empty : (empty : Queue α).toList = [] := rfl

@[simp]
theorem length_toList (q : Queue α) : q.toList.length = q.length := by simp [toList, length]

@[simp]
theorem toList_push (q : Queue α) (a : α) : (q.push a).toList = q.toList ++ [a] := by
  simp [toList, push]

theorem toList_of_pop? {q rest : Queue α} {a : α} (h : q.pop? = some (a, rest)) :
    q.toList = a :: rest.toList := by
  unfold pop? at h
  split at h
  · next front hf =>
    obtain ⟨rfl, rfl⟩ := Prod.mk.inj (Option.some.inj h)
    simp [toList, hf]
  · next hf =>
    split at h
    · next front hb =>
      obtain ⟨rfl, rfl⟩ := Prod.mk.inj (Option.some.inj h)
      simp [toList, hf, hb]
    · contradiction

theorem pop?_eq_none_iff {q : Queue α} : q.pop? = none ↔ q.toList = [] := by
  unfold pop?
  split
  · next hf => simp [toList, hf]
  · next hf => split <;> simp_all [toList]

end Queue

end Prototypal
