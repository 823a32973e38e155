/-
  HeaderPeer.Queue — queues: what goes in first comes out first.

  A queue keeps the items that come out next apart from those that came in since, so that putting an
  item in and taking one out do not go through the items between.

  Main statements: seen as a list (`toList`), a queue grows at its end (`toList_push`) and gives
  away its first item (`toList_of_pop?`).
-/
namespace HeaderPeer

/-- Items that wait for their turn. -/
structure Queue (α : Type) where
  /-- Items that come out next, in order. -/
  front : List α
  /-- Items that came in since, latest first. -/
  back : List α

namespace Queue

variable {α : Type}

def empty : Queue α := ⟨[], []⟩

/-- The items in the order in which they come out. -/
def toList (q : Queue α) : List α := q.front ++ q.back.reverse

def length (q : Queue α) : Nat := q.front.length + q.back.length

def push (q : Queue α) (a : α) : Queue α := { q with back := a :: q.back }

/-- The item that comes out next and the queue without it. -/
def pop? (q : Queue α) : Option (α × Queue α) :=
  match q.front with
  | a :: front => some (a, { q with front })
  | [] =>
    match q.back.reverse with
    | a :: front => some (a, { front, back := [] })
    | [] => none

@[simp] theorem length_toList (q : Queue α) : q.toList.length = q.length := by
  simp [toList, length]

@[simp] theorem toList_push (q : Queue α) (a : α) : (q.push a).toList = q.toList ++ [a] := by
  simp [toList, push]

/-- Taking an item out takes the first one and leaves the others in order. -/
theorem toList_of_pop? {q rest : Queue α} {a : α} (h : q.pop? = some (a, rest)) :
    q.toList = a :: rest.toList := by
  unfold pop? at h
  split at h
  · next hfront =>
    cases h
    simp [toList, hfront]
  · next hfront =>
    split at h
    · next hback =>
      cases h
      simp [toList, hfront, hback]
    · cases h

/-- Nothing comes out of a queue exactly when nothing waits. -/
theorem pop?_eq_none_iff {q : Queue α} : q.pop? = none ↔ q.toList = [] := by
  unfold pop?
  split
  · next hfront => simp [toList, hfront]
  · next hfront =>
    split
    · next hback => simp [toList, hfront, hback]
    · next hback => simp [toList, hfront, hback]

end Queue

end HeaderPeer
